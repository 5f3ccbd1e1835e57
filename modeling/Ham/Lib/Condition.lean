import Mathlib

/-!
# Condition variables

A monitor seen at the grain of its mutex sections: a thread stands at a `Gate`
until it locks the mutex, and one section later it has left the monitor or
waits. A `Condition` says at which gate a thread stands that may wait on the
condition variable, whatever else its state holds.

`notify_one` picks a waiting thread if there is one, and which one is up to the
scheduler; a waiting thread may also wake up by itself. No wakeup is lost when
the condition is `Covered`: while a thread waits un-notified, there are no more
items to be had than notified threads on their way to them. An item together
with a notification keeps it so (`Covered.notifyOne`), and so does a notified
thread that takes an item (`Covered.leave`).
-/

namespace Ham.Lib

/-- Where a thread stands that is about to lock the mutex. -/
inductive Gate where
  /-- For the first time. -/
  | entering
  /-- In `wait`, un-notified. -/
  | waiting
  /-- In `wait`, behind a notification. -/
  | notified
  /-- In `wait`, awake without a notification. -/
  | woken
  deriving DecidableEq, Repr

/-- A condition variable, over the states of the threads that may wait on it. -/
structure Condition (σ : Type*) where
  /-- The gate of a thread in the monitor. -/
  gate : σ → Option Gate
  /-- The thread at another gate. -/
  pass : Gate → σ → σ
  gate_pass : ∀ s g, (gate s).isSome → gate (pass g s) = some g

namespace Condition

variable {σ : Type*} (C : Condition σ) {ts ts' : List σ} {s u : σ} {i n m pick : Nat} {g : Gate}

/-- How many threads stand at a gate. -/
def count (g : Gate) (ts : List σ) : Nat := ts.countP fun s => C.gate s = some g

/-- How many threads are in the monitor. -/
def inside (ts : List σ) : Nat := ts.countP fun s => (C.gate s).isSome

/-- `notify_one`, with the choice of the scheduler. -/
def notifyOne (pick : Nat) (ts : List σ) : List σ :=
  match ts[pick]? with
  | some s => if C.gate s = some .waiting then ts.set pick (C.pass .notified s) else ts
  | none => ts

/-- The scheduler can choose so: a waiting thread, if there is one. -/
def Picks (pick : Nat) (ts : List σ) : Prop :=
  0 < C.count .waiting ts → ∃ s, ts[pick]? = some s ∧ C.gate s = some .waiting

instance (pick : Nat) (ts : List σ) : Decidable (C.Picks pick ts) :=
  inferInstanceAs (Decidable (0 < C.count .waiting ts →
    ∃ s ∈ ts[pick]?, C.gate s = some .waiting))

def notifyAll (ts : List σ) : List σ :=
  ts.map fun s => if C.gate s = some .waiting then C.pass .notified s else s

/-- While a thread waits, `n` items are no more than the notified threads. -/
def Covered (n : Nat) (ts : List σ) : Prop :=
  0 < C.count .waiting ts → n ≤ C.count .notified ts

/-! ## Counting -/

variable {C}

theorem countP_set_add {p : σ → Bool} (h : ts[i]? = some s) :
    (ts.set i u).countP p + (if p s then 1 else 0) = ts.countP p + (if p u then 1 else 0) := by
  obtain ⟨hi, hs⟩ := List.getElem?_eq_some_iff.mp h
  rw [List.countP_set hi, hs]
  have hpos : p s = true → 0 < ts.countP p := by
    intro hp
    exact List.countP_pos_iff.mpr ⟨s, List.mem_of_getElem? h, hp⟩
  split_ifs at * with hp hp'
  · have := hpos hp
    omega
  · have := hpos hp
    omega
  · omega
  · omega

/-- The thread that goes on stands where it goes. -/
theorem mem_set_self (h : ts[i]? = some s) : u ∈ ts.set i u :=
  List.mem_set (List.getElem?_eq_some_iff.mp h).1 u

/-- A thread goes on, with what is observed of it unchanged. -/
theorem map_set_same {β : Type*} {f : σ → β} (h : ts[i]? = some s) (hu : f u = f s) :
    (ts.set i u).map f = ts.map f := by
  obtain ⟨hi, rfl⟩ := List.getElem?_eq_some_iff.mp h
  rw [List.map_set, hu, ← List.getElem_map f (h := by simpa using hi), List.set_getElem_self]

/-- What each thread has to show stays the same with the thread that goes on. -/
theorem filterMap_set_same {β : Type*} {f : σ → Option β} (h : ts[i]? = some s)
    (hu : f u = f s) : (ts.set i u).filterMap f = ts.filterMap f := by
  have hmap := congrArg (List.filterMap id) (map_set_same h hu)
  simpa only [List.filterMap_map, Function.id_comp] using hmap

/-- A thread goes on that has something to show for the first time. -/
theorem filterMap_set_perm {β : Type*} {f : σ → Option β} {x : β} (h : ts[i]? = some s)
    (hs : f s = none) (hu : f u = some x) :
    ((ts.set i u).filterMap f).Perm (ts.filterMap f ++ [x]) := by
  obtain ⟨hi, rfl⟩ := List.getElem?_eq_some_iff.mp h
  have hbefore : ts.filterMap f = (ts.take i).filterMap f ++ (ts.drop (i + 1)).filterMap f := by
    conv_lhs => rw [← List.take_append_drop i ts, List.drop_eq_getElem_cons hi]
    rw [List.filterMap_append, List.filterMap_cons_none hs]
  rw [hbefore, List.set_eq_take_append_cons_drop, if_pos hi, List.filterMap_append,
    List.filterMap_cons_some hu, List.append_assoc]
  exact (List.perm_append_singleton x _).symm.append_left _

/-- One thread goes on, and the others stay where they are. -/
theorem mem_set_of_ne {t : σ} (ht : t ∈ ts) (h : ts[i]? = some s) (hne : s ≠ t) :
    t ∈ ts.set i u := by
  obtain ⟨k, hk⟩ := List.mem_iff_getElem?.mp ht
  have hik : i ≠ k := by
    rintro rfl
    rw [h] at hk
    exact hne (Option.some.inj hk)
  exact List.mem_iff_getElem?.mpr ⟨k, by rw [List.getElem?_set_ne hik, hk]⟩

theorem count_set (h : ts[i]? = some s) (g : Gate) :
    C.count g (ts.set i u) + (if C.gate s = some g then 1 else 0) =
      C.count g ts + (if C.gate u = some g then 1 else 0) := by
  simpa [count] using countP_set_add (p := fun s => C.gate s = some g) (u := u) h

theorem inside_set (h : ts[i]? = some s) :
    C.inside (ts.set i u) + (if (C.gate s).isSome then 1 else 0) =
      C.inside ts + (if (C.gate u).isSome then 1 else 0) :=
  countP_set_add (p := fun s => (C.gate s).isSome) h

/-- A thread that neither comes into the monitor nor leaves it. -/
theorem inside_set_eq (h : ts[i]? = some s) (hgate : (C.gate u).isSome = (C.gate s).isSome) :
    C.inside (ts.set i u) = C.inside ts := by
  have hcount := C.inside_set (u := u) h
  rw [hgate] at hcount
  omega

/-- A thread that leaves the monitor. -/
theorem inside_set_succ (h : ts[i]? = some s) (hin : (C.gate s).isSome = true)
    (hout : (C.gate u).isSome = false) : C.inside (ts.set i u) + 1 = C.inside ts := by
  have hcount := C.inside_set (u := u) h
  rw [hin, hout] at hcount
  simpa using hcount

/-- Nobody waits, and a thread goes on that does not go to `wait`. -/
theorem count_set_eq_zero (hzero : C.count .waiting ts = 0) (h : ts[i]? = some s)
    (hu : C.gate u ≠ some .waiting) : C.count .waiting (ts.set i u) = 0 := by
  have hcount := C.count_set (u := u) h .waiting
  rw [if_neg hu] at hcount
  omega

theorem count_append (g : Gate) (ts ts' : List σ) :
    C.count g (ts ++ ts') = C.count g ts + C.count g ts' := List.countP_append

/-! ## Notifications -/

/-- `notify_one` on a thread that waits, or on none. -/
theorem notifyOne_cases (pick : Nat) (ts : List σ) :
    (∃ s, ts[pick]? = some s ∧ C.gate s = some .waiting ∧
      C.notifyOne pick ts = ts.set pick (C.pass .notified s)) ∨ C.notifyOne pick ts = ts := by
  unfold notifyOne
  cases h : ts[pick]? with
  | none => exact .inr rfl
  | some s =>
      by_cases hs : C.gate s = some .waiting
      · exact .inl ⟨s, rfl, hs, by simp [hs]⟩
      · exact .inr (by simp [hs])

theorem gate_notified (h : C.gate s = some g) : C.gate (C.pass .notified s) = some .notified :=
  C.gate_pass s .notified (by simp [h])

/-- A notification is not seen by a property that does not tell a waiting
thread from a notified one. -/
theorem countP_notifyOne {p : σ → Bool}
    (hp : ∀ s, C.gate s = some .waiting → p (C.pass .notified s) = p s) (pick : Nat)
    (ts : List σ) : (C.notifyOne pick ts).countP p = ts.countP p := by
  rcases C.notifyOne_cases pick ts with ⟨s, hs, hgate, heq⟩ | heq
  · have hcount := countP_set_add (p := p) (u := C.pass .notified s) hs
    rw [hp s hgate] at hcount
    rw [heq]
    omega
  · rw [heq]

theorem countP_notifyAll {p : σ → Bool}
    (hp : ∀ s, C.gate s = some .waiting → p (C.pass .notified s) = p s) (ts : List σ) :
    (C.notifyAll ts).countP p = ts.countP p := by
  rw [notifyAll, List.countP_map]
  congr 1
  funext s
  by_cases hs : C.gate s = some .waiting
  · simp [hs, hp s hs]
  · simp [hs]

/-- A notified thread is still in the monitor. -/
theorem inside_notifyOne (pick : Nat) (ts : List σ) :
    C.inside (C.notifyOne pick ts) = C.inside ts := by
  apply countP_notifyOne
  intro s hs
  simp [hs, gate_notified hs]

theorem inside_notifyAll (ts : List σ) : C.inside (C.notifyAll ts) = C.inside ts := by
  apply countP_notifyAll
  intro s hs
  simp [hs, gate_notified hs]

/-- Nor does a notification change what is the same of a waiting thread and of a
notified one. -/
theorem map_notifyOne {β : Type*} {f : σ → β} (hf : ∀ s, f (C.pass .notified s) = f s)
    (pick : Nat) (ts : List σ) : (C.notifyOne pick ts).map f = ts.map f := by
  rcases C.notifyOne_cases pick ts with ⟨s, hs, -, heq⟩ | heq
  · rw [heq, map_set_same hs (hf s)]
  · rw [heq]

theorem map_notifyAll {β : Type*} {f : σ → β} (hf : ∀ s, f (C.pass .notified s) = f s)
    (ts : List σ) : (C.notifyAll ts).map f = ts.map f := by
  rw [notifyAll, List.map_map]
  refine List.map_congr_left fun s _ => ?_
  show f (if C.gate s = some .waiting then C.pass .notified s else s) = f s
  split_ifs
  · exact hf s
  · rfl

theorem filterMap_notifyOne {β : Type*} {f : σ → Option β} (hf : ∀ s, f (C.pass .notified s) = f s)
    (pick : Nat) (ts : List σ) : (C.notifyOne pick ts).filterMap f = ts.filterMap f := by
  have hmap := congrArg (List.filterMap id) (C.map_notifyOne hf pick ts)
  simpa only [List.filterMap_map, Function.id_comp] using hmap

/-- The scheduler has a choice. -/
theorem exists_picks (ts : List σ) : ∃ pick, C.Picks pick ts := by
  by_cases hw : 0 < C.count .waiting ts
  · obtain ⟨s, hmem, hgate⟩ := List.countP_pos_iff.mp hw
    obtain ⟨pick, hpick⟩ := List.mem_iff_getElem?.mp hmem
    exact ⟨pick, fun _ => ⟨s, hpick, by simpa using hgate⟩⟩
  · exact ⟨0, fun h => absurd h hw⟩

/-- The threads behind a notification are those before it, but for some that
have gone from waiting to notified. -/
theorem mem_notifyOne (h : u ∈ C.notifyOne pick ts) :
    u ∈ ts ∨ ∃ s ∈ ts, C.gate s = some .waiting ∧ u = C.pass .notified s := by
  rcases C.notifyOne_cases pick ts with ⟨s, hs, hgate, heq⟩ | heq
  · rw [heq] at h
    rcases List.mem_or_eq_of_mem_set h with hmem | rfl
    · exact .inl hmem
    · exact .inr ⟨s, List.mem_of_getElem? hs, hgate, rfl⟩
  · rw [heq] at h
    exact .inl h

theorem mem_notifyAll (h : u ∈ C.notifyAll ts) :
    u ∈ ts ∨ ∃ s ∈ ts, C.gate s = some .waiting ∧ u = C.pass .notified s := by
  obtain ⟨s, hs, rfl⟩ := List.mem_map.mp h
  split_ifs with hgate
  · exact .inr ⟨s, hs, hgate, rfl⟩
  · exact .inl hs

/-- A thread sees nothing of a notification, or goes from waiting to notified. -/
theorem getElem?_notifyOne_cases (pick i : Nat) (ts : List σ) :
    (C.notifyOne pick ts)[i]? = ts[i]? ∨
    ∃ s, ts[i]? = some s ∧ C.gate s = some .waiting ∧
      (C.notifyOne pick ts)[i]? = some (C.pass .notified s) := by
  rcases C.notifyOne_cases pick ts with ⟨s, hs, hgate, heq⟩ | heq
  · rw [heq]
    by_cases hi : pick = i
    · subst hi
      exact .inr ⟨s, hs, hgate, List.getElem?_set_self (List.getElem?_eq_some_iff.mp hs).1⟩
    · exact .inl (List.getElem?_set_ne hi)
  · exact .inl (by rw [heq])

theorem getElem?_notifyAll_cases (i : Nat) (ts : List σ) :
    (C.notifyAll ts)[i]? = ts[i]? ∨
    ∃ s, ts[i]? = some s ∧ C.gate s = some .waiting ∧
      (C.notifyAll ts)[i]? = some (C.pass .notified s) := by
  rw [notifyAll, List.getElem?_map]
  cases h : ts[i]? with
  | none => exact .inl rfl
  | some s =>
      by_cases hs : C.gate s = some .waiting
      · exact .inr ⟨s, rfl, hs, by simp [hs]⟩
      · exact .inl (by simp [hs])

/-- A thread that is not waiting sees nothing of a notification. -/
theorem getElem?_notifyOne (h : ts[i]? = some s) (hs : C.gate s ≠ some .waiting) :
    (C.notifyOne pick ts)[i]? = some s := by
  rcases C.getElem?_notifyOne_cases pick i ts with heq | ⟨t, ht, hgate, -⟩
  · rw [heq, h]
  · rw [h] at ht
    cases ht
    exact absurd hgate hs

theorem getElem?_notifyAll (h : ts[i]? = some s) (hs : C.gate s ≠ some .waiting) :
    (C.notifyAll ts)[i]? = some s := by
  rcases C.getElem?_notifyAll_cases i ts with heq | ⟨t, ht, hgate, -⟩
  · rw [heq, h]
  · rw [h] at ht
    cases ht
    exact absurd hgate hs

@[simp] theorem length_notifyOne (pick : Nat) (ts : List σ) :
    (C.notifyOne pick ts).length = ts.length := by
  rcases C.notifyOne_cases pick ts with ⟨s, -, -, heq⟩ | heq
  · rw [heq, List.length_set]
  · rw [heq]

@[simp] theorem length_notifyAll (ts : List σ) : (C.notifyAll ts).length = ts.length := by
  rw [notifyAll, List.length_map]

/-- Nobody waits un-notified behind `notify_all`. -/
theorem count_notifyAll (ts : List σ) : C.count .waiting (C.notifyAll ts) = 0 := by
  rw [count, List.countP_eq_zero]
  intro s hs
  obtain ⟨s, -, rfl⟩ := List.mem_map.mp hs
  by_cases hgate : C.gate s = some .waiting
  · simp [hgate, gate_notified hgate]
  · simp [hgate]

/-- `notify_one` adds to the un-notified threads at most by taking away. -/
theorem count_notifyOne_le (pick : Nat) (ts : List σ) :
    C.count .waiting (C.notifyOne pick ts) ≤ C.count .waiting ts := by
  rcases C.notifyOne_cases pick ts with ⟨s, hs, hgate, heq⟩ | heq
  · have hcount := C.count_set (u := C.pass .notified s) hs .waiting
    rw [heq]
    simp only [hgate, gate_notified hgate, if_true, Option.some.injEq, reduceCtorEq, if_false]
      at hcount
    omega
  · rw [heq]

theorem count_notifyOne_eq_zero (hzero : C.count .waiting ts = 0) (pick : Nat) :
    C.count .waiting (C.notifyOne pick ts) = 0 := by
  have hle := C.count_notifyOne_le pick ts
  omega

/-! ## Two lists of threads

Thread by thread in a relation that does not see the difference between them. -/

section Related

variable {R : σ → σ → Prop} {us : List σ}

theorem getElem?_of_forall₂ (h : List.Forall₂ R ts us) (hi : ts[i]? = some s) :
    ∃ u, us[i]? = some u ∧ R s u := by
  induction h generalizing i with
  | nil => simp at hi
  | cons hst _ ih =>
      cases i with
      | zero =>
          cases hi
          exact ⟨_, rfl, hst⟩
      | succ i => exact ih hi

theorem forall₂_set (h : List.Forall₂ R ts us) (hsu : R s u) (i : Nat) :
    List.Forall₂ R (ts.set i s) (us.set i u) := by
  induction h generalizing i with
  | nil => exact .nil
  | cons hst hrest ih =>
      cases i with
      | zero => exact .cons hsu hrest
      | succ i => exact .cons hst (ih i)

theorem forall₂_getElem?_none (h : List.Forall₂ R ts us) (hi : ts[i]? = none) :
    us[i]? = none := by
  rw [List.getElem?_eq_none_iff] at hi ⊢
  exact h.length_eq ▸ hi

variable (hgate : ∀ s u, R s u → C.gate s = C.gate u)

include hgate

theorem picks_of_forall₂ (h : List.Forall₂ R ts us) (hpick : C.Picks pick ts) :
    C.Picks pick us := by
  intro hw
  obtain ⟨u, hu, hwaiting⟩ := List.countP_pos_iff.mp hw
  obtain ⟨k, hk⟩ := List.mem_iff_getElem?.mp hu
  -- the one that waits there waits here
  have hflip : List.Forall₂ (flip R) us ts := h.flip
  obtain ⟨s, hs, hsu⟩ := getElem?_of_forall₂ hflip hk
  have hsome : 0 < C.count .waiting ts := by
    refine List.countP_pos_iff.mpr ⟨s, List.mem_of_getElem? hs, ?_⟩
    rw [hgate s u hsu]
    exact hwaiting
  obtain ⟨t, ht, htgate⟩ := hpick hsome
  obtain ⟨v, hv, htv⟩ := getElem?_of_forall₂ h ht
  exact ⟨v, hv, hgate t v htv ▸ htgate⟩

variable (hpass : ∀ s u, R s u → R (C.pass .notified s) (C.pass .notified u))

include hpass

theorem forall₂_notifyOne (h : List.Forall₂ R ts us) (pick : Nat) :
    List.Forall₂ R (C.notifyOne pick ts) (C.notifyOne pick us) := by
  unfold notifyOne
  cases hs : ts[pick]? with
  | none =>
      rw [forall₂_getElem?_none h hs]
      exact h
  | some s =>
      obtain ⟨u, hu, hsu⟩ := getElem?_of_forall₂ h hs
      simp only [hu, hgate s u hsu]
      split_ifs
      · exact forall₂_set h (hpass s u hsu) pick
      · exact h

theorem forall₂_notifyAll (h : List.Forall₂ R ts us) :
    List.Forall₂ R (C.notifyAll ts) (C.notifyAll us) := by
  simp only [notifyAll, List.forall₂_map_left_iff, List.forall₂_map_right_iff]
  refine h.imp fun s u hsu => ?_
  rw [hgate s u hsu]
  split_ifs
  · exact hpass s u hsu
  · exact hsu

end Related

/-! ## No lost wakeup -/

namespace Covered

theorem zero (ts : List σ) : C.Covered 0 ts := fun _ => Nat.zero_le _

theorem mono (h : C.Covered n ts) (hle : m ≤ n) : C.Covered m ts := fun hw => hle.trans (h hw)

/-- A further item, announced to one thread. -/
theorem notifyOne (h : C.Covered n ts) (hpick : C.Picks pick ts) :
    C.Covered (n + 1) (C.notifyOne pick ts) := by
  intro hw
  have hsome : 0 < C.count .waiting ts := hw.trans_le (count_notifyOne_le pick ts)
  obtain ⟨s, hs, hgate⟩ := hpick hsome
  have heq : C.notifyOne pick ts = ts.set pick (C.pass .notified s) := by
    simp [Condition.notifyOne, hs, hgate]
  have hcount := C.count_set (u := C.pass .notified s) hs .notified
  simp only [hgate, gate_notified hgate, if_true, Option.some.injEq, reduceCtorEq, if_false]
    at hcount
  have hn := h hsome
  rw [heq]
  omega

/-- A thread goes on and does not wait: at worst it was a notified one, and
takes an item. -/
theorem leave (h : C.Covered n ts) (hi : ts[i]? = some s) (hu : C.gate u ≠ some .waiting) :
    C.Covered (n - 1) (ts.set i u) := by
  intro hw
  have hwaiting := C.count_set (u := u) hi .waiting
  have hnotified := C.count_set (u := u) hi .notified
  rw [if_neg hu] at hwaiting
  have hn := h (by omega)
  split_ifs at hnotified <;> omega

/-- A thread that was not notified goes on and does not wait. -/
theorem bypass (h : C.Covered n ts) (hi : ts[i]? = some s) (hs : C.gate s ≠ some .notified)
    (hu : C.gate u ≠ some .waiting) : C.Covered n (ts.set i u) := by
  intro hw
  have hwaiting := C.count_set (u := u) hi .waiting
  have hnotified := C.count_set (u := u) hi .notified
  rw [if_neg hu] at hwaiting
  rw [if_neg hs] at hnotified
  have hn := h (by omega)
  omega

/-- New threads, not in `wait`. -/
theorem append (h : C.Covered n ts) (hs : ∀ s ∈ ts', C.gate s ≠ some .waiting) :
    C.Covered n (ts ++ ts') := by
  intro hw
  have hnone : C.count .waiting ts' = 0 := by
    rw [count, List.countP_eq_zero]
    intro s hmem
    simpa using hs s hmem
  rw [count_append, hnone, Nat.add_zero] at hw
  rw [count_append]
  exact (h hw).trans (Nat.le_add_right _ _)

/-- With something to be had, a thread in the monitor can go for it. -/
theorem exists_awake (h : C.Covered n ts) (hn : 0 < n) (hin : 0 < C.inside ts) :
    ∃ (i : Nat) (s : σ) (g : Gate), ts[i]? = some s ∧ C.gate s = some g ∧ g ≠ .waiting := by
  by_cases hw : 0 < C.count .waiting ts
  · obtain ⟨s, hmem, hgate⟩ := List.countP_pos_iff.mp (hn.trans_le (h hw))
    obtain ⟨i, hi⟩ := List.mem_iff_getElem?.mp hmem
    exact ⟨i, s, .notified, hi, by simpa using hgate, by simp⟩
  · obtain ⟨s, hmem, hgate⟩ := List.countP_pos_iff.mp hin
    obtain ⟨i, hi⟩ := List.mem_iff_getElem?.mp hmem
    obtain ⟨g, hg⟩ := Option.isSome_iff_exists.mp hgate
    refine ⟨i, s, g, hi, hg, ?_⟩
    rintro rfl
    exact hw (List.countP_pos_iff.mpr ⟨s, hmem, by simpa using hg⟩)

end Covered

end Condition

end Ham.Lib
