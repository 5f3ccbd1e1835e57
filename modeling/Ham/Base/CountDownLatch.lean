import Ham.Lib.Condition
import Ham.Lib.Run

/-!
# `CountDownLatch`

The latch under any number of threads in `wait` and in `countdown`. A step is a
mutex section, the test of `count_` that `countdown` makes behind its section,
or its `notify_all`.

`wait` blocks while `count_ > 0`, but `countdown` notifies only when its test
finds exactly `0`. A call that decrements a count of `0` before the test of the
one that brought it there takes away the only notification
(`late_countdown_strands`).
-/

namespace Ham

open Lib

/-- Where a call of `wait` stands. -/
inductive WaitStage where
  /-- At the mutex. -/
  | stands (gate : Gate)
  | returned
  deriving DecidableEq, Repr

/-- Where a call of `countdown` stands. -/
inductive CountdownStage where
  /-- At the mutex. -/
  | called
  /-- Behind its section, at `if(0 == count_)`. -/
  | decremented
  /-- At `notify_all`. -/
  | notifying
  | returned
  deriving DecidableEq, Repr

structure CountDownLatch where
  count_ : Int32
  waits : List WaitStage := []
  countdowns : List CountdownStage := []

inductive LatchFault where
  /-- `--count_` below the least `int`. -/
  | overflow
  deriving DecidableEq, Repr

inductive LatchLabel where
  /-- A new call of `wait`. -/
  | wait
  /-- A new call of `countdown`. -/
  | countdown
  /-- The section of `wait`, from its first line or from `cond_.wait`. -/
  | test (i : Nat)
  | wake (i : Nat)
  | decrement (j : Nat)
  | read (j : Nat)
  | notify (j : Nat)
  deriving DecidableEq, Repr

namespace CountDownLatch

/-- `cond_`, on which calls of `wait` wait. -/
def cond_ : Condition WaitStage where
  gate
    | .stands gate => some gate
    | .returned => none
  pass gate _ := .stands gate
  gate_pass := by simp

def new (count : Int32) : CountDownLatch where
  count_ := count

variable (s : CountDownLatch)

/-- `while(count_ > 0) cond_.wait(lock)`, up to the next time the mutex is free. -/
def test (i : Nat) : CountDownLatch :=
  { s with waits := s.waits.set i (if s.count_ > 0 then .stands .waiting else .returned) }

/-- The section of `countdown`. -/
def decrement (j : Nat) : Except LatchFault CountDownLatch :=
  if s.count_ = Int32.minValue then .error .overflow
  else .ok { s with
    count_ := s.count_ - 1
    countdowns := s.countdowns.set j .decremented }

/-- `if(0 == count_)`, without the mutex. -/
def read (j : Nat) : CountDownLatch :=
  { s with countdowns := s.countdowns.set j (if 0 = s.count_ then .notifying else .returned) }

def notify (j : Nat) : CountDownLatch :=
  { s with
    waits := cond_.notifyAll s.waits
    countdowns := s.countdowns.set j .returned }

def step : LatchLabel → Except LatchFault CountDownLatch
  | .wait => .ok { s with waits := s.waits ++ [.stands .entering] }
  | .countdown => .ok { s with countdowns := s.countdowns ++ [.called] }
  | .test i => .ok (s.test i)
  | .wake i => .ok { s with waits := s.waits.set i (.stands .woken) }
  | .decrement j => s.decrement j
  | .read j => .ok (s.read j)
  | .notify j => .ok (s.notify j)

def Enabled : LatchLabel → Prop
  | .wait | .countdown => True
  | .test i => ∃ t ∈ s.waits[i]?, (cond_.gate t).isSome ∧ cond_.gate t ≠ some .waiting
  | .wake i => s.waits[i]? = some (.stands .waiting)
  | .decrement j => s.countdowns[j]? = some .called
  | .read j => s.countdowns[j]? = some .decremented
  | .notify j => s.countdowns[j]? = some .notifying

instance (l : LatchLabel) : Decidable (s.Enabled l) :=
  match l with
  | .wait | .countdown => .isTrue trivial
  | .test i => inferInstanceAs (Decidable
      (∃ t ∈ s.waits[i]?, (cond_.gate t).isSome ∧ cond_.gate t ≠ some .waiting))
  | .wake i => inferInstanceAs (Decidable (s.waits[i]? = some (.stands .waiting)))
  | .decrement j => inferInstanceAs (Decidable (s.countdowns[j]? = some .called))
  | .read j => inferInstanceAs (Decidable (s.countdowns[j]? = some .decremented))
  | .notify j => inferInstanceAs (Decidable (s.countdowns[j]? = some .notifying))

end CountDownLatch

/-- The latch, with the calls of `wait` and `countdown` that come to it. -/
def countDownLatch : System CountDownLatch LatchLabel LatchFault where
  enabled := CountDownLatch.Enabled
  step := CountDownLatch.step

instance (s : CountDownLatch) (l : LatchLabel) : Decidable (countDownLatch.enabled s l) :=
  inferInstanceAs (Decidable (s.Enabled l))

namespace CountDownLatch

variable {s s' : CountDownLatch} {l : LatchLabel}

/-! ## What a step can do -/

/-- The steps of the latch, by the branches of `wait` and `countdown`. -/
inductive Moves (s : CountDownLatch) : LatchLabel → CountDownLatch → Prop
  | wait : Moves s .wait { s with waits := s.waits ++ [.stands .entering] }
  | countdown : Moves s .countdown { s with countdowns := s.countdowns ++ [.called] }
  | block {i : Nat} : 0 < s.count_ →
      Moves s (.test i) { s with waits := s.waits.set i (.stands .waiting) }
  | leave {i : Nat} {t : WaitStage} : s.waits[i]? = some t → t ≠ .stands .waiting →
      ¬ 0 < s.count_ → Moves s (.test i) { s with waits := s.waits.set i .returned }
  | wake {i : Nat} : Moves s (.wake i) { s with waits := s.waits.set i (.stands .woken) }
  | decrement {j : Nat} : s.countdowns[j]? = some .called → s.count_ ≠ Int32.minValue →
      Moves s (.decrement j) { s with
        count_ := s.count_ - 1
        countdowns := s.countdowns.set j .decremented }
  | readZero {j : Nat} : s.countdowns[j]? = some .decremented → s.count_ = 0 →
      Moves s (.read j) { s with countdowns := s.countdowns.set j .notifying }
  | readOther {j : Nat} : s.countdowns[j]? = some .decremented → s.count_ ≠ 0 →
      Moves s (.read j) { s with countdowns := s.countdowns.set j .returned }
  | notify {j : Nat} : s.countdowns[j]? = some .notifying →
      Moves s (.notify j) { s with
        waits := cond_.notifyAll s.waits
        countdowns := s.countdowns.set j .returned }

theorem moves_of_step (h : countDownLatch.Step s l s') : Moves s l s' := by
  obtain ⟨hen, hstep⟩ := h
  cases l with
  | wait =>
      cases hstep
      exact .wait
  | countdown =>
      cases hstep
      exact .countdown
  | test i =>
      obtain ⟨t, ht, -, hgate⟩ := hen
      cases hstep
      unfold test
      split_ifs with hcount
      · exact .block hcount
      · refine .leave ht ?_ hcount
        rintro rfl
        exact hgate rfl
  | wake i =>
      cases hstep
      exact .wake
  | decrement j =>
      simp only [countDownLatch, step, CountDownLatch.decrement] at hstep
      split_ifs at hstep with hmin
      cases hstep
      exact .decrement hen hmin
  | read j =>
      cases hstep
      unfold read
      split_ifs with hcount
      · exact .readZero hen hcount.symm
      · exact .readOther hen (Ne.symm hcount)
  | notify j =>
      cases hstep
      exact .notify hen

/-! ## Waiters and notifications -/

/-- Some thread is in `cond_.wait`, un-notified. -/
def Blocked (s : CountDownLatch) : Prop := .stands .waiting ∈ s.waits

instance (s : CountDownLatch) : Decidable s.Blocked :=
  inferInstanceAs (Decidable (.stands .waiting ∈ s.waits))

/-- The latch is open, nobody is left to notify, and a thread waits. -/
def Stranded (s : CountDownLatch) : Prop :=
  s.count_ ≤ 0 ∧ s.Blocked ∧ ∀ c ∈ s.countdowns, c = .returned

/-- No call decrements a count of `0` with a thread blocked, unless the test of
another call has been made. -/
def InTime (s : CountDownLatch) : LatchLabel → Prop
  | .decrement _ => s.count_ = 0 → s.Blocked → .notifying ∈ s.countdowns
  | _ => True

instance (s : CountDownLatch) (l : LatchLabel) : Decidable (InTime s l) :=
  match l with
  | .decrement _ => inferInstanceAs (Decidable
      (s.count_ = 0 → s.Blocked → .notifying ∈ s.countdowns))
  | .wait | .countdown | .test _ | .wake _ | .read _ | .notify _ => .isTrue trivial

/-- A blocked thread has its notification to come: the count is positive, some
call is at `notify_all`, or its test is going to find `0`. -/
def Awaited (s : CountDownLatch) : Prop :=
  s.Blocked → 0 < s.count_ ∨ .notifying ∈ s.countdowns ∨
    s.count_ = 0 ∧ .decremented ∈ s.countdowns

/-- A thread is blocked, and no test is going to find `0`. -/
def Lost (s : CountDownLatch) : Prop :=
  s.count_ < 0 ∧ s.Blocked ∧ .notifying ∉ s.countdowns

theorem not_blocked_notifyAll (ts : List WaitStage) :
    .stands .waiting ∉ cond_.notifyAll ts := by
  intro hmem
  have hnone := List.countP_eq_zero.mp (cond_.count_notifyAll ts) _ hmem
  exact hnone (by simp [cond_])

/-- No overflow above the least `int`. -/
theorem toInt_pred {c : Int32} (h : c ≠ Int32.minValue) : (c - 1).toInt = c.toInt - 1 := by
  have hmin : c.toInt ≠ -2 ^ 31 := fun heq => h (Int32.toInt_inj.mp heq)
  have hle := c.le_toInt
  have hlt := c.toInt_lt
  rw [Int32.toInt_sub, Int32.toInt_one]
  apply Int.bmod_eq_of_le
  · omega
  · omega

/-- A positive count does not skip `0`. -/
theorem pred_of_pos {c : Int32} (hmin : c ≠ Int32.minValue) (h : 0 < c) :
    c - 1 = 0 ∨ 0 < c - 1 := by
  have hpos := Int32.lt_iff_toInt_lt.mp h
  rw [← Int32.toInt_inj, Int32.lt_iff_toInt_lt, toInt_pred hmin]
  rw [Int32.toInt_zero] at *
  omega

/-- A count below `0` stays there. -/
theorem pred_of_neg {c : Int32} (hmin : c ≠ Int32.minValue) (h : c < 0) : c - 1 < 0 := by
  have hneg := Int32.lt_iff_toInt_lt.mp h
  rw [Int32.lt_iff_toInt_lt, toInt_pred hmin]
  rw [Int32.toInt_zero] at *
  omega

/-! ## Runs -/

theorem awaited_new (count : Int32) : Awaited (new count) :=
  fun hblocked => absurd hblocked List.not_mem_nil

theorem Awaited.step (h : Awaited s) (hm : Moves s l s') (hin : InTime s l) : Awaited s' := by
  intro hblocked
  cases hm with
  | wait =>
      have hmem : WaitStage.stands .waiting ∈ s.waits := by simpa [Blocked] using hblocked
      exact h hmem
  | countdown =>
      rcases h hblocked with hpos | hnotifying | ⟨hzero, hdecremented⟩
      · exact .inl hpos
      · exact .inr (.inl (List.mem_append_left _ hnotifying))
      · exact .inr (.inr ⟨hzero, List.mem_append_left _ hdecremented⟩)
  | block hcount => exact .inl hcount
  | leave ht hne hcount =>
      have hmem := (List.mem_or_eq_of_mem_set hblocked).resolve_right (by simp)
      exact h hmem
  | wake =>
      have hmem := (List.mem_or_eq_of_mem_set hblocked).resolve_right (by simp)
      exact h hmem
  | decrement hj hmin =>
      have hkeep : CountdownStage.notifying ∈ s.countdowns →
          CountdownStage.notifying ∈ s.countdowns.set _ .decremented :=
        fun hmem => Condition.mem_set_of_ne hmem hj (by simp)
      rcases h hblocked with hpos | hnotifying | ⟨hzero, -⟩
      · rcases pred_of_pos hmin hpos with hnext | hnext
        · exact .inr (.inr ⟨hnext, Condition.mem_set_self hj⟩)
        · exact .inl hnext
      · exact .inr (.inl (hkeep hnotifying))
      -- the test that was to find `0` does not, but another one has
      · exact .inr (.inl (hkeep (hin hzero hblocked)))
  | readZero hj hzero => exact .inr (.inl (Condition.mem_set_self hj))
  | readOther hj hne =>
      rcases h hblocked with hpos | hnotifying | ⟨hzero, -⟩
      · exact .inl hpos
      · exact .inr (.inl (Condition.mem_set_of_ne hnotifying hj (by simp)))
      · exact absurd hzero hne
  | notify hj => exact absurd hblocked (not_blocked_notifyAll s.waits)

theorem Awaited.not_stranded (h : Awaited s) : ¬ Stranded s := by
  rintro ⟨hcount, hblocked, hall⟩
  rcases h hblocked with hpos | hnotifying | ⟨-, hdecremented⟩
  · exact absurd hpos (Int32.not_lt.mpr hcount)
  · cases hall _ hnotifying
  · cases hall _ hdecremented

/-- A call that is not in time takes the notification away. -/
theorem lost_of_late (hm : Moves s l s') (hlate : ¬ InTime s l) : Lost s' := by
  cases hm with
  | decrement hj hmin =>
      simp only [InTime, Classical.not_imp] at hlate
      obtain ⟨hzero, hblocked, hnone⟩ := hlate
      refine ⟨?_, hblocked, fun hmem => ?_⟩
      · show s.count_ - 1 < 0
        rw [hzero]
        decide
      · exact hnone ((List.mem_or_eq_of_mem_set hmem).resolve_right (by simp))
  | _ => exact absurd trivial hlate

theorem Lost.step (h : Lost s) (hm : Moves s l s') (hwake : ∀ i, l ≠ .wake i) : Lost s' := by
  obtain ⟨hneg, hblocked, hnone⟩ := h
  cases hm with
  | wait => exact ⟨hneg, List.mem_append_left _ hblocked, hnone⟩
  | countdown => exact ⟨hneg, hblocked, by simpa using hnone⟩
  | block hcount => exact absurd hcount (Int32.not_lt.mpr (Int32.le_of_lt hneg))
  | leave ht hne hcount => exact ⟨hneg, Condition.mem_set_of_ne hblocked ht hne, hnone⟩
  | wake => exact absurd rfl (hwake _)
  | decrement hj hmin =>
      refine ⟨pred_of_neg hmin hneg, hblocked, fun hmem => hnone ?_⟩
      exact (List.mem_or_eq_of_mem_set hmem).resolve_right (by simp)
  | readZero hj hzero =>
      rw [hzero] at hneg
      exact absurd hneg (by decide)
  | readOther hj hne =>
      refine ⟨hneg, hblocked, fun hmem => hnone ?_⟩
      exact (List.mem_or_eq_of_mem_set hmem).resolve_right (by simp)
  | notify hj => exact absurd (List.mem_of_getElem? hj) hnone

/-- Where all calls of `countdown` have returned, a lost notification has left
a thread behind. -/
theorem Lost.stranded (h : Lost s) (hall : ∀ c ∈ s.countdowns, c = .returned) : Stranded s :=
  ⟨Int32.le_of_lt h.1, h.2.1, hall⟩

end CountDownLatch

open CountDownLatch

/-- In a run in which every `countdown` is in time, no waiter is stranded. In a
run without spurious wakeups in which one is not, there is a stranded waiter as
soon as all calls of `countdown` have returned. -/
theorem late_countdown_strands {count : Int32} {ls : List LatchLabel} {s : CountDownLatch}
    (hrun : countDownLatch.Run (new count) ls s) :
    ((countDownLatch.restrict InTime).Run (new count) ls s → ¬ Stranded s) ∧
    ((∀ i, .wake i ∉ ls) → (∀ c ∈ s.countdowns, c = .returned) →
      ((countDownLatch.restrict InTime).Run (new count) ls s ↔ ¬ Stranded s)) := by
  have hsafe : (countDownLatch.restrict InTime).Run (new count) ls s → ¬ Stranded s := by
    intro hall
    have hawaited : Awaited s := hall.invariant (awaited_new count) fun s l s' h hst => by
      obtain ⟨hst, hin⟩ := System.restrict_step.mp hst
      exact h.step (moves_of_step hst) hin
    exact hawaited.not_stranded
  refine ⟨hsafe, fun hwake hreturned => ⟨hsafe, fun hnot => ?_⟩⟩
  rcases hrun.restrict_or_first InTime with hall | ⟨pre, l, post, t, t', rfl, -, hst, hlate, hpost⟩
  · exact hall
  · have hquiet : (countDownLatch.restrict fun _ l => ∀ i, l ≠ .wake i).Run t' post s := by
      refine System.run_restrict_labels.mpr ⟨hpost, fun k hk i heq => hwake i ?_⟩
      rw [← heq]
      exact List.mem_append_right pre (List.mem_cons_of_mem l hk)
    have hlost : Lost s := hquiet.invariant (lost_of_late (moves_of_step hst) hlate)
      fun s l s' h hst => by
        obtain ⟨hst, hwake⟩ := System.restrict_step.mp hst
        exact h.step (moves_of_step hst) hwake
    exact absurd (hlost.stranded hreturned) hnot

/-- One waiter and two calls, the second of which decrements behind the test of
the first. -/
theorem late_countdown_strands_behind : ∃ ls s, countDownLatch.Run (new 1) ls s ∧
    s.count_ = -1 ∧ s.waits = [.returned] ∧ ¬ Stranded s := by
  let ls : List LatchLabel := [.wait, .test 0, .countdown, .countdown, .decrement 0, .read 0,
    .decrement 1, .read 1, .notify 0, .test 0]
  have hrun : ∃ s, (countDownLatch.restrict InTime).Run (new 1) ls s ∧ s.count_ = -1 ∧
      s.waits = [.returned] := ⟨_, .of_play rfl, rfl, rfl⟩
  obtain ⟨s, hrun, hcount, hwaits⟩ := hrun
  exact ⟨ls, s, hrun.of_restrict, hcount, hwaits, (late_countdown_strands hrun.of_restrict).1 hrun⟩

/-- One waiter and two calls on a latch of one: both decrement before either
makes its test, both find `-1`, and the waiter stays. -/
theorem countdowns_strand_waiter : ∃ ls s, countDownLatch.Run (new 1) ls s ∧ Stranded s := by
  refine ⟨[.wait, .test 0, .countdown, .countdown, .decrement 0, .decrement 1, .read 0, .read 1],
    _, .of_play rfl, ?_, ?_, ?_⟩
  · decide
  · decide
  · decide

end Ham
