import Ham.Base.ThreadPoolStop

/-!
# `stop`, and `stop` again

`stop` joins every element of `threads_`, whatever it has joined before: nothing
takes a thread out of `threads_`, and a call of `stop` does not look at
`isRunning_`. So the threads are joined once each as long as `stop` is not
called, also by the destructor of a pool that runs again, with a joined thread in
`threads_` (`stop_joins_once`); a call with one never returns, since its first
`join` throws.

What the calls of the owner do to the threads is kept in a `Roster`.
-/

namespace Ham.ThreadPool

open Lib

variable {q q' : ThreadPool} {l : PoolLabel} {ls : List PoolLabel}

/-- Which of the threads have been joined. -/
def joined (q : ThreadPool) : List Bool := q.threads_.map (·.joined)

theorem joined_getElem? (q : ThreadPool) (w : Nat) :
    q.joined[w]? = q.threads_[w]?.map (·.joined) := List.getElem?_map

@[simp] theorem length_joined (q : ThreadPool) : q.joined.length = q.threads_.length :=
  List.length_map _

theorem forall_mem_joined {b : Bool} :
    (∀ j ∈ q.joined, j = b) ↔ ∀ t ∈ q.threads_, t.joined = b := List.forall_mem_map

/-- The thread that a step joins, by where the owner stands. -/
def joinOf : OwnerStage → PoolLabel → Option Nat
  | .joining _ next, .join => some next
  | _, _ => none

theorem joinOf_eq_some {owner : OwnerStage} {w : Nat} (h : joinOf owner l = some w) :
    l = .join ∧ ∃ destructor, owner = .joining destructor w := by
  unfold joinOf at h
  split at h
  · cases h
    exact ⟨rfl, _, rfl⟩
  · cases h

/-- The threads that are joined in a run, in order. -/
def joins : ThreadPool → List PoolLabel → List Nat
  | _, [] => []
  | q, l :: ls => (joinOf q.owner l).toList ++
      match q.step l with
      | .ok q' => joins q' ls
      | .error _ => []

/-- `stop` is called, by the user or by the destructor, with no thread joined. -/
def StopsUnjoined (q : ThreadPool) : PoolLabel → Prop
  | .stop => ∀ t ∈ q.threads_, t.joined = false
  | .destroy => q.isRunning_ = true → ∀ t ∈ q.threads_, t.joined = false
  | _ => True

instance : (q : ThreadPool) → (l : PoolLabel) → Decidable (StopsUnjoined q l)
  | q, .stop => inferInstanceAs (Decidable (∀ t ∈ q.threads_, t.joined = false))
  | q, .destroy =>
      inferInstanceAs (Decidable (q.isRunning_ = true → ∀ t ∈ q.threads_, t.joined = false))
  | _, .start _ | _, .run _ | _, .enter _ | _, .finishCall _ _ | _, .enqueue _ _
  | _, .notify _ _ | _, .wakeCall _ | _, .init _ _ | _, .test _ | _, .take _ _ | _, .execute _
  | _, .finish _ _ | _, .wakeWorker _ | _, .stopSection | _, .join | _, .stopReturn =>
      inferInstanceAs (Decidable True)

/-- The threads that a call of `stop` is still to join have not been joined. -/
def LeftUnjoined (q : ThreadPool) : Prop :=
  match q.owner with
  | .stopping _ => ∀ t ∈ q.threads_, t.joined = false
  | .joining _ next => ∀ t ∈ q.threads_.drop next, t.joined = false
  | .idle | .gone => True

/-- `stop` has been called and has joined nothing: it comes to its loop, and there
the first `join` throws. -/
def Fatal (q : ThreadPool) : Prop :=
  ∃ destructor, q.owner = .stopping destructor ∨
    q.owner = .joining destructor 0 ∧ q.Enabled .join ∧ q.step .join = .error .systemError

/-! ## What the owner does to the threads -/

/-- `isRunning_`, the joined threads, and where the owner stands. -/
structure Roster where
  running : Bool
  joined : List Bool
  owner : OwnerStage

def roster (q : ThreadPool) : Roster := ⟨q.isRunning_, q.joined, q.owner⟩

/-- What a step does to the roster. -/
inductive Roster.Moves : Roster → PoolLabel → Roster → Prop
  | other {l : PoolLabel} (r : Roster) (hl : isOwner l = false) : Moves r l r
  | started (n : Nat) {joined : List Bool} :
      Moves ⟨true, joined, .idle⟩ (.start n) ⟨true, joined, .idle⟩
  | start (n : Nat) {joined : List Bool} :
      Moves ⟨false, joined, .idle⟩ (.start n) ⟨true, joined ++ List.replicate n false, .idle⟩
  | stop {running : Bool} {joined : List Bool} :
      Moves ⟨running, joined, .idle⟩ .stop ⟨running, joined, .stopping false⟩
  | stopSection (destructor : Bool) {running : Bool} {joined : List Bool} :
      Moves ⟨running, joined, .stopping destructor⟩ .stopSection
        ⟨false, joined, .joining destructor 0⟩
  | join (destructor : Bool) {next : Nat} {running : Bool} {joined : List Bool}
      (hnext : joined[next]? = some false) :
      Moves ⟨running, joined, .joining destructor next⟩ .join
        ⟨running, joined.set next true, .joining destructor (next + 1)⟩
  | stopReturn (destructor : Bool) {running : Bool} {joined : List Bool} :
      Moves ⟨running, joined, .joining destructor joined.length⟩ .stopReturn
        ⟨running, joined, if destructor then .gone else .idle⟩
  | destroy {joined : List Bool} :
      Moves ⟨true, joined, .idle⟩ .destroy ⟨true, joined, .stopping true⟩
  | destroyStopped {joined : List Bool} :
      Moves ⟨false, joined, .idle⟩ .destroy ⟨false, joined, .gone⟩

/-- Only the owner joins threads, or starts them. -/
theorem Moves.joined_eq (h : Moves q l q') (hl : isOwner l = false) : q'.joined = q.joined := by
  cases h with
  | start n hrunning => cases hl
  | stopSection destructor => cases hl
  | join destructor hnext hdone => cases hl
  | pushInside hi hgate hroom hpick => exact Condition.map_notifyOne (fun _ => rfl) _ _
  | notify hi hpick => exact Condition.map_notifyOne (fun _ => rfl) _ _
  | worker hw hmove hstop => exact Condition.map_set_same hw rfl
  | pop hw hgate hqueue hpick => exact Condition.map_set_same hw rfl
  | execute hw => exact Condition.map_set_same hw rfl
  | _ => rfl

theorem roster_of_not_owner (h : threadPool.Step q l q') (hl : isOwner l = false) :
    q'.roster = q.roster := by
  have hmoves := moves_of_step h
  have hstart : ∀ n, l ≠ .start n := by
    rintro n rfl
    cases hl
  have hsection : l ≠ .stopSection := by
    rintro rfl
    cases hl
  have hrunning : q'.isRunning_ = q.isRunning_ := by
    rw [Bool.eq_iff_iff, hmoves.isRunning hstart, and_iff_left hsection]
  rw [roster, roster, hrunning, hmoves.joined_eq hl, step_owner h hl]

theorem destroyMembers_ok (h : q.destroyMembers = .ok q') : q' = { q with owner := .gone } := by
  unfold destroyMembers at h
  split at h
  · exact (Except.ok.inj h).symm
  · cases h

theorem destroyMembers_of_joined (h : ∀ j ∈ q.joined, j = true) :
    q.destroyMembers = .ok { q with owner := .gone } :=
  if_pos (List.all_eq_true.mpr (forall_mem_joined.mp h))

/-- The roster, with the owner where it is. -/
theorem roster_eq {owner : OwnerStage} (h : q.owner = owner) :
    q.roster = ⟨q.isRunning_, q.joined, owner⟩ := by
  rw [roster, h]

theorem roster_step (h : threadPool.Step q l q') : Roster.Moves q.roster l q'.roster := by
  by_cases hl : isOwner l = false
  · rw [roster_of_not_owner h hl]
    exact .other q.roster hl
  · cases l with
    | start n =>
        obtain ⟨howner, hq⟩ := h
        cases hq
        cases hrunning : q.isRunning_ with
        | true =>
            have hsame : q.start n = q := if_pos hrunning
            rw [hsame, roster_eq howner, hrunning]
            exact .started n
        | false =>
            have hroster : (q.start n).roster =
                ⟨true, q.joined ++ List.replicate n false, q.owner⟩ := by
              simp [ThreadPool.start, roster, ThreadPool.joined, hrunning]
            rw [hroster, howner, roster_eq howner, hrunning]
            exact .start n
    | stop =>
        obtain ⟨howner, hq⟩ := h
        cases hq
        rw [roster_eq howner]
        exact .stop
    | stopSection =>
        obtain ⟨⟨destructor, howner⟩, hq⟩ := h
        have hq : q' = q.stopSection destructor := by
          simpa [threadPool, ThreadPool.step, howner] using hq.symm
        have hjoined : (q.stopSection destructor).joined = q.joined :=
          Condition.map_notifyAll (fun _ => rfl) _
        rw [hq, roster_eq howner, roster, hjoined]
        exact .stopSection destructor
    | join =>
        obtain ⟨⟨destructor, next, t, howner, hnext, -⟩, hq⟩ := h
        simp only [threadPool, ThreadPool.step, howner, ThreadPool.join, hnext] at hq
        split at hq
        · cases hq
        · -- a `join` that returns is one of a thread that has not been joined
          rename_i hjoined
          cases hq
          have hfalse : q.joined[next]? = some false := by
            rw [joined_getElem?, hnext]
            simpa using hjoined
          have hroster : ({ q with
              threads_ := q.threads_.set next { t with joined := true }
              owner := .joining destructor (next + 1) } : ThreadPool).roster =
              ⟨q.isRunning_, q.joined.set next true, .joining destructor (next + 1)⟩ := by
            simp [roster, joined, List.map_set]
          rw [hroster, roster_eq howner]
          exact .join destructor hfalse
    | stopReturn =>
        obtain ⟨⟨destructor, howner⟩, hq⟩ := h
        rw [roster_eq howner, ← length_joined]
        simp only [threadPool, ThreadPool.step, howner] at hq
        cases destructor with
        | true =>
            rw [destroyMembers_ok hq]
            exact .stopReturn true
        | false =>
            cases hq
            exact .stopReturn false
    | destroy =>
        obtain ⟨howner, hq⟩ := h
        simp only [threadPool, ThreadPool.step, ThreadPool.destroy] at hq
        rw [roster_eq howner]
        cases hrunning : q.isRunning_ with
        | true =>
            rw [if_pos hrunning] at hq
            cases hq
            rw [roster, hrunning]
            exact .destroy
        | false =>
            rw [if_neg (by simp [hrunning])] at hq
            rw [destroyMembers_ok hq, roster, hrunning]
            exact .destroyStopped
    | _ => exact absurd rfl hl

/-! ## No thread is joined twice -/

namespace Roster

variable {r r' : Roster}

/-- What `stop` is still to join has not been joined. -/
def LeftUnjoined (r : Roster) : Prop :=
  match r.owner with
  | .stopping _ => ∀ j ∈ r.joined, j = false
  | .joining _ next => ∀ j ∈ r.joined.drop next, j = false
  | .idle | .gone => True

def StopsUnjoined (r : Roster) : PoolLabel → Prop
  | .stop => ∀ j ∈ r.joined, j = false
  | .destroy => r.running = true → ∀ j ∈ r.joined, j = false
  | _ => True

theorem stopsUnjoined_of_not_owner (r : Roster) (hl : isOwner l = false) : r.StopsUnjoined l := by
  cases l with
  | stop => cases hl
  | destroy => cases hl
  | _ => trivial

/-- Where `stop` is called decides it, and the loop goes on so. -/
theorem Moves.leftUnjoined_iff (h : Moves r l r') (hr : r.LeftUnjoined) :
    r.StopsUnjoined l ↔ r'.LeftUnjoined := by
  cases h with
  | other r hl => exact iff_of_true (r.stopsUnjoined_of_not_owner hl) hr
  | started n => exact iff_of_true trivial trivial
  | start n => exact iff_of_true trivial trivial
  | stop => exact Iff.rfl
  | stopSection destructor => exact iff_of_true trivial hr
  | @join destructor next running joined hnext =>
      refine iff_of_true trivial fun j hj => hr j ?_
      rw [List.drop_set_of_lt (Nat.lt_succ_self next)] at hj
      exact List.drop_subset_drop_left joined (Nat.le_succ next) hj
  | stopReturn destructor => exact iff_of_true trivial (by cases destructor <;> trivial)
  | destroy => exact forall_prop_of_true rfl
  | destroyStopped => exact iff_of_true (fun h => absurd h (by simp)) trivial

/-- With every call of `stop` on unjoined threads: `stop` joins them in order, and
in between they all are. -/
def Accounted (r : Roster) : Prop :=
  match r.owner with
  | .idle => r.running = false → ∀ j ∈ r.joined, j = true
  | .stopping _ => ∀ j ∈ r.joined, j = false
  | .joining _ next => r.running = false ∧
      ∃ n, r.joined = List.replicate next true ++ List.replicate n false
  | .gone => ∀ j ∈ r.joined, j = true

theorem Accounted.all_joined (h : r.Accounted) {destructor : Bool}
    (howner : r.owner = .joining destructor r.joined.length) : ∀ j ∈ r.joined, j = true := by
  unfold Accounted at h
  rw [howner] at h
  obtain ⟨-, n, hjoined⟩ := h
  have hn : n = 0 := by simpa using congrArg List.length hjoined
  rw [hn, List.replicate_zero, List.append_nil] at hjoined
  exact (List.eq_replicate_iff.mp hjoined).2

/-- One more thread is joined. -/
theorem set_next (next n : Nat) :
    (List.replicate next true ++ List.replicate (n + 1) false).set next true =
      List.replicate (next + 1) true ++ List.replicate n false := by
  rw [List.set_append_right next true (by simp), List.length_replicate, Nat.sub_self,
    List.replicate_succ, List.set_cons_zero, List.replicate_succ', List.append_assoc]
  rfl

theorem Moves.accounted (h : Moves r l r') (hl : r.StopsUnjoined l) (hr : r.Accounted) :
    r'.Accounted := by
  cases h with
  | other r hl => exact hr
  | started n => exact hr
  | start n => exact fun h => absurd h (by simp)
  | stop => exact hl
  | @stopSection destructor running joined =>
      exact ⟨rfl, joined.length, List.eq_replicate_iff.mpr ⟨rfl, hr⟩⟩
  | @join destructor next running joined hnext =>
      obtain ⟨hstopped, n, rfl⟩ := hr
      cases n with
      | zero => simp at hnext
      | succ n => exact ⟨hstopped, n, set_next next n⟩
  | @stopReturn destructor running joined =>
      have hall : ∀ j ∈ joined, j = true := hr.all_joined rfl
      cases destructor with
      | true => exact hall
      | false => exact fun _ => hall
  | destroy => exact hl rfl
  | destroyStopped => exact hr rfl

/-- In every run the joined threads are the first ones: `stop` is behind them, or
at the beginning. -/
def Lined (r : Roster) : Prop :=
  ∃ done n, r.joined = List.replicate done true ++ List.replicate n false ∧
    ∀ destructor next, r.owner = .joining destructor next → next = done ∨ next = 0

/-- The thread of a `join` that returns is the one behind them. -/
theorem next_eq_done {done n next : Nat} (hnext : next = done ∨ next = 0)
    (hfalse : (List.replicate done true ++ List.replicate n false)[next]? = some false) :
    next = done := by
  rcases hnext with heq | rfl
  · exact heq
  · cases done with
    | zero => rfl
    | succ done => simp [List.replicate_succ] at hfalse

theorem Moves.lined (h : Moves r l r') (hr : r.Lined) : r'.Lined := by
  obtain ⟨done, n, hjoined, hnext⟩ := hr
  cases h with
  | other r hl => exact ⟨done, n, hjoined, hnext⟩
  | started k => exact ⟨done, n, hjoined, hnext⟩
  | start k =>
      refine ⟨done, n + k, ?_, by simp⟩
      obtain rfl := hjoined
      rw [List.append_assoc, List.replicate_append_replicate]
  | stop => exact ⟨done, n, hjoined, by simp⟩
  | stopSection destructor =>
      refine ⟨done, n, hjoined, ?_⟩
      rintro _ _ ⟨⟩
      exact .inr rfl
  | @join destructor next running joined hfalse =>
      obtain rfl := hjoined
      obtain rfl := next_eq_done (hnext destructor next rfl) hfalse
      cases n with
      | zero => simp at hfalse
      | succ n =>
          refine ⟨next + 1, n, set_next next n, ?_⟩
          rintro _ _ ⟨⟩
          exact .inl rfl
  | stopReturn destructor => exact ⟨done, n, hjoined, by cases destructor <;> simp⟩
  | destroy => exact ⟨done, n, hjoined, by simp⟩
  | destroyStopped => exact ⟨done, n, hjoined, by simp⟩

/-- A call of `stop` with a joined thread before it stays so. -/
theorem Moves.not_leftUnjoined (h : Moves r l r') (hlined : r.Lined) (hr : ¬ r.LeftUnjoined) :
    ¬ r'.LeftUnjoined := by
  cases h with
  | other r hl => exact hr
  | started n => exact absurd trivial hr
  | start n => exact absurd trivial hr
  | stop => exact absurd trivial hr
  | stopSection destructor => exact hr
  | @join destructor next running joined hfalse =>
      -- there is nothing joined behind the thread
      obtain ⟨done, n, hjoined, hnext⟩ := hlined
      obtain rfl := hjoined
      obtain rfl := next_eq_done (hnext destructor next rfl) hfalse
      exact absurd (by simp [LeftUnjoined]) hr
  | stopReturn destructor => exact absurd (by simp [LeftUnjoined]) hr
  | destroy => exact absurd trivial hr
  | destroyStopped => exact absurd trivial hr

/-! ## Every thread once -/

/-- How often a thread has been joined. -/
def timesJoined (r : Roster) (w : Nat) : Nat := if r.joined[w]? = some true then 1 else 0

theorem joinOf_of_not_owner (owner : OwnerStage) (hl : isOwner l = false) :
    joinOf owner l = none := by
  cases l with
  | join => cases hl
  | _ => cases owner <;> rfl

theorem Moves.timesJoined (h : Moves r l r') (w : Nat) :
    (joinOf r.owner l).toList.count w + r.timesJoined w = r'.timesJoined w := by
  cases h with
  | other r hl =>
      rw [joinOf_of_not_owner r.owner hl]
      exact Nat.zero_add _
  | @start n joined =>
      -- the new threads have not been joined
      have hnew : (joined ++ List.replicate n false)[w]? = some true ↔ joined[w]? = some true := by
        rcases Nat.lt_or_ge w joined.length with hlt | hge
        · rw [List.getElem?_append_left hlt]
        · simp [List.getElem?_append_right hge, List.getElem?_replicate, hge]
      simp only [joinOf, Roster.timesJoined, hnew, Option.toList_none, List.count_nil, Nat.zero_add]
  | @join destructor next running joined hnext =>
      show [next].count w + (if joined[w]? = some true then 1 else 0) =
        if (joined.set next true)[w]? = some true then 1 else 0
      by_cases hw : next = w
      · subst hw
        have hlt := (List.getElem?_eq_some_iff.mp hnext).1
        simp [hnext, List.getElem?_set_self hlt]
      · simp [List.getElem?_set_ne hw, hw]
  | _ => exact Nat.zero_add _

/-- A thread never leaves `threads_`. -/
theorem Moves.length_le (h : Moves r l r') : r.joined.length ≤ r'.joined.length := by
  cases h with
  | start n => simp
  | join destructor hnext => simp
  | _ => exact Nat.le_refl _

end Roster

theorem leftUnjoined_roster : q.roster.LeftUnjoined ↔ LeftUnjoined q := by
  unfold Roster.LeftUnjoined LeftUnjoined
  simp only [roster]
  split
  · exact forall_mem_joined
  · rw [joined, ← List.map_drop]
    exact List.forall_mem_map
  all_goals exact Iff.rfl

theorem stopsUnjoined_roster : q.roster.StopsUnjoined l ↔ StopsUnjoined q l := by
  cases l with
  | stop => exact forall_mem_joined
  | destroy => exact imp_congr Iff.rfl forall_mem_joined
  | _ => exact Iff.rfl

/-! ## Over a whole run -/

theorem count_joins (hrun : threadPool.Run q ls q') (w : Nat) :
    (joins q ls).count w + q.roster.timesJoined w = q'.roster.timesJoined w := by
  induction hrun with
  | nil => exact Nat.zero_add _
  | @cons q q₁ q' l ls hstep _ ih =>
      have hjoins : joins q (l :: ls) = (joinOf q.owner l).toList ++ joins q₁ ls := by
        have hq : q.step l = .ok q₁ := hstep.2
        rw [joins, hq]
      have hone : (joinOf q.owner l).toList.count w + q.roster.timesJoined w =
          q₁.roster.timesJoined w := (roster_step hstep).timesJoined w
      rw [hjoins, List.count_append, ← ih, ← hone]
      omega

theorem run_length_le (hrun : threadPool.Run q ls q') :
    q.threads_.length ≤ q'.threads_.length := by
  have hkeep := hrun.invariant (I := fun q₁ => q.threads_.length ≤ q₁.threads_.length)
    (Nat.le_refl _) fun q₁ l q₂ h hstep => by
      have hle := (roster_step hstep).length_le
      simp only [roster, length_joined] at hle
      exact h.trans hle
  exact hkeep

/-- The threads that have been joined are done. -/
def JoinedDone (q : ThreadPool) : Prop :=
  ∀ w : Nat, q.joined[w]? = some true → ∃ t, q.threads_[w]? = some t ∧ t.stage = .done

theorem JoinedDone.step (h : JoinedDone q) (hstep : threadPool.Step q l q') : JoinedDone q' := by
  intro w hw
  refine (moves_of_step hstep).done ?_
  by_cases hbefore : q.joined[w]? = some true
  · exact h w hbefore
  · -- it has been joined in this step
    have hone : (joinOf q.owner l).toList.count w + q.roster.timesJoined w =
        q'.roster.timesJoined w := (roster_step hstep).timesJoined w
    have hzero : q.roster.timesJoined w = 0 := if_neg hbefore
    have htimes : q'.roster.timesJoined w = 1 := if_pos hw
    have hmem : w ∈ (joinOf q.owner l).toList := List.count_pos_iff.mp (by omega)
    obtain ⟨rfl, destructor, howner⟩ := joinOf_eq_some (Option.mem_toList.mp hmem)
    obtain ⟨_, _, t, howner', hnext, hdone⟩ := hstep.1
    cases howner.symm.trans howner'
    exact ⟨t, hnext, hdone⟩

theorem accounted_run {m : Nat} {cb : Bool}
    (hrun : (threadPool.restrict StopsUnjoined).Run (new m cb) ls q) : q.roster.Accounted := by
  refine hrun.invariant (I := fun q => q.roster.Accounted) ?_ fun q l q' h hstep => ?_
  · exact fun _ _ hj => absurd hj List.not_mem_nil
  · obtain ⟨hstep, hl⟩ := System.restrict_step.mp hstep
    exact (roster_step hstep).accounted (stopsUnjoined_roster.mpr hl) h

theorem lined_run {m : Nat} {cb : Bool} (hrun : threadPool.Run (new m cb) ls q) :
    q.roster.Lined :=
  hrun.invariant (I := fun q => q.roster.Lined) ⟨0, 0, rfl, by simp [roster, new]⟩
    fun _ _ _ h hstep => (roster_step hstep).lined h

theorem joinedDone_run {m : Nat} {cb : Bool} (hrun : threadPool.Run (new m cb) ls q) :
    JoinedDone q :=
  hrun.invariant (I := JoinedDone) (fun _ hw => by cases hw)
    fun _ _ _ h hstep => h.step hstep

/-- `stop` has been called with a joined thread, so its first `join` throws. -/
theorem fatal_of_joined (hlined : q.roster.Lined) (hdone : JoinedDone q)
    (h : ¬ LeftUnjoined q) : Fatal q := by
  obtain ⟨done, n, hjoined, hnext⟩ := hlined
  unfold LeftUnjoined at h
  split at h
  · rename_i destructor howner
    exact ⟨destructor, .inl howner⟩
  · rename_i destructor next howner
    have hjoined : q.joined = List.replicate done true ++ List.replicate n false := hjoined
    have hdrop : ¬ ∀ j ∈ q.joined.drop next, j = false := by
      rw [joined, ← List.map_drop, List.forall_mem_map]
      exact h
    rw [hjoined] at hdrop
    -- a thread in front of the loop would be among the joined ones
    obtain ⟨k, rfl, rfl⟩ : ∃ k, next = 0 ∧ done = k + 1 := by
      rcases hnext destructor next howner with rfl | rfl
      · exact absurd (by simp) hdrop
      · cases done with
        | zero => exact absurd (by simp) hdrop
        | succ k => exact ⟨k, rfl, rfl⟩
    have hfirst : q.joined[0]? = some true := by simp [hjoined, List.replicate_succ]
    obtain ⟨t, ht, hstage⟩ := hdone 0 hfirst
    have htjoined : t.joined = true := by simpa [joined_getElem?, ht] using hfirst
    refine ⟨destructor, .inr ⟨howner, ⟨destructor, 0, t, howner, ht, hstage⟩, ?_⟩⟩
    simp [ThreadPool.step, howner, ThreadPool.join, ht, htjoined]
  · exact absurd trivial h
  · exact absurd trivial h

theorem run_fatal {m : Nat} {cb : Bool} (hrun : threadPool.Run (new m cb) ls q)
    (h : ¬ LeftUnjoined q) {ls' : List PoolLabel} (hrun' : threadPool.Run q ls' q') : Fatal q' := by
  have hkeep := hrun'.invariant (I := fun q => q.roster.Lined ∧ ¬ q.roster.LeftUnjoined)
    ⟨lined_run hrun, leftUnjoined_roster.not.mpr h⟩ fun q l q' h hstep => by
      have hmoves := roster_step hstep
      exact ⟨hmoves.lined h.1, hmoves.not_leftUnjoined h.1 h.2⟩
  exact fatal_of_joined hkeep.1 (joinedDone_run (hrun.append hrun'))
    (leftUnjoined_roster.not.mp hkeep.2)

/-- A step faults only in a `join`, or when the members are destroyed. -/
theorem Roster.Accounted.step_ok (h : q.roster.Accounted) (hen : q.Enabled l) :
    ∃ q', q.step l = .ok q' := by
  cases l with
  | stopSection =>
      obtain ⟨destructor, howner⟩ := hen
      exact ⟨q.stopSection destructor, by simp [ThreadPool.step, howner]⟩
  | join =>
      obtain ⟨destructor, next, t, howner, hnext, -⟩ := hen
      rw [roster_eq howner] at h
      obtain ⟨-, n, hjoined⟩ : _ ∧ ∃ n, q.joined = _ := h
      obtain ⟨-, ht⟩ : 0 < n ∧ t.joined = false := by
        have hvalue := joined_getElem? q next
        rw [hjoined, hnext, List.getElem?_append_right (by simp)] at hvalue
        simpa [List.getElem?_replicate] using hvalue.symm
      exact ⟨_, by simp only [ThreadPool.step, howner, ThreadPool.join, hnext, ht]; rfl⟩
  | stopReturn =>
      obtain ⟨destructor, howner⟩ := hen
      rw [← length_joined] at howner
      simp only [ThreadPool.step, howner]
      cases destructor with
      | true => exact ⟨_, destroyMembers_of_joined (h.all_joined howner)⟩
      | false => exact ⟨_, rfl⟩
  | destroy =>
      have howner : q.owner = .idle := hen
      rw [roster_eq howner] at h
      simp only [ThreadPool.step, ThreadPool.destroy]
      split
      · exact ⟨_, rfl⟩
      · rename_i hrunning
        exact ⟨_, destroyMembers_of_joined (h (by simpa using hrunning))⟩
  | _ => exact ⟨_, rfl⟩

end Ham.ThreadPool

namespace Ham

open Lib ThreadPool

/-- In a run, `stop` has only unjoined threads before it in every state if and only
if it is called so each time; a call with a joined thread does not return, and its
first `join` throws. In a run without one no call throws, and behind the destructor
every thread that there has been on the way has been joined once. -/
theorem stop_joins_once {m : Nat} {cb : Bool} {ls : List PoolLabel} {q : ThreadPool}
    (hrun : threadPool.Run (new m cb) ls q) :
    ((threadPool.restrict StopsUnjoined).Run (new m cb) ls q ↔
      ∀ pre post t, ls = pre ++ post → threadPool.Run (new m cb) pre t → LeftUnjoined t) ∧
    (¬ LeftUnjoined q → ∀ ls' q', threadPool.Run q ls' q' → Fatal q') ∧
    ((threadPool.restrict StopsUnjoined).Run (new m cb) ls q →
      (∀ l, q.Enabled l → ∃ q', q.step l = .ok q') ∧
      (q.owner = .gone → ∀ pre post t, ls = pre ++ post → threadPool.Run (new m cb) pre t →
        ∀ w < t.threads_.length, (joins (new m cb) ls).count w = 1)) := by
  refine ⟨?_, fun h _ _ hrun' => run_fatal hrun h hrun', fun hmeets => ⟨?_, ?_⟩⟩
  · refine hrun.restrict_iff (I := fun _ => True) trivial trivial (fun _ _ _ _ _ => trivial) ?_
    intro q l q' _ hq hstep
    rw [← stopsUnjoined_roster, ← leftUnjoined_roster]
    exact (roster_step hstep).leftUnjoined_iff (leftUnjoined_roster.mpr hq)
  · intro l hen
    exact (accounted_run hmeets).step_ok hen
  · rintro hgone pre post t rfl hpre w hw
    -- the thread is still there, and joined
    obtain ⟨t', hpre', hpost⟩ := hrun.split
    cases hpre.unique hpre'
    have hall : ∀ j ∈ q.joined, j = true := by
      have haccounted := accounted_run hmeets
      rw [roster_eq hgone] at haccounted
      exact haccounted
    have hlt : w < q.joined.length := by
      rw [length_joined]
      exact Nat.lt_of_lt_of_le hw (run_length_le hpost)
    have hjoined : q.joined[w]? = some true := by
      rw [List.getElem?_eq_getElem hlt, hall _ (List.getElem_mem hlt)]
    have hcount := count_joins hrun w
    have hnew : (new m cb).roster.timesJoined w = 0 := rfl
    have htimes : q.roster.timesJoined w = 1 := if_pos hjoined
    omega

/-- A pool of one worker that is started and destroyed. -/
theorem stop_joins_once_destroy : ∃ ls q, threadPool.Run (new 0 false) ls q ∧
    q.owner = .gone ∧ q.threads_.length = 1 ∧ (joins (new 0 false) ls).count 0 = 1 := by
  let ls : List PoolLabel := [.start 1, .init 0 false, .destroy, .stopSection, .test 0, .join,
    .stopReturn]
  have hrun : ∃ q, (threadPool.restrict StopsUnjoined).Run (new 0 false) ls q ∧
      q.owner = .gone ∧ q.threads_.length = 1 := ⟨_, .of_play rfl, rfl, rfl⟩
  obtain ⟨q, hmeets, hgone, hlength⟩ := hrun
  have hrun := hmeets.of_restrict
  have hone := ((stop_joins_once hrun).2.2 hmeets).2 hgone ls [] q (List.append_nil ls).symm hrun
  exact ⟨ls, q, hrun, hgone, hlength, hone 0 (by rw [hlength]; decide)⟩

/-- `start(1)`, and `stop` twice: the second call joins the thread again, and
`join` throws. -/
theorem stop_rejoins : ∃ ls q, threadPool.Run (new 0 false) ls q ∧
    joins (new 0 false) ls = [0] ∧ q.Enabled .join ∧ q.step .join = .error .systemError := by
  refine ⟨[.start 1, .init 0 false, .stop, .stopSection, .test 0, .join, .stopReturn, .stop,
    .stopSection], _, .of_play rfl, rfl, ?_, rfl⟩
  exact ⟨false, 0, _, rfl, rfl, rfl⟩

end Ham
