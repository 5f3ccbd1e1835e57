import Ham.Base.ThreadPoolAlike

/-!
# Notifications that come late

Nothing holds the `notify_one` of `run(Task&&)` to its section: other threads may
come in between. What they do then they could also have done with the
notification in time, and with any overloads (`overloadsFollow`): a worker that
is notified late has been awake before, or wakes up by itself.
-/

namespace Ham.ThreadPool

open Lib

variable {p p' q q' : ThreadPool} {l : PoolLabel} {i w pick task : Nat} {o : Overload}
  {os : List Overload}

/-- The call of the one pool, and its like with the notification behind it. -/
structure LateCall (c d : RunCall) : Prop where
  stage : d.stage = c.stage ∨ c.stage = .notifying ∧ d.stage = .returned
  calling : c.stage = .calling → c.overload = d.overload

/-- The worker, or one that is awake where it may wait. -/
def LateWorker (t u : Worker) : Prop :=
  t = u ∨ ∃ gate gate' joined, t = ⟨.stands gate, joined⟩ ∧ u = ⟨.stands gate', joined⟩ ∧
    gate' ≠ .waiting

/-- The pools differ in the overloads of their calls, and in notifications that
are still to come in the first. -/
def Trails (q p : ThreadPool) : Prop := Likes LateCall LateWorker q p

/-- The overload of a new call. -/
def newCall : PoolLabel → Option Overload
  | .run overload => some overload
  | _ => none

/-- The second pool gets, in turns and with these overloads for its new calls, to
where the first is. -/
def Follows (p q : ThreadPool) (os : List Overload) : Prop :=
  ∃ ks p', turns.Run p ks p' ∧ ks.filterMap newCall = os ∧ Trails q p'

theorem Trails.follows (h : Trails q p) : Follows p q [] := ⟨[], p, .nil p, rfl, h⟩

theorem Trails.follows_turn (h : Trails q' p') (hturn : turns.Step p l p') :
    Follows p q' (newCall l).toList := by
  refine ⟨[l], p', .cons hturn (.nil p'), ?_, h⟩
  cases hl : newCall l <;> simp [hl]

/-! ## Calls and workers -/

/-- Calls that go on to the same place. -/
theorem LateCall.go {stage : RunStage} (hstage : stage ≠ .calling) (c d : RunCall) :
    LateCall { c with stage := stage } { d with stage := stage } :=
  ⟨.inl rfl, fun heq => absurd heq hstage⟩

theorem LateWorker.refl (t : Worker) : LateWorker t t := .inl rfl

/-- A worker that waits does so in the second pool, or is awake there. -/
theorem LateWorker.waits {joined : Bool} {u : Worker}
    (h : LateWorker ⟨.stands .waiting, joined⟩ u) :
    u = ⟨.stands .waiting, joined⟩ ∨ ∀ gate, LateWorker ⟨.stands gate, joined⟩ u := by
  rcases h with rfl | ⟨_, gate', _, heq, rfl, hgate'⟩
  · exact .inl rfl
  · cases heq
    exact .inr fun gate => .inr ⟨gate, gate', _, rfl, rfl, hgate'⟩

theorem lateLikeness : Likeness LateCall LateWorker where
  call := fun _ => ⟨.inl rfl, fun _ => rfl⟩
  worker := .refl
  stage := fun _ _ h hstage => h.stage.resolve_right fun hnotifying => hstage hnotifying.1
  gate := by
    intro c d h
    rcases h.stage with hd | ⟨hc, hd⟩
    · simp only [notFull_, hd]
    · simp only [notFull_, hc, hd]
  go := fun c d _ hstage => .go hstage c d
  calling := fun _ _ h => h.calling
  outside := by
    rintro t u (rfl | ⟨gate, gate', joined, rfl, rfl, -⟩) ht
    · rfl
    · cases ht
  joined := by
    rintro t u (rfl | ⟨gate, gate', joined, rfl, rfl, -⟩)
    · rfl
    · rfl
  awake := by
    rintro gate joined u (rfl | ⟨_, gate', _, heq, rfl, hgate'⟩) hgate
    · exact ⟨gate, rfl, hgate⟩
    · cases heq
      exact ⟨gate', rfl, hgate'⟩
  notified := by
    rintro t u (rfl | ⟨gate, gate', joined, rfl, rfl, hgate'⟩)
    · exact .refl _
    · have hu : notEmpty_.gate ⟨.stands gate', joined⟩ ≠ some .waiting := by simpa [notEmpty_]
      rw [if_neg hu]
      split
      · exact .inr ⟨_, gate', joined, rfl, rfl, hgate'⟩
      · exact .inr ⟨_, gate', joined, rfl, rfl, hgate'⟩

theorem Alike.trails (h : Alike q p) : Trails q p := by
  obtain ⟨calls, threads, rfl, hcalls, hworkers⟩ := h
  exact ⟨calls, threads, rfl, hcalls.imp fun _ _ h => ⟨.inl h.stage, h.calling⟩,
    hworkers.imp fun _ _ h => .inl h⟩

/-! ## Two lists of workers -/

section

variable {ts us : List Worker} {t u : Worker}

/-- One worker goes on in the first pool alone. -/
theorem late_set_left (h : List.Forall₂ LateWorker ts us) (hu : us[w]? = some u)
    (htu : LateWorker t u) : List.Forall₂ LateWorker (ts.set w t) us := by
  obtain ⟨hlt, hget⟩ := List.getElem?_eq_some_iff.mp hu
  have hset := Condition.forall₂_set h htu w
  rwa [← hget, List.set_getElem_self] at hset

/-- A worker wakes up in the second pool alone, -/
theorem late_wake (h : List.Forall₂ LateWorker ts us) {gate : Gate} {joined : Bool}
    (hu : us[w]? = some ⟨.stands .waiting, joined⟩) (hgate : gate ≠ .waiting) :
    List.Forall₂ LateWorker ts (us.set w ⟨.stands gate, joined⟩) := by
  obtain ⟨t, ht, htu⟩ := Condition.getElem?_of_forall₂ (R := flip LateWorker) h.flip hu
  have hwaits : t = ⟨.stands .waiting, joined⟩ := by
    rcases htu with rfl | ⟨_, gate', _, -, heq, hgate'⟩
    · rfl
    · cases heq
      exact absurd rfl hgate'
  subst hwaits
  have hset := Condition.forall₂_set h (s := ⟨.stands .waiting, joined⟩)
    (u := ⟨.stands gate, joined⟩) (.inr ⟨_, gate, _, rfl, rfl, hgate⟩) w
  obtain ⟨hlt, hget⟩ := List.getElem?_eq_some_iff.mp ht
  rwa [← hget, List.set_getElem_self] at hset

/-- notified or not. -/
theorem late_notifyOne_right (h : List.Forall₂ LateWorker ts us) (pick : Nat) :
    List.Forall₂ LateWorker ts (notEmpty_.notifyOne pick us) := by
  unfold Condition.notifyOne
  cases hu : us[pick]? with
  | none => exact h
  | some u =>
      obtain ⟨stage, joined⟩ := u
      simp only
      split
      · rename_i hgate
        cases stage <;> cases hgate
        exact late_wake h hu (by simp)
      · exact h

/-- A notification in the first pool, of a worker that is awake in the second. -/
theorem late_notifyOne_left (h : List.Forall₂ LateWorker ts us)
    (hawake : ∀ u, us[pick]? = some u → notEmpty_.gate u ≠ some .waiting) :
    List.Forall₂ LateWorker (notEmpty_.notifyOne pick ts) us := by
  unfold Condition.notifyOne
  cases ht : ts[pick]? with
  | none => exact h
  | some t =>
      simp only
      split
      · rename_i hgate
        obtain ⟨u, hu, htu⟩ := Condition.getElem?_of_forall₂ h ht
        refine late_set_left h hu ?_
        rcases htu with rfl | ⟨gate, gate', joined, rfl, rfl, hgate'⟩
        · exact absurd hgate (hawake t hu)
        · exact .inr ⟨_, gate', joined, rfl, rfl, hgate'⟩
      · exact h

/-- The second pool can notify so that the worker is awake, if not another. -/
theorem exists_later_pick (pick : Nat) (us : List Worker) :
    ∃ pick', notEmpty_.Picks pick' us ∧
      ∀ u, (notEmpty_.notifyOne pick' us)[pick]? = some u → notEmpty_.gate u ≠ some .waiting := by
  by_cases hwaits : ∃ u, us[pick]? = some u ∧ notEmpty_.gate u = some .waiting
  · obtain ⟨u, hu, hgate⟩ := hwaits
    refine ⟨pick, fun _ => ⟨u, hu, hgate⟩, fun u' hu' => ?_⟩
    obtain ⟨hlt, -⟩ := List.getElem?_eq_some_iff.mp hu
    simp only [Condition.notifyOne, hu, hgate, if_true, List.getElem?_set_self hlt] at hu'
    cases hu'
    rw [notEmpty_.gate_pass u .notified (by simp [hgate])]
    simp
  · obtain ⟨pick', hpick⟩ := notEmpty_.exists_picks us
    refine ⟨pick', hpick, fun u hu hgate => hwaits ?_⟩
    unfold Condition.notifyOne at hu
    cases hv : us[pick']? with
    | none =>
        simp only [hv] at hu
        exact ⟨u, hu, hgate⟩
    | some v =>
        simp only [hv] at hu
        split at hu
        · rename_i hvgate
          by_cases heq : pick' = pick
          · subst heq
            exact ⟨v, hv, hvgate⟩
          · rw [List.getElem?_set_ne heq] at hu
            exact ⟨u, hu, hgate⟩
        · exact ⟨u, hu, hgate⟩

end

/-! ## Runs -/

/-- The section of `run`: the second pool notifies at once. -/
theorem Trails.enqueue (h : Trails q p) {overload overload' : Overload} {gate gate' : Gate}
    (hi' : p.calls[i]? = some ⟨overload', .stands gate'⟩) (hgate : gate' ≠ .waiting) :
    Follows p (q.enqueue i ⟨overload, .stands gate⟩ pick) [] := by
  obtain ⟨calls, threads, rfl, hcalls, hworkers⟩ := h
  obtain ⟨pick', hpick', hawake⟩ := exists_later_pick pick threads
  refine Trails.follows_turn (l := .enqueue i pick') ?_
    ⟨⟨⟨overload', gate', hi', hgate⟩, hpick'⟩, turn_enqueue hi' pick'⟩
  have hset : ∀ stage stage', LateCall ⟨overload, stage⟩ ⟨overload', stage'⟩ →
      List.Forall₂ LateCall (q.calls.set i ⟨overload, stage⟩) (calls.set i ⟨overload', stage'⟩) :=
    fun _ _ hlate => Condition.forall₂_set hcalls hlate i
  have hlater := late_notifyOne_right hworkers pick'
  unfold ThreadPool.enqueue handOver
  by_cases hfull : q.isFull = true ∧ q.isRunning_ = true
  · have hfull' : isFull { q with calls := calls, threads_ := threads } = true ∧
        q.isRunning_ = true := hfull
    simp only [if_pos hfull, if_pos hfull']
    exact ⟨_, _, rfl, hset _ _ ⟨.inl rfl, by simp⟩, hworkers⟩
  · have hfull' : ¬ (isFull { q with calls := calls, threads_ := threads } = true ∧
        q.isRunning_ = true) := hfull
    simp only [if_neg hfull, if_neg hfull']
    cases overload with
    | lvalue =>
        exact ⟨_, _, rfl, hset _ _ ⟨.inl rfl, by simp⟩, late_notifyOne_left hlater hawake⟩
    | rvalue => exact ⟨_, _, rfl, hset _ _ ⟨.inr ⟨rfl, rfl⟩, by simp⟩, hlater⟩

/-- The late notification: the worker is awake by now, or wakes up by itself. -/
theorem Trails.notify (h : Trails q p) {overload : Overload}
    (hi : q.calls[i]? = some ⟨overload, .notifying⟩) :
    Follows p (q.notify i ⟨overload, .notifying⟩ pick) [] := by
  obtain ⟨calls, threads, rfl, hcalls, hworkers⟩ := h
  obtain ⟨⟨overload', stage'⟩, hd, hlate⟩ := Condition.getElem?_of_forall₂ hcalls hi
  rcases hlate.stage with hstage | ⟨-, hstage⟩
  · -- it comes late in the second pool too
    have hstage : stage' = .notifying := hstage
    subst hstage
    obtain ⟨pick', hpick', hawake⟩ := exists_later_pick pick threads
    have hen : Enabled { q with calls := calls, threads_ := threads } (.notify i pick') :=
      ⟨⟨overload', hd⟩, hpick'⟩
    refine Trails.follows_turn ?_ (turns_step (by simp) hen (onCall_eq hd))
    exact ⟨_, _, rfl, Condition.forall₂_set hcalls (.go (by simp) _ _) i,
      late_notifyOne_left (late_notifyOne_right hworkers pick') hawake⟩
  · have hstage : stage' = .returned := hstage
    subst hstage
    have hreturned : List.Forall₂ LateCall (q.calls.set i ⟨overload, .returned⟩) calls := by
      obtain ⟨hlt, hget⟩ := List.getElem?_eq_some_iff.mp hd
      have hset := Condition.forall₂_set hcalls (s := ⟨overload, .returned⟩)
        (u := ⟨overload', .returned⟩) ⟨.inl rfl, by simp⟩ i
      rwa [← hget, List.set_getElem_self] at hset
    by_cases hwaits : ∃ joined, threads[pick]? = some ⟨.stands .waiting, joined⟩
    · obtain ⟨joined, hu⟩ := hwaits
      have hen : Enabled { q with calls := calls, threads_ := threads } (.wakeWorker pick) :=
        ⟨joined, hu⟩
      refine Trails.follows_turn ?_ (turns_step (by simp) hen (onWorker_eq hu))
      refine ⟨_, _, rfl, hreturned, late_notifyOne_left (late_wake hworkers hu (by simp)) ?_⟩
      intro u hu' hgate
      obtain ⟨hlt, -⟩ := List.getElem?_eq_some_iff.mp hu
      rw [List.getElem?_set_self hlt] at hu'
      cases hu'
      cases hgate
    · refine Trails.follows ⟨_, _, rfl, hreturned, late_notifyOne_left hworkers ?_⟩
      rintro ⟨stage, joined⟩ hu hgate
      cases stage <;> cases hgate
      exact hwaits ⟨joined, hu⟩

/-- Every step of the first pool is a turn of the second, or none. -/
theorem Trails.step (h : Trails q p) (hthreads : q.threads_ ≠ [])
    (hstep : threadPool.Step q l q') (o : Overload) :
    Follows p q' ((newCall l).map fun _ => o).toList := by
  obtain ⟨hen, hstep⟩ := hstep
  change q.Enabled l at hen
  change q.step l = .ok q' at hstep
  cases l with
  | run overload =>
      cases hstep
      obtain ⟨calls, threads, rfl, hcalls, hworkers⟩ := h
      refine Trails.follows_turn (l := .run o) ?_ (turns_step (by simp) hen rfl)
      exact ⟨_, _, rfl, List.rel_append hcalls (.cons ⟨.inl rfl, by simp⟩ .nil), hworkers⟩
  | enqueue i pick =>
      obtain ⟨⟨overload, gate, hi, hgate⟩, -⟩ := hen
      obtain ⟨overload', hi', -⟩ := h.findCall lateLikeness hi (by simp)
      rw [← onCall_ok hi hstep]
      exact h.enqueue hi' hgate
  | notify i pick =>
      obtain ⟨⟨overload, hi⟩, -⟩ := hen
      rw [← onCall_ok hi hstep]
      exact h.notify hi
  | wakeWorker w =>
      obtain ⟨joined, hw⟩ := hen
      rw [← onWorker_ok hw hstep]
      obtain ⟨u, hu, hlate⟩ := h.findWorker hw
      obtain ⟨calls, threads, rfl, hcalls, hworkers⟩ := h
      rcases hlate.waits with rfl | hawake
      · have hen : Enabled { q with calls := calls, threads_ := threads } (.wakeWorker w) :=
          ⟨joined, hu⟩
        refine Trails.follows_turn ?_ (turns_step (by simp) hen (onWorker_eq hu))
        exact ⟨_, _, rfl, hcalls, Condition.forall₂_set hworkers (.refl _) w⟩
      · exact Trails.follows ⟨_, _, rfl, hcalls, late_set_left hworkers hu (hawake _)⟩
  | _ =>
      obtain ⟨hen', p', hp, htrails⟩ := h.stepped lateLikeness hthreads hen id hstep
      exact Trails.follows_turn htrails (turns_step (by simp) hen' hp)

/-- Whatever the pool does, with its notifications when they come, it could also
have done in turns, and with any overloads of its new calls: all that differs is
that a worker may have been awake before. -/
def OverloadsFollow (q : ThreadPool) : Prop :=
  ∀ p ls q' os, Alike q p → threadPool.Run q ls q' → os.length = (ls.filterMap newCall).length →
    Follows p q' os

theorem Trails.run (h : Trails q p) (hthreads : q.threads_ ≠ []) {ls : List PoolLabel}
    (hrun : threadPool.Run q ls q') (hos : os.length = (ls.filterMap newCall).length) :
    Follows p q' os := by
  induction hrun generalizing p os with
  | nil =>
      rw [List.eq_nil_of_length_eq_zero hos]
      exact h.follows
  | @cons q q₁ q' l ls hstep _ ih =>
      have hthreads' : q₁.threads_ ≠ [] := fun hempty =>
        hthreads ((moves_of_step hstep).threads hempty)
      -- the overload of the step, if it is a new call
      obtain ⟨o, os', hos', hrest⟩ : ∃ o os', os = ((newCall l).map fun _ => o).toList ++ os' ∧
          os'.length = (ls.filterMap newCall).length := by
        cases hl : newCall l with
        | none =>
            rw [List.filterMap_cons_none hl] at hos
            exact ⟨.lvalue, os, rfl, hos⟩
        | some overload =>
            rw [List.filterMap_cons_some hl] at hos
            cases os with
            | nil => cases hos
            | cons o os => exact ⟨o, os, rfl, Nat.succ.inj hos⟩
      obtain ⟨ks, p₁, hturns, hks, htrails⟩ := h.step hthreads hstep o
      obtain ⟨ks', p', hturns', hks', htrails'⟩ := ih htrails hthreads' hrest
      refine ⟨ks ++ ks', p', hturns.append hturns', ?_, htrails'⟩
      rw [List.filterMap_append, hks, hks', hos']

theorem overloadsFollow (hthreads : q.threads_ ≠ []) : OverloadsFollow q :=
  fun _ _ _ _ halike hrun hos => halike.trails.run hthreads hrun hos

end Ham.ThreadPool
