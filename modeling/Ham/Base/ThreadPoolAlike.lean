import Ham.Base.ThreadPoolSpec

/-!
# The two overloads of `run`

`run(const Task&)` notifies inside of its section, `run(Task&&)` behind it. In
`turns`, where a `notify_one` comes directly behind its section, they cannot be
told apart: pools that differ in the overloads of their calls and in nothing
else take and execute the same tasks, notify the same workers and let the same
calls wait and return (`overloadsAgree`).

This needs threads: a call that finds none executes its task itself, and from
there the overloads go different ways.
-/

namespace Ham.ThreadPool

open Lib

variable {p p' q q' : ThreadPool} {l k : PoolLabel} {i w pick task : Nat}

/-- A step, together with the `notify_one` that follows the section of
`run(Task&&)`. -/
def turn (q : ThreadPool) (l : PoolLabel) : Except PoolFault ThreadPool :=
  match q.step l, l with
  | .ok q', .enqueue i pick =>
      if ∃ c ∈ q'.calls[i]?, c.stage = .notifying then q'.step (.notify i pick) else .ok q'
  | result, _ => result

/-- The pool, when every `notify_one` comes directly behind its section. -/
def turns : System ThreadPool PoolLabel PoolFault where
  enabled := Enabled
  step := turn

theorem turn_of_not_enqueue (hl : ∀ i pick, l ≠ .enqueue i pick) : q.turn l = q.step l := by
  unfold turn
  split
  · exact absurd rfl (hl _ _)
  · rfl

theorem turns_step (hl : ∀ i pick, l ≠ .enqueue i pick) (hen : q.Enabled l)
    (hstep : q.step l = .ok q') : turns.Step q l q' :=
  ⟨hen, (turn_of_not_enqueue hl).trans hstep⟩

/-- The section and the `notify_one` of a call, whichever its overload. -/
def handOver (q : ThreadPool) (i : Nat) (c : RunCall) (pick : Nat) : ThreadPool :=
  if q.isFull ∧ q.isRunning_ then
    { q with calls := q.calls.set i { c with stage := .stands .waiting } }
  else { q with
    queue_ := q.queue_ ++ [i], enqueued := q.enqueued ++ [i]
    calls := q.calls.set i { c with stage := .returned }
    threads_ := notEmpty_.notifyOne pick q.threads_ }

theorem turn_enqueue {i : Nat} {c : RunCall} (hi : q.calls[i]? = some c) (pick : Nat) :
    q.turn (.enqueue i pick) = .ok (q.handOver i c pick) := by
  obtain ⟨hlt, -⟩ := List.getElem?_eq_some_iff.mp hi
  simp only [turn, step, onCall, hi, enqueue, handOver]
  by_cases hfull : q.isFull = true ∧ q.isRunning_ = true
  · simp [hfull, List.getElem?_set_self hlt]
  · cases hc : c.overload with
    | lvalue => simp [if_neg hfull, List.getElem?_set_self hlt]
    | rvalue => simp [if_neg hfull, List.getElem?_set_self hlt, notify]

/-- A turn is one step of the pool, or two. -/
theorem turns_run (h : turns.Step q l q') : ∃ ls, threadPool.Run q ls q' := by
  obtain ⟨hen, hturn⟩ := h
  change q.turn l = .ok q' at hturn
  by_cases hl : ∃ i pick, l = .enqueue i pick
  · obtain ⟨i, pick, rfl⟩ := hl
    obtain ⟨⟨overload, gate, hi, hgate⟩, hpick⟩ := hen
    obtain ⟨hlt, -⟩ := List.getElem?_eq_some_iff.mp hi
    rw [turn_enqueue hi] at hturn
    rw [← Except.ok.inj hturn]
    have hfirst : threadPool.Step q (.enqueue i pick)
        (q.enqueue i ⟨overload, .stands gate⟩ pick) :=
      ⟨⟨⟨overload, gate, hi, hgate⟩, hpick⟩, onCall_eq hi⟩
    unfold enqueue at hfirst
    unfold handOver
    split_ifs at hfirst ⊢ with hfull
    · exact ⟨_, .cons hfirst (.nil _)⟩
    · cases overload with
      | lvalue => exact ⟨_, .cons hfirst (.nil _)⟩
      | rvalue =>
          have hi' : (q.calls.set i ⟨.rvalue, .notifying⟩)[i]? = some ⟨.rvalue, .notifying⟩ :=
            List.getElem?_set_self hlt
          refine ⟨[_, .notify i pick], .cons hfirst (.cons ⟨⟨⟨.rvalue, hi'⟩, hpick⟩, ?_⟩ (.nil _))⟩
          refine (onCall_eq hi').trans ?_
          simp [notify]
  · rw [turn_of_not_enqueue fun i pick heq => hl ⟨i, pick, heq⟩] at hturn
    exact ⟨_, .cons ⟨hen, hturn⟩ (.nil _)⟩

/-! ## Pools that go the same way -/

section

variable {rest : List Nat} {c : RunCall} {t : Worker}

theorem enter_of_threads (hthreads : q.threads_ ≠ []) :
    q.enter i c = { q with calls := q.calls.set i { c with stage := .stands .entering } } := by
  rw [enter, if_neg (by simpa using hthreads)]

theorem take_nil (hqueue : q.queue_ = []) : q.take w t pick =
    q.setWorker w t (if q.isRunning_ then .stands .waiting else .test) := by
  unfold take
  rw [hqueue]

theorem take_cons (hqueue : q.queue_ = task :: rest) : q.take w t pick =
    { q.setWorker w t (.holding task) with
      queue_ := rest
      taken := q.taken ++ [task]
      calls := if 0 < q.maxsize_ then notFull_.notifyOne pick q.calls else q.calls } := by
  unfold take
  rw [hqueue]

end

/-- The pools differ in their calls and workers, as far as the relations let
them. -/
def Likes (C : RunCall → RunCall → Prop) (W : Worker → Worker → Prop) (q p : ThreadPool) : Prop :=
  ∃ calls threads, p = { q with calls := calls, threads_ := threads } ∧
    List.Forall₂ C q.calls calls ∧ List.Forall₂ W q.threads_ threads

/-- A difference that no step sees, but for those of `run`, its notification and
a wakeup. -/
structure Likeness (C : RunCall → RunCall → Prop) (W : Worker → Worker → Prop) : Prop where
  call : ∀ c, C c c
  worker : ∀ t, W t t
  /-- The calls stand at the same place, -/
  stage : ∀ c d, C c d → c.stage ≠ .notifying → d.stage = c.stage
  gate : ∀ c d, C c d → notFull_.gate c = notFull_.gate d
  /-- and go on from there alike; behind `newTask()` it is the overload that says
  where to go. -/
  go : ∀ (c d : RunCall) (stage : RunStage), stage ≠ .calling →
    C { c with stage := stage } { d with stage := stage }
  calling : ∀ c d, C c d → c.stage = .calling → c.overload = d.overload
  /-- The workers do too, -/
  outside : ∀ t u, W t u → notEmpty_.gate t = none → u = t
  joined : ∀ t u, W t u → u.joined = t.joined
  /-- and what can pass the mutex here can pass it there. -/
  awake : ∀ gate joined u, W ⟨.stands gate, joined⟩ u → gate ≠ .waiting →
    ∃ gate', u = ⟨.stands gate', joined⟩ ∧ gate' ≠ .waiting
  notified : ∀ t u, W t u →
    W (if notEmpty_.gate t = some .waiting then notEmpty_.pass .notified t else t)
      (if notEmpty_.gate u = some .waiting then notEmpty_.pass .notified u else u)

section

variable {C : RunCall → RunCall → Prop} {W : Worker → Worker → Prop}

/-- A call of the one pool, and its like in the other. -/
theorem Likes.findCall (h : Likes C W q p) (hC : Likeness C W) {overload : Overload}
    {stage : RunStage} (hi : q.calls[i]? = some ⟨overload, stage⟩) (hstage : stage ≠ .notifying) :
    ∃ overload', p.calls[i]? = some ⟨overload', stage⟩ ∧
      C ⟨overload, stage⟩ ⟨overload', stage⟩ := by
  obtain ⟨calls, threads, rfl, hcalls, -⟩ := h
  obtain ⟨⟨overload', stage'⟩, hd, hlike⟩ := Condition.getElem?_of_forall₂ hcalls hi
  have hsame : stage' = stage := hC.stage _ _ hlike hstage
  subst hsame
  exact ⟨overload', hd, hlike⟩

theorem Likes.findWorker (h : Likes C W q p) {t : Worker} (hw : q.threads_[w]? = some t) :
    ∃ u, p.threads_[w]? = some u ∧ W t u := by
  obtain ⟨calls, threads, rfl, -, hworkers⟩ := h
  exact Condition.getElem?_of_forall₂ hworkers hw

/-- A worker outside of the monitor. -/
theorem Likes.findOutside (h : Likes C W q p) (hC : Likeness C W) {t : Worker}
    (hw : q.threads_[w]? = some t) (ht : notEmpty_.gate t = none) : p.threads_[w]? = some t := by
  obtain ⟨u, hu, htu⟩ := h.findWorker hw
  exact hC.outside t u htu ht ▸ hu

theorem Likes.all_joined (hC : Likeness C W) {ts us : List Worker} (h : List.Forall₂ W ts us) :
    us.all (·.joined) = ts.all (·.joined) := by
  induction h with
  | nil => rfl
  | cons htu _ ih => rw [List.all_cons, List.all_cons, hC.joined _ _ htu, ih]

/-- The steps that may see the difference. -/
def Sees : PoolLabel → Prop
  | .run _ | .enqueue _ _ | .notify _ _ | .wakeWorker _ => True
  | _ => False

/-- All others go the same way. -/
theorem Likes.stepped (h : Likes C W q p) (hC : Likeness C W) (hthreads : q.threads_ ≠ [])
    (hen : q.Enabled l) (hl : ¬ Sees l) (hstep : q.step l = .ok q') :
    p.Enabled l ∧ ∃ p', p.step l = .ok p' ∧ Likes C W q' p' := by
  have hcall : ∀ (i : Nat) (overload : Overload) (stage : RunStage),
      q.calls[i]? = some ⟨overload, stage⟩ → stage ≠ .notifying →
      ∃ overload', p.calls[i]? = some ⟨overload', stage⟩ ∧
        C ⟨overload, stage⟩ ⟨overload', stage⟩ := fun _ _ _ => h.findCall hC
  have hworker : ∀ (w : Nat) (t : Worker), q.threads_[w]? = some t →
      ∃ u, p.threads_[w]? = some u ∧ W t u := fun _ _ => h.findWorker
  have houtside : ∀ (w : Nat) (t : Worker), q.threads_[w]? = some t →
      notEmpty_.gate t = none → p.threads_[w]? = some t := fun _ _ => h.findOutside hC
  obtain ⟨calls, threads, rfl, hcalls, hworkers⟩ := h
  have hthreads' : threads ≠ [] := by
    intro hnil
    rw [hnil] at hworkers
    exact hthreads (List.forall₂_nil_right_iff.mp hworkers)
  -- a call or a worker goes on, here and there
  have hset : ∀ {c d : RunCall} (i : Nat), C c d →
      List.Forall₂ C (q.calls.set i c) (calls.set i d) :=
    fun i hcd => Condition.forall₂_set hcalls hcd i
  have hsetWorker : ∀ (t : Worker) (w : Nat),
      List.Forall₂ W (q.threads_.set w t) (threads.set w t) :=
    fun t w => Condition.forall₂_set hworkers (hC.worker t) w
  have hpass : ∀ c d, C c d → C (notFull_.pass .notified c) (notFull_.pass .notified d) :=
    fun c d _ => hC.go c d _ (by simp)
  cases l with
  | run overload => exact absurd trivial hl
  | enqueue i pick => exact absurd trivial hl
  | notify i pick => exact absurd trivial hl
  | wakeWorker w => exact absurd trivial hl
  | start n =>
      cases hstep
      refine ⟨hen, _, rfl, ?_⟩
      unfold start
      split
      · exact ⟨_, _, rfl, hcalls, hworkers⟩
      · refine ⟨_, _, rfl, hcalls, List.rel_append hworkers ?_⟩
        exact List.forall₂_same.mpr fun t _ => hC.worker t
  | enter i =>
      obtain ⟨overload, hi⟩ := hen
      obtain ⟨overload', hi', -⟩ := hcall i overload _ hi (by simp)
      rw [← onCall_ok hi hstep]
      refine ⟨⟨overload', hi'⟩, _, onCall_eq hi', ?_⟩
      rw [enter_of_threads hthreads,
        enter_of_threads (q := { q with calls := calls, threads_ := threads }) hthreads']
      exact ⟨_, _, rfl, hset i (hC.go _ _ _ (by simp)), hworkers⟩
  | finishCall i throws =>
      obtain ⟨overload, hi⟩ := hen
      obtain ⟨overload', hi', hlike⟩ := hcall i overload _ hi (by simp)
      have hover : overload = overload' := hC.calling _ _ hlike rfl
      subst hover
      rw [← onCall_ok hi hstep]
      exact ⟨⟨overload, hi'⟩, _, onCall_eq hi', _, _, rfl, hset i (hC.call _), hworkers⟩
  | wakeCall i =>
      obtain ⟨overload, hi⟩ := hen
      obtain ⟨overload', hi', -⟩ := hcall i overload _ hi (by simp)
      rw [← onCall_ok hi hstep]
      exact ⟨⟨overload', hi'⟩, _, onCall_eq hi', _, _, rfl, hset i (hC.go _ _ _ (by simp)),
        hworkers⟩
  | init w throws =>
      obtain ⟨⟨joined, hw⟩, hthrows⟩ := hen
      have hw' := houtside w _ hw rfl
      rw [← onWorker_ok hw hstep]
      exact ⟨⟨⟨joined, hw'⟩, hthrows⟩, _, onWorker_eq hw', _, _, rfl, hcalls, hsetWorker _ w⟩
  | test w =>
      obtain ⟨joined, hw⟩ := hen
      have hw' := houtside w _ hw rfl
      rw [← onWorker_ok hw hstep]
      exact ⟨⟨joined, hw'⟩, _, onWorker_eq hw', _, _, rfl, hcalls, hsetWorker _ w⟩
  | execute w =>
      obtain ⟨task, joined, hw⟩ := hen
      have hw' := houtside w _ hw rfl
      rw [← onWorker_ok hw hstep]
      exact ⟨⟨task, joined, hw'⟩, _, onWorker_eq hw', _, _, rfl, hcalls, hsetWorker _ w⟩
  | finish w throws =>
      obtain ⟨task, joined, hw⟩ := hen
      have hw' := houtside w _ hw rfl
      rw [← onWorker_ok hw hstep]
      exact ⟨⟨task, joined, hw'⟩, _, onWorker_eq hw', _, _, rfl, hcalls, hsetWorker _ w⟩
  | take w pick =>
      obtain ⟨⟨gate, joined, hw, hgate⟩, hpick⟩ := hen
      obtain ⟨u, hu, hlike⟩ := hworker w _ hw
      obtain ⟨gate', rfl, hgate'⟩ := hC.awake _ _ _ hlike hgate
      rw [← onWorker_ok hw hstep]
      refine ⟨⟨⟨gate', joined, hu, hgate'⟩, Condition.picks_of_forall₂ hC.gate hcalls hpick⟩, _,
        onWorker_eq hu, ?_⟩
      by_cases hqueue : q.queue_ = []
      · rw [take_nil hqueue, take_nil (q := { q with calls := calls, threads_ := threads }) hqueue]
        exact ⟨_, _, rfl, hcalls, hsetWorker _ w⟩
      · obtain ⟨task, rest, hqueue⟩ := List.exists_cons_of_ne_nil hqueue
        rw [take_cons hqueue,
          take_cons (q := { q with calls := calls, threads_ := threads }) hqueue]
        refine ⟨_, _, rfl, ?_, hsetWorker _ w⟩
        simp only
        split_ifs
        · exact Condition.forall₂_notifyOne hC.gate hpass hcalls _
        · exact hcalls
  | stop =>
      cases hstep
      exact ⟨hen, _, rfl, _, _, rfl, hcalls, hworkers⟩
  | stopSection =>
      obtain ⟨destructor, howner⟩ := hen
      refine ⟨⟨destructor, howner⟩, ?_⟩
      simp only [ThreadPool.step, howner] at hstep ⊢
      rw [← Except.ok.inj hstep]
      refine ⟨_, rfl, _, _, rfl, Condition.forall₂_notifyAll hC.gate hpass hcalls, ?_⟩
      simp only [stopSection, Condition.notifyAll, List.forall₂_map_left_iff,
        List.forall₂_map_right_iff]
      exact hworkers.imp hC.notified
  | join =>
      obtain ⟨destructor, next, ⟨stage, joined⟩, howner, hnext, hdone⟩ := hen
      have hdone : stage = .done := hdone
      subst hdone
      have hnext' := houtside next _ hnext rfl
      simp only at hnext'
      refine ⟨⟨destructor, next, _, howner, hnext', rfl⟩, ?_⟩
      simp only [ThreadPool.step, howner, ThreadPool.join, hnext, hnext'] at hstep ⊢
      split_ifs at hstep ⊢
      rw [← Except.ok.inj hstep]
      exact ⟨_, rfl, _, _, rfl, hcalls, hsetWorker _ next⟩
  | stopReturn =>
      obtain ⟨destructor, howner⟩ := hen
      refine ⟨⟨destructor, howner.trans (by rw [hworkers.length_eq])⟩, ?_⟩
      cases destructor with
      | true =>
          simp only [ThreadPool.step, howner, destroyMembers, Likes.all_joined hC hworkers]
            at hstep ⊢
          split_ifs at hstep ⊢
          rw [← Except.ok.inj hstep]
          exact ⟨_, rfl, _, _, rfl, hcalls, hworkers⟩
      | false =>
          simp only [ThreadPool.step, howner] at hstep ⊢
          rw [← Except.ok.inj hstep]
          exact ⟨_, rfl, _, _, rfl, hcalls, hworkers⟩
  | destroy =>
      refine ⟨hen, ?_⟩
      simp only [ThreadPool.step, ThreadPool.destroy, destroyMembers,
        Likes.all_joined hC hworkers] at hstep ⊢
      split_ifs at hstep ⊢
      · rw [← Except.ok.inj hstep]
        exact ⟨_, rfl, _, _, rfl, hcalls, hworkers⟩
      · rw [← Except.ok.inj hstep]
        exact ⟨_, rfl, _, _, rfl, hcalls, hworkers⟩

end

/-! ## Pools that are alike -/

/-- The calls stand at the same place, and go on from there alike. -/
structure SameCall (c d : RunCall) : Prop where
  stage : d.stage = c.stage
  calling : c.stage = .calling → c.overload = d.overload

/-- The pools differ in the overloads of their calls, and in nothing else. -/
def Alike (q p : ThreadPool) : Prop := Likes SameCall Eq q p

/-- The labels differ in the overload of a new call, if at all. -/
def SameLabel (l k : PoolLabel) : Prop :=
  l = k ∨ ∃ overload overload', l = .run overload ∧ k = .run overload'

theorem SameLabel.symm (h : SameLabel l k) : SameLabel k l := by
  rcases h with rfl | ⟨overload, overload', rfl, rfl⟩
  · exact .inl rfl
  · exact .inr ⟨overload', overload, rfl, rfl⟩

theorem SameCall.symm {c d : RunCall} (h : SameCall c d) : SameCall d c :=
  ⟨h.stage.symm, fun hd => (h.calling (h.stage.symm.trans hd)).symm⟩

/-- A call that goes on to the same place, outside of `newTask()`. -/
theorem SameCall.go {stage : RunStage} (hstage : stage ≠ .calling) (c d : RunCall) :
    SameCall { c with stage := stage } { d with stage := stage } :=
  ⟨rfl, fun heq => absurd heq hstage⟩

theorem sameLikeness : Likeness SameCall Eq where
  call := fun _ => ⟨rfl, fun _ => rfl⟩
  worker := fun _ => rfl
  stage := fun _ _ h _ => h.stage
  gate := fun _ _ h => by simp only [notFull_, h.stage]
  go := fun c d _ hstage => .go hstage c d
  calling := fun _ _ h => h.calling
  outside := fun _ _ h _ => h.symm
  joined := fun _ _ h => h ▸ rfl
  awake := fun gate _ _ h hgate => ⟨gate, h.symm, hgate⟩
  notified := fun _ _ h => h ▸ rfl

theorem Alike.eq (h : Alike q p) :
    ∃ calls, p = { q with calls := calls } ∧ List.Forall₂ SameCall q.calls calls := by
  obtain ⟨calls, threads, rfl, hcalls, hworkers⟩ := h
  rw [List.forall₂_eq_eq_eq] at hworkers
  subst hworkers
  exact ⟨calls, rfl, hcalls⟩

theorem Alike.of_calls {calls : List RunCall} (hcalls : List.Forall₂ SameCall q.calls calls) :
    Alike q { q with calls := calls } :=
  ⟨calls, q.threads_, rfl, hcalls, List.forall₂_same.mpr fun _ _ => rfl⟩

theorem Alike.symm (h : Alike q p) : Alike p q := by
  obtain ⟨calls, rfl, hcalls⟩ := h.eq
  exact .of_calls (q := { q with calls := calls }) (hcalls.flip.imp fun _ _ h => h.symm)

theorem Alike.call (h : Alike q p) {overload : Overload} {stage : RunStage}
    (hi : q.calls[i]? = some ⟨overload, stage⟩) : ∃ overload', p.calls[i]? =
      some ⟨overload', stage⟩ := by
  obtain ⟨calls, rfl, hcalls⟩ := h.eq
  obtain ⟨⟨overload', stage'⟩, hd, hsame⟩ := Condition.getElem?_of_forall₂ hcalls hi
  have hstage : stage' = stage := hsame.stage
  subst hstage
  exact ⟨overload', hd⟩

/-- A step other than the sections of `run`. -/
theorem Alike.stepped (h : Alike q p) (hthreads : q.threads_ ≠ []) (hen : q.Enabled l)
    (hl : ∀ i pick, l ≠ .enqueue i pick) (hstep : q.step l = .ok q') :
    p.Enabled l ∧ ∃ p', p.step l = .ok p' ∧ Alike q' p' := by
  cases l with
  | enqueue i pick => exact absurd rfl (hl i pick)
  | run overload =>
      cases hstep
      obtain ⟨calls, rfl, hcalls⟩ := h.eq
      exact ⟨hen, _, rfl, .of_calls (List.rel_append hcalls (.cons ⟨rfl, fun _ => rfl⟩ .nil))⟩
  | notify i pick =>
      obtain ⟨⟨overload, hi⟩, hpick⟩ := hen
      obtain ⟨overload', hi'⟩ := h.call hi
      obtain ⟨calls, rfl, hcalls⟩ := h.eq
      rw [← onCall_ok hi hstep]
      exact ⟨⟨⟨overload', hi'⟩, hpick⟩, _, onCall_eq hi',
        .of_calls (Condition.forall₂_set hcalls (.go (by simp) _ _) i)⟩
  | wakeWorker w =>
      obtain ⟨joined, hw⟩ := hen
      obtain ⟨calls, rfl, hcalls⟩ := h.eq
      rw [← onWorker_ok hw hstep]
      exact ⟨⟨joined, hw⟩, _, onWorker_eq hw, .of_calls hcalls⟩
  | _ => exact h.stepped sameLikeness hthreads hen id hstep

/-- The section of `run`, and the `notify_one` that follows it. -/
theorem Alike.handOver (h : Alike q p) (i pick : Nat) (c d : RunCall) :
    Alike (q.handOver i c pick) (p.handOver i d pick) := by
  obtain ⟨calls, rfl, hcalls⟩ := h.eq
  unfold ThreadPool.handOver
  by_cases hfull : q.isFull = true ∧ q.isRunning_ = true
  · have hfull' : isFull { q with calls := calls } = true ∧ q.isRunning_ = true := hfull
    simp only [if_pos hfull, if_pos hfull']
    exact .of_calls (q := { q with calls := _ })
      (Condition.forall₂_set hcalls (.go (by simp) c d) i)
  · have hfull' : ¬ (isFull { q with calls := calls } = true ∧ q.isRunning_ = true) := hfull
    simp only [if_neg hfull, if_neg hfull']
    exact .of_calls (q := { q with queue_ := _, enqueued := _, calls := _, threads_ := _ })
      (Condition.forall₂_set hcalls (.go (by simp) c d) i)

/-- One turn of the one pool is one turn of the other. -/
theorem Alike.step (h : Alike q p) (hthreads : q.threads_ ≠ []) (hturn : turns.Step q l q')
    (hl : SameLabel l k) : ∃ p', turns.Step p k p' ∧ Alike q' p' := by
  obtain ⟨hen, hturn⟩ := hturn
  change q.Enabled l at hen
  change q.turn l = .ok q' at hturn
  rcases hl with rfl | ⟨overload, overload', rfl, rfl⟩
  · by_cases hl : ∃ i pick, l = .enqueue i pick
    · obtain ⟨i, pick, rfl⟩ := hl
      obtain ⟨⟨overload, gate, hi, hgate⟩, hpick⟩ := hen
      obtain ⟨overload', hi'⟩ := h.call hi
      rw [turn_enqueue hi] at hturn
      rw [← Except.ok.inj hturn]
      have hen' : p.Enabled (.enqueue i pick) := by
        obtain ⟨calls, rfl, -⟩ := h.eq
        exact ⟨⟨overload', gate, hi', hgate⟩, hpick⟩
      exact ⟨_, ⟨hen', turn_enqueue hi' pick⟩, h.handOver i pick _ _⟩
    · have hl : ∀ i pick, l ≠ .enqueue i pick := fun i pick heq => hl ⟨i, pick, heq⟩
      rw [turn_of_not_enqueue hl] at hturn
      obtain ⟨hen', p', hstep, halike⟩ := h.stepped hthreads hen hl hturn
      exact ⟨p', turns_step hl hen' hstep, halike⟩
  · cases hturn
    obtain ⟨calls, rfl, hcalls⟩ := h.eq
    exact ⟨_, ⟨hen, rfl⟩, .of_calls (List.rel_append hcalls (.cons ⟨rfl, by simp⟩ .nil))⟩

/-- `threads_` never shrinks, not in a turn either. -/
theorem turns_threads (h : turns.Step q l q') (hthreads : q.threads_ ≠ []) :
    q'.threads_ ≠ [] := by
  obtain ⟨ls, hrun⟩ := turns_run h
  refine hrun.invariant (I := fun q => q.threads_ ≠ []) hthreads ?_
  intro q l q' hthreads hstep hempty
  exact hthreads ((moves_of_step hstep).threads hempty)

/-- A run of the one pool is one of the other. -/
theorem Alike.run (h : Alike q p) (hthreads : q.threads_ ≠ []) {ls ks : List PoolLabel}
    (hrun : turns.Run q ls q') (hls : List.Forall₂ SameLabel ls ks) :
    ∃ p', turns.Run p ks p' ∧ Alike q' p' := by
  induction hrun generalizing p ks with
  | nil =>
      cases hls
      exact ⟨p, .nil p, h⟩
  | cons hturn _ ih =>
      cases hls with
      | cons hl hls =>
          obtain ⟨p', hturn', halike⟩ := h.step hthreads hturn hl
          obtain ⟨p'', hrun, halike⟩ := ih halike (turns_threads hturn hthreads) hls
          exact ⟨p'', .cons hturn' hrun, halike⟩

/-- It does not matter through which overloads the pool is called: what it does
with some of them it does with any others, and stays alike. -/
def OverloadsAgree (q : ThreadPool) : Prop :=
  ∀ p ls ks, Alike q p → List.Forall₂ SameLabel ls ks →
    (∀ q', turns.Run q ls q' → ∃ p', turns.Run p ks p' ∧ Alike q' p') ∧
    (∀ p', turns.Run p ks p' → ∃ q', turns.Run q ls q' ∧ Alike q' p')

theorem overloadsAgree (hthreads : q.threads_ ≠ []) : OverloadsAgree q := by
  intro p ls ks halike hls
  refine ⟨fun q' hrun => halike.run hthreads hrun hls, fun p' hrun => ?_⟩
  have hthreads' : p.threads_ ≠ [] := by
    obtain ⟨calls, rfl, -⟩ := halike.eq
    exact hthreads
  have hks : List.Forall₂ SameLabel ks ls := hls.flip.imp fun _ _ h => SameLabel.symm h
  obtain ⟨q', hrun', halike'⟩ := halike.symm.run hthreads' hrun hks
  exact ⟨q', hrun', halike'.symm⟩

end Ham.ThreadPool
