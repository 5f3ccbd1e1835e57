import Ham.Base.ThreadPoolFlow

/-!
# What `stop` leaves behind

A worker looks at `isRunning_` before each `take`, and `stop` clears it whatever
is in the queue. So behind the section of `stop` only the workers that are in
`take` at that moment come to the queue, once each (`Draining`): with `k` of them
the first `k` tasks are executed, and the others never are, although
`stop` waits for every worker. `noneDropped_iff` says which tasks those are.
-/

namespace Ham.ThreadPool

open Lib

variable {q q' : ThreadPool} {l : PoolLabel} {task : Nat}

/-! ## What the lists say of a call -/

/-- Whether the task of a call at a given stage has gone into the queue. -/
def Logged (q : ThreadPool) (task : Nat) : Option RunStage → Prop
  | some .calling => q.enqueued.count task = 0 ∧ task ∈ q.direct
  | some .notifying => q.enqueued.count task = 1
  | some .returned => q.enqueued.count task = 1 ∨ q.enqueued.count task = 0 ∧ task ∈ q.direct
  | some .called | some (.stands _) | some .threw | none => q.enqueued.count task = 0

def stageOf (q : ThreadPool) (task : Nat) : Option RunStage := q.calls[task]?.map (·.stage)

/-- Every call is in the queue's books at most once, and not before its section. -/
def Booked (q : ThreadPool) : Prop := ∀ task, q.Logged task (q.stageOf task)

theorem booked_new (maxsize : Nat) (cb : Bool) : Booked (new maxsize cb) := by
  intro task
  simp [stageOf, new, Logged]

theorem CallMove.logged {c : RunCall} {stage : RunStage} (h : CallMove q c stage)
    (hlog : q.Logged task (some c.stage)) : q.Logged task (some stage) := by
  cases h with
  | throw overload => exact hlog.1
  | done => exact .inr hlog
  | goOn => exact hlog.1
  | _ => exact hlog

/-- The stage of every call, when one of them moves. -/
theorem stageOf_set {i : Nat} {c : RunCall} (hi : q.calls[i]? = some c) (stage : RunStage)
    (task : Nat) : (q.calls.set i { c with stage := stage })[task]?.map (·.stage) =
      if i = task then some stage else q.stageOf task := by
  obtain ⟨hlt, -⟩ := List.getElem?_eq_some_iff.mp hi
  split_ifs with htask
  · subst htask
    rw [List.getElem?_set_self hlt]
    rfl
  · rw [List.getElem?_set_ne htask]
    rfl

theorem stageOf_some {c : RunCall} (hi : q.calls[task]? = some c) :
    q.stageOf task = some c.stage := by
  rw [stageOf, hi]
  rfl

theorem Logged.mono {stage : Option RunStage} (h : q.Logged task stage)
    (hcount : q'.enqueued.count task = q.enqueued.count task)
    (hdirect : task ∈ q.direct → task ∈ q'.direct) : q'.Logged task stage := by
  unfold Logged at *
  rw [hcount]
  split at h
  · exact ⟨h.1, hdirect h.2⟩
  · exact h
  · exact h.imp id (And.imp id hdirect)
  all_goals exact h

/-- A notification moves a call from one gate to another, if any. -/
theorem stageOf_notified {calls : List RunCall}
    (h : calls[task]? = q.calls[task]? ∨
      ∃ c, q.calls[task]? = some c ∧ notFull_.gate c = some .waiting ∧
        calls[task]? = some (notFull_.pass .notified c)) :
    calls[task]?.map (·.stage) = q.stageOf task ∨
    q.stageOf task = some (.stands .waiting) ∧
      calls[task]?.map (·.stage) = some (.stands .notified) := by
  rcases h with heq | ⟨c, hc, hgate, heq⟩
  · exact .inl (by rw [heq, stageOf])
  · have hstage : c.stage = .stands .waiting := by
      cases hstage : c.stage <;> simp_all [notFull_]
    refine .inr ⟨by rw [stageOf_some hc, hstage], ?_⟩
    rw [heq]
    rfl

theorem Booked.step (h : Booked q) (hmoves : Moves q l q') : Booked q' := by
  intro task
  have htask := h task
  -- a call moves, with its books
  have hset : ∀ {i : Nat} {c : RunCall} {stage : RunStage}, q.calls[i]? = some c →
      q'.calls = q.calls.set i { c with stage := stage } →
      (q.Logged i (some c.stage) → q'.Logged i (some stage)) →
      (task ≠ i → q'.enqueued.count task = q.enqueued.count task) →
      (task ∈ q.direct → task ∈ q'.direct) → q'.Logged task (q'.stageOf task) := by
    intro i c stage hi hcalls hmove hcount hdirect
    rw [stageOf, hcalls, stageOf_set hi]
    split_ifs with heq
    · subst heq
      exact hmove (stageOf_some hi ▸ htask)
    · exact htask.mono (hcount (Ne.symm heq)) hdirect
  have hnotified : (q'.stageOf task = q.stageOf task ∨
      q.stageOf task = some (.stands .waiting) ∧ q'.stageOf task = some (.stands .notified)) →
      q'.enqueued = q.enqueued → q'.direct = q.direct → q'.Logged task (q'.stageOf task) := by
    intro hstage henqueued hdirect
    rcases hstage with hsame | ⟨hold, hnew⟩
    · rw [hsame]
      exact htask.mono (by rw [henqueued]) (by simp [hdirect])
    · rw [hold] at htask
      rw [hnew]
      show q'.enqueued.count task = 0
      rw [henqueued]
      exact htask
  cases hmoves with
  | run overload =>
      by_cases hlt : task < q.calls.length
      · rw [stageOf, List.getElem?_append_left hlt]
        exact htask
      · have hnone : q.calls[task]? = none := List.getElem?_eq_none (Nat.le_of_not_lt hlt)
        rw [stageOf, hnone] at htask
        rw [stageOf, List.getElem?_append_right (Nat.le_of_not_lt hlt)]
        cases task - q.calls.length with
        | zero => exact htask
        | succ k => exact htask
  | direct hi hempty =>
      refine hset hi rfl (fun hlog => ⟨hlog, ?_⟩) (fun _ => rfl) (List.mem_append_left _)
      exact List.mem_append_right _ List.mem_cons_self
  | call hi hmove hstop => exact hset hi rfl hmove.logged (fun _ => rfl) id
  | @pushInside i pick gate hi hgate hroom hpick =>
      refine hset hi rfl (fun hlog => .inl ?_) (fun hne => ?_) id
      · have hzero : q.enqueued.count i = 0 := hlog
        simp [hzero]
      · simp [Ne.symm hne]
  | @push i pick gate hi hgate hroom =>
      refine hset hi rfl (fun hlog => ?_) (fun hne => ?_) id
      · have hzero : q.enqueued.count i = 0 := hlog
        simp [Logged, hzero]
      · simp [Ne.symm hne]
  | notify hi hpick => exact hset hi rfl .inl (fun _ => rfl) id
  | @pop w pick task' rest gate joined hw hgate hqueue hpick =>
      refine hnotified ?_ rfl rfl
      simp only [stageOf]
      split_ifs
      · exact stageOf_notified (notFull_.getElem?_notifyOne_cases pick task q.calls)
      · exact .inl rfl
  | stopSection destructor =>
      exact hnotified (stageOf_notified (notFull_.getElem?_notifyAll_cases task q.calls)) rfl rfl
  | _ => exact htask

/-- A call that has returned stays so, and its task is not executed by it again. -/
theorem Moves.returned (h : Moves q l q') (hc : q.stageOf task = some .returned) :
    q'.stageOf task = some .returned ∧ (task ∈ q'.direct ↔ task ∈ q.direct) := by
  have hset : ∀ {i : Nat} {c : RunCall} {stage : RunStage}, q.calls[i]? = some c →
      (c.stage = .returned → stage = .returned) →
      (q.calls.set i { c with stage := stage })[task]?.map (·.stage) = some .returned := by
    intro i c stage hi hstage
    rw [stageOf_set hi]
    split_ifs with heq
    · subst heq
      rw [stageOf_some hi, Option.some.injEq] at hc
      rw [hstage hc]
    · exact hc
  have hnotified : ∀ {calls : List RunCall}, (calls[task]?.map (·.stage) = q.stageOf task ∨
      q.stageOf task = some (.stands .waiting) ∧
        calls[task]?.map (·.stage) = some (.stands .notified)) →
      calls[task]?.map (·.stage) = some .returned := by
    intro calls hstage
    rcases hstage with hsame | ⟨hold, -⟩
    · rw [hsame, hc]
    · rw [hold] at hc
      cases hc
  cases h with
  | run overload =>
      refine ⟨?_, Iff.rfl⟩
      obtain ⟨c, hcall, -⟩ := Option.map_eq_some_iff.mp hc
      rw [stageOf, List.getElem?_append_left (List.getElem?_eq_some_iff.mp hcall).1]
      exact hc
  | @direct i overload hi hempty =>
      refine ⟨hset hi (by simp), ?_⟩
      have hne : task ≠ i := by
        rintro rfl
        rw [stageOf_some hi] at hc
        cases hc
      simp [hne]
  | call hi hmove hstop =>
      refine ⟨hset hi fun hstage => ?_, Iff.rfl⟩
      cases hmove <;> cases hstage
  | pushInside hi hgate hroom hpick => exact ⟨hset hi fun _ => rfl, Iff.rfl⟩
  | push hi hgate hroom => exact ⟨hset hi (by simp), Iff.rfl⟩
  | notify hi hpick => exact ⟨hset hi fun _ => rfl, Iff.rfl⟩
  | @pop w pick task' rest gate joined hw hgate hqueue hpick =>
      refine ⟨?_, Iff.rfl⟩
      simp only [stageOf]
      split_ifs
      · exact hnotified (stageOf_notified (notFull_.getElem?_notifyOne_cases pick task q.calls))
      · exact hc
  | stopSection destructor =>
      refine ⟨?_, Iff.rfl⟩
      exact hnotified (stageOf_notified (notFull_.getElem?_notifyAll_cases task q.calls))
  | _ => exact ⟨hc, Iff.rfl⟩

/-- What has been enqueued stays so. -/
theorem Moves.enqueued (h : Moves q l q') (htask : task ∈ q.enqueued) : task ∈ q'.enqueued := by
  cases h with
  | pushInside hi hgate hroom hpick => exact List.mem_append_left _ htask
  | push hi hgate hroom => exact List.mem_append_left _ htask
  | _ => exact htask

/-! ## The owner -/

/-- The labels of the thread that owns the pool. -/
def isOwner : PoolLabel → Bool
  | .start _ | .stop | .stopSection | .join | .stopReturn | .destroy => true
  | _ => false

theorem step_owner (h : threadPool.Step q l q') (hl : isOwner l = false) :
    q'.owner = q.owner := by
  obtain ⟨-, hstep⟩ := h
  have hcall : ∀ {i : Nat} {f : RunCall → ThreadPool}, q.onCall i f = .ok q' →
      (∀ c, (f c).owner = q.owner) → q'.owner = q.owner := by
    intro i f hq hf
    exact onCall_keeps (P := (·.owner = q.owner)) hq rfl hf
  have hworker : ∀ {w : Nat} {f : Worker → ThreadPool}, q.onWorker w f = .ok q' →
      (∀ t, (f t).owner = q.owner) → q'.owner = q.owner := by
    intro w f hq hf
    exact onWorker_keeps (P := (·.owner = q.owner)) hq rfl hf
  cases l with
  | run overload =>
      cases hstep
      rfl
  | enter i =>
      refine hcall hstep fun c => ?_
      unfold ThreadPool.enter
      split <;> rfl
  | enqueue i pick =>
      refine hcall hstep fun c => ?_
      unfold ThreadPool.enqueue
      split
      · rfl
      · cases c.overload <;> rfl
  | finishCall i throws => exact hcall hstep fun _ => rfl
  | notify i pick => exact hcall hstep fun _ => rfl
  | wakeCall i => exact hcall hstep fun _ => rfl
  | take w pick =>
      refine hworker hstep fun t => ?_
      unfold ThreadPool.take
      split <;> rfl
  | execute w =>
      refine hworker hstep fun t => ?_
      unfold ThreadPool.execute
      split <;> rfl
  | init w throws => exact hworker hstep fun _ => rfl
  | test w => exact hworker hstep fun _ => rfl
  | finish w throws => exact hworker hstep fun _ => rfl
  | wakeWorker w => exact hworker hstep fun _ => rfl
  | _ => cases hl

/-- In `stop` the owner comes to the section next, -/
theorem Enabled.stopping (h : q.Enabled l) {destructor : Bool}
    (howner : q.owner = .stopping destructor) : isOwner l = false ∨ l = .stopSection := by
  cases l with
  | stopSection => exact .inr rfl
  | start n => cases howner.symm.trans h
  | stop => cases howner.symm.trans h
  | destroy => cases howner.symm.trans h
  | join =>
      obtain ⟨_, _, _, howner', -⟩ := h
      cases howner.symm.trans howner'
  | stopReturn =>
      obtain ⟨_, howner'⟩ := h
      cases howner.symm.trans howner'
  | _ => exact .inl rfl

/-- and then joins the threads until it returns. -/
theorem Enabled.joining (h : q.Enabled l) {destructor : Bool} {next : Nat}
    (howner : q.owner = .joining destructor next) :
    isOwner l = false ∨ l = .join ∨ l = .stopReturn := by
  cases l with
  | join => exact .inr (.inl rfl)
  | stopReturn => exact .inr (.inr rfl)
  | start n => cases howner.symm.trans h
  | stop => cases howner.symm.trans h
  | destroy => cases howner.symm.trans h
  | stopSection =>
      obtain ⟨_, howner'⟩ := h
      cases howner.symm.trans howner'
  | _ => exact .inl rfl

/-! ## Behind the section of `stop` -/

/-- What has been taken from the queue since a state, with at most as many tasks
as workers were in `take` there, and one for each unless the tasks ran out. -/
def Drained (entered q : ThreadPool) : Prop :=
  ∃ popped new, q.taken = entered.taken ++ popped ∧ popped ++ q.queue_ = entered.queue_ ++ new ∧
    popped.length + notEmpty_.inside q.threads_ ≤ notEmpty_.inside entered.threads_ ∧
    (popped.length + notEmpty_.inside q.threads_ = notEmpty_.inside entered.threads_ ∨
      entered.queue_.length ≤ popped.length)

/-- The threads that `stop` has joined are done. -/
def Joining (q : ThreadPool) : Prop :=
  ∃ next, q.owner = .joining false next ∧
    ∀ w < next, ∃ t, q.threads_[w]? = some t ∧ t.stage = .done

structure Draining (entered q : ThreadPool) : Prop where
  stopped : q.isRunning_ = false
  drained : Drained entered q
  joining : Joining q

variable {entered : ThreadPool}

/-- Workers come and go, but nobody comes into `take`. -/
theorem Drained.workers (h : Drained entered q) (hqueue : q'.queue_ = q.queue_)
    (htaken : q'.taken = q.taken)
    (hinside : notEmpty_.inside q'.threads_ = notEmpty_.inside q.threads_) :
    Drained entered q' := by
  obtain ⟨popped, new, hpopped, hsplit, hle, hall⟩ := h
  exact ⟨popped, new, htaken.trans hpopped, by rw [hqueue, hsplit], by rw [hinside]; exact hle,
    by rw [hinside]; exact hall⟩

theorem Drained.push (h : Drained entered q) {i : Nat} (hqueue : q'.queue_ = q.queue_ ++ [i])
    (htaken : q'.taken = q.taken)
    (hinside : notEmpty_.inside q'.threads_ = notEmpty_.inside q.threads_) :
    Drained entered q' := by
  obtain ⟨popped, new, hpopped, hsplit, hle, hall⟩ := h
  refine ⟨popped, new ++ [i], htaken.trans hpopped, ?_, by rw [hinside]; exact hle,
    by rw [hinside]; exact hall⟩
  rw [hqueue, ← List.append_assoc, hsplit, List.append_assoc]

theorem Drained.worker {w : Nat} {t : Worker} {stage : WorkerStage} (h : Drained entered q)
    (hstopped : q.isRunning_ = false) (hw : q.threads_[w]? = some t)
    (hmove : WorkerMove q t.stage stage) :
    Drained entered { q with threads_ := q.threads_.set w { t with stage := stage } } := by
  have hsame : (notEmpty_.gate { t with stage := stage }).isSome = (notEmpty_.gate t).isSome →
      Drained entered { q with threads_ := q.threads_.set w { t with stage := stage } } :=
    fun hgate => h.workers rfl rfl (Condition.inside_set_eq hw hgate)
  obtain ⟨tstage, joined⟩ := t
  cases hmove with
  | init throws => exact hsame (by cases throws <;> rfl)
  | finish task throws => exact hsame (by cases throws <;> rfl)
  | enter hrunning =>
      rw [hstopped] at hrunning
      cases hrunning
  | wait hgate hqueue hrunning =>
      rw [hstopped] at hrunning
      cases hrunning
  | nothing hgate hqueue hrunning =>
      -- the tasks have run out
      obtain ⟨popped, new, hpopped, hsplit, hle, -⟩ := h
      have hleave := notEmpty_.inside_set_succ (u := ⟨.test, joined⟩) hw rfl rfl
      rw [hqueue, List.append_nil] at hsplit
      refine ⟨popped, new, hpopped, by rw [hqueue, List.append_nil, hsplit], ?_, .inr ?_⟩
      · show popped.length + notEmpty_.inside (q.threads_.set w ⟨.test, joined⟩) ≤ _
        omega
      · rw [hsplit, List.length_append]
        exact Nat.le_add_right _ _
  | leave hrunning => exact hsame rfl
  | wake => exact hsame rfl

theorem Drained.step (h : Drained entered q) (hstopped : q.isRunning_ = false)
    (hmoves : Moves q l q') (hstart : ∀ n, l ≠ .start n) : Drained entered q' := by
  cases hmoves with
  | start n hrunning => exact absurd rfl (hstart n)
  | pushInside hi hgate hroom hpick => exact h.push rfl rfl (Condition.inside_notifyOne _ _)
  | push hi hgate hroom => exact h.push rfl rfl rfl
  | notify hi hpick => exact h.workers rfl rfl (Condition.inside_notifyOne _ _)
  | stopSection destructor => exact h.workers rfl rfl (Condition.inside_notifyAll _)
  | worker hw hmove hstop => exact h.worker hstopped hw hmove
  | @pop w pick task rest gate joined hw hgate hqueue hpick =>
      obtain ⟨popped, new, hpopped, hsplit, hle, hall⟩ := h
      have hleave := notEmpty_.inside_set_succ (u := ⟨.holding task, joined⟩) hw rfl rfl
      rw [hqueue] at hsplit
      refine ⟨popped ++ [task], new, ?_, ?_, ?_, ?_⟩
      · show q.taken ++ [task] = _
        rw [hpopped, List.append_assoc]
      · rw [List.append_assoc]
        exact hsplit
      · simp only [List.length_append, List.length_singleton]
        omega
      · simp only [List.length_append, List.length_singleton]
        omega
  | execute hw => exact h.workers rfl rfl (Condition.inside_set_eq hw rfl)
  | join destructor hnext hdone => exact h.workers rfl rfl (Condition.inside_set_eq hnext rfl)
  | _ => exact h

/-- A worker that is done stays so. -/
theorem Moves.done (h : Moves q l q') {w : Nat}
    (hw : ∃ t, q.threads_[w]? = some t ∧ t.stage = .done) :
    ∃ t, q'.threads_[w]? = some t ∧ t.stage = .done := by
  obtain ⟨t, hw, hdone⟩ := hw
  have hgate : notEmpty_.gate t ≠ some .waiting := by simp [notEmpty_, hdone]
  have hset : ∀ {v : Nat} {s s' : Worker}, q.threads_[v]? = some s →
      (s.stage = .done → s'.stage = .done) →
      ∃ t, (q.threads_.set v s')[w]? = some t ∧ t.stage = .done := by
    intro v s s' hv hs
    by_cases hvw : v = w
    · subst hvw
      rw [hw] at hv
      cases hv
      exact ⟨s', List.getElem?_set_self (List.getElem?_eq_some_iff.mp hw).1, hs hdone⟩
    · exact ⟨t, by rw [List.getElem?_set_ne hvw, hw], hdone⟩
  cases h with
  | start n hrunning =>
      exact ⟨t, by rw [List.getElem?_append_left (List.getElem?_eq_some_iff.mp hw).1, hw], hdone⟩
  | pushInside hi hgate' hroom hpick => exact ⟨t, Condition.getElem?_notifyOne hw hgate, hdone⟩
  | notify hi hpick => exact ⟨t, Condition.getElem?_notifyOne hw hgate, hdone⟩
  | stopSection destructor => exact ⟨t, Condition.getElem?_notifyAll hw hgate, hdone⟩
  | worker hv hmove hstop =>
      refine hset hv fun hstage => ?_
      rw [hstage] at hmove
      cases hmove
  | pop hv hgate' hqueue hpick => exact hset hv (by simp)
  | execute hv => exact hset hv (by simp)
  | join destructor hnext hdone' => exact hset hnext fun _ => hdone'
  | _ => exact ⟨t, hw, hdone⟩

theorem Joining.step (h : Joining q) (hstep : threadPool.Step q l q') (hl : l ≠ .stopReturn) :
    Joining q' := by
  obtain ⟨next, howner, hdone⟩ := h
  have hdone' : ∀ w < next, ∃ t, q'.threads_[w]? = some t ∧ t.stage = .done :=
    fun w hw => (moves_of_step hstep).done (hdone w hw)
  rcases Enabled.joining hstep.1 howner with hother | rfl | rfl
  · exact ⟨next, (step_owner hstep hother).trans howner, hdone'⟩
  · -- one more thread, and it is done
    obtain ⟨⟨destructor, next', t, howner', hnext, ht⟩, hq⟩ := hstep
    rw [howner] at howner'
    cases howner'
    obtain ⟨hlt, -⟩ := List.getElem?_eq_some_iff.mp hnext
    simp only [threadPool, ThreadPool.step, howner, ThreadPool.join, hnext] at hq
    split at hq
    · cases hq
    · cases hq
      refine ⟨next + 1, rfl, fun w hw => ?_⟩
      rcases Nat.lt_succ_iff_lt_or_eq.mp hw with hlt' | rfl
      · exact hdone' w hlt'
      · exact ⟨_, List.getElem?_set_self hlt, ht⟩
  · exact absurd rfl hl

theorem Draining.step (h : Draining entered q) (hstep : threadPool.Step q l q')
    (hl : l ≠ .stopReturn) : Draining entered q' := by
  have hmoves := moves_of_step hstep
  have hstart : ∀ n, l ≠ .start n := by
    rintro n rfl
    obtain ⟨next, howner, -⟩ := h.joining
    cases howner.symm.trans hstep.1
  refine ⟨?_, h.drained.step h.stopped hmoves hstart, h.joining.step hstep hl⟩
  have hnot := (hmoves.isRunning hstart).not
  simpa [h.stopped] using hnot

theorem draining_stopSection (hstep : threadPool.Step entered .stopSection q')
    (howner : entered.owner = .stopping false) : Draining entered q' := by
  have hq : q' = entered.stopSection false := by
    simpa [threadPool, ThreadPool.step, howner] using hstep.2.symm
  rw [hq]
  refine ⟨rfl, ⟨[], [], by simp [ThreadPool.stopSection], by simp [ThreadPool.stopSection], ?_, ?_⟩,
    ⟨0, rfl, by simp⟩⟩
  · simp [ThreadPool.stopSection, Condition.inside_notifyAll]
  · simp [ThreadPool.stopSection, Condition.inside_notifyAll]

theorem run_draining {ls : List PoolLabel} (hrun : threadPool.Run q ls q')
    (hls : .stopReturn ∉ ls) (h : Draining entered q) : Draining entered q' := by
  induction hrun with
  | nil => exact h
  | cons hstep _ ih =>
      rw [List.mem_cons, not_or] at hls
      exact ih hls.2 (h.step hstep (Ne.symm hls.1))

/-- From the call of `stop` to its section the owner does nothing else. -/
theorem run_stopping {ls : List PoolLabel} (hrun : threadPool.Run q ls q')
    (hls : .stopSection ∉ ls) (howner : q.owner = .stopping false) :
    q'.owner = .stopping false := by
  induction hrun with
  | nil => exact howner
  | @cons q q₁ q' l ls hstep _ ih =>
      rw [List.mem_cons, not_or] at hls
      refine ih hls.2 ?_
      rcases Enabled.stopping hstep.1 howner with hother | rfl
      · exact (step_owner hstep hother).trans howner
      · exact absurd rfl hls.1

/-! ## The books over a whole run -/

/-- What holds of every state of a pool, also of one on which `run` is called
before `start`. -/
structure Kept (q : ThreadPool) : Prop where
  booked : Booked q
  order : q.taken ++ q.queue_ = q.enqueued
  taken_held : ∀ task, q.executed.count task + q.held task = q.taken.count task

theorem kept_new (maxsize : Nat) (cb : Bool) : Kept (new maxsize cb) :=
  ⟨booked_new maxsize cb, (orderly_new maxsize cb).order, (orderly_new maxsize cb).taken_held⟩

theorem Kept.step (h : Kept q) (hmoves : Moves q l q') : Kept q' := by
  refine ⟨h.booked.step hmoves, hmoves.order h.order, fun task => ?_⟩
  have hheld := hmoves.taken_held task
  have hbefore := h.taken_held task
  omega

theorem run_kept {ls : List PoolLabel} (hrun : threadPool.Run q ls q') (h : Kept q) : Kept q' :=
  hrun.invariant h fun _ _ _ h hstep => h.step (moves_of_step hstep)

theorem Booked.count_le (h : Booked q) (task : Nat) : q.enqueued.count task ≤ 1 := by
  have htask := h task
  unfold Logged at htask
  split at htask <;> omega

/-- A task is not in the queue and out of it. -/
theorem Kept.enqueued_nodup (h : Kept q) : (q.taken ++ q.queue_).Nodup := by
  rw [h.order, List.nodup_iff_count_le_one]
  exact h.booked.count_le

/-- With nobody left in `take`, what has come out of the queue is all but the
tasks behind the first `k`, for the `k` workers that were there. -/
theorem Drained.mem_taken (h : Drained entered q) (hinside : notEmpty_.inside q.threads_ = 0)
    (hkept : Kept entered) (htask : task ∈ entered.enqueued) :
    task ∈ q.taken ↔ task ∉ entered.queue_.drop (notEmpty_.inside entered.threads_) := by
  obtain ⟨popped, new, hpopped, hsplit, hle, hall⟩ := h
  rw [hinside, Nat.add_zero] at hle hall
  have hnodup := hkept.enqueued_nodup
  rw [← hkept.order, List.mem_append] at htask
  rw [hpopped, List.mem_append]
  by_cases hlen : entered.queue_.length ≤ popped.length
  · -- every task has been taken
    have hprefix : entered.queue_ <+: popped := by
      apply List.prefix_of_prefix_length_le _ (List.prefix_append popped q.queue_) hlen
      rw [hsplit]
      exact List.prefix_append _ _
    rw [List.drop_eq_nil_of_le (hlen.trans hle)]
    simp only [List.not_mem_nil, not_false_eq_true, iff_true]
    exact htask.imp id fun hmem => hprefix.subset hmem
  · -- the workers have gone, and the queue is cut at their number
    have hk : popped.length = notEmpty_.inside entered.threads_ := by omega
    have hcut : popped = entered.queue_.take popped.length := by
      have hfront := congrArg (List.take popped.length) hsplit
      rwa [List.take_left, List.take_append_of_le_length (by omega)] at hfront
    rw [← hk]
    rw [← List.take_append_drop popped.length entered.queue_, ← hcut, ← List.append_assoc,
      List.nodup_append] at hnodup
    constructor
    · intro hmem hdrop
      exact hnodup.2.2 task (List.mem_append.mpr hmem) task hdrop rfl
    · intro hdrop
      refine htask.imp id fun hmem => ?_
      rw [← List.take_append_drop popped.length entered.queue_, List.mem_append, ← hcut] at hmem
      exact hmem.resolve_right hdrop

theorem run_returned {ls : List PoolLabel} (hrun : threadPool.Run q ls q')
    (hc : q.stageOf task = some .returned) : task ∈ q'.direct ↔ task ∈ q.direct := by
  have hkeep := hrun.invariant
    (I := fun q₁ => q₁.stageOf task = some .returned ∧ (task ∈ q₁.direct ↔ task ∈ q.direct))
    ⟨hc, Iff.rfl⟩ fun q₁ l q₂ h hstep => by
      obtain ⟨hc, hdirect⟩ := (moves_of_step hstep).returned h.1
      exact ⟨hc, hdirect.trans h.2⟩
  exact hkeep.2

theorem run_enqueued {ls : List PoolLabel} (hrun : threadPool.Run q ls q')
    (htask : task ∈ q.enqueued) : task ∈ q'.enqueued :=
  hrun.invariant (I := fun q => task ∈ q.enqueued) htask
    fun _ _ _ h hstep => (moves_of_step hstep).enqueued h

end Ham.ThreadPool

namespace Ham

open Lib ThreadPool

/-- A call of `stop`, made in one state, that clears `isRunning_` in a second
and returns in a third. -/
inductive StopCall (called entered returned : ThreadPool) : Prop
  | intro {q q' q'' : ThreadPool} (ls ls' : List PoolLabel)
      (hcall : threadPool.Step called .stop q) (hrun : threadPool.Run q ls entered)
      (hls : .stopSection ∉ ls) (hsection : threadPool.Step entered .stopSection q')
      (hrun' : threadPool.Run q' ls' q'') (hls' : .stopReturn ∉ ls')
      (hreturn : threadPool.Step q'' .stopReturn returned)

/-- The task has been executed, by its caller or by a worker, to its end. -/
def HasRun (q : ThreadPool) (task : Nat) : Prop :=
  task ∈ q.direct ∨ task ∈ q.executed ∧ ∀ t ∈ q.threads_, t.stage ≠ .executing task

/-- Every task whose `run` had returned when `stop` was called has been executed
when `stop` returns. -/
def NoneDropped (called returned : ThreadPool) : Prop :=
  ∀ task, called.stageOf task = some .returned → HasRun returned task

/-- Behind the first `k` tasks of the queue, for the `k` workers in `take`, there
is no task whose `run` had returned when `stop` was called, but for those that
their callers have executed. -/
def InReach (called entered : ThreadPool) : Prop :=
  ∀ task ∈ entered.queue_.drop (notEmpty_.inside entered.threads_),
    called.stageOf task = some .returned → task ∈ called.direct

/-- When `stop` returns, every worker is done, and what came out of the queue has
been executed. -/
theorem ThreadPool.Draining.returned {entered q returned : ThreadPool} (h : Draining entered q)
    (hkept : Kept q) (hreturn : threadPool.Step q .stopReturn returned) :
    notEmpty_.inside q.threads_ = 0 ∧ returned.direct = q.direct ∧
    (∀ task, HasRun returned task ↔ task ∈ q.direct ∨ task ∈ q.taken) := by
  obtain ⟨next, howner, hdone⟩ := h.joining
  obtain ⟨⟨destructor, howner'⟩, hstep⟩ := hreturn
  cases howner.symm.trans howner'
  have hstage : ∀ t ∈ q.threads_, t.stage = .done := by
    intro t ht
    obtain ⟨w, hw⟩ := List.mem_iff_getElem?.mp ht
    obtain ⟨t', hw', hdone'⟩ := hdone w (List.getElem?_eq_some_iff.mp hw).1
    rw [hw] at hw'
    cases hw'
    exact hdone'
  have hreturned : returned = { q with owner := .idle } := by
    simpa [threadPool, ThreadPool.step, howner] using hstep.symm
  subst hreturned
  refine ⟨?_, rfl, fun task => ?_⟩
  · rw [Condition.inside, List.countP_eq_zero]
    intro t ht
    simp [notEmpty_, hstage t ht]
  · have hheld : q.held task = 0 := by
      rw [held, List.countP_eq_zero]
      intro t ht
      simp [hstage t ht]
    have hcount := hkept.taken_held task
    rw [hheld, Nat.add_zero] at hcount
    have hmem : task ∈ q.executed ↔ task ∈ q.taken := by
      rw [← List.count_pos_iff, hcount, List.count_pos_iff]
    have hnobody : ∀ t ∈ q.threads_, t.stage ≠ .executing task := by
      intro t ht
      simp [hstage t ht]
    show (task ∈ q.direct ∨ task ∈ q.executed ∧ _) ↔ _
    rw [hmem, and_iff_left hnobody]

/-- `stop` drops none of the tasks that were accepted before it if and only if
the workers that are in `take` when it clears `isRunning_` are enough for them. -/
theorem noneDropped_iff {maxsize : Nat} {cb : Bool} {ls : List PoolLabel}
    {called entered returned : ThreadPool} (hrun : threadPool.Run (new maxsize cb) ls called)
    (hstop : StopCall called entered returned) :
    NoneDropped called returned ↔ InReach called entered := by
  obtain @⟨q, q', q'', ls₁, ls₂, hcall, hrun₁, hls₁, hsection, hrun₂, hls₂, hreturn⟩ := hstop
  have hkept : Kept called := run_kept hrun (kept_new maxsize cb)
  have hto : threadPool.Run called (.stop :: ls₁) entered := .cons hcall hrun₁
  have hkeptEntered : Kept entered := run_kept hto hkept
  have hfrom : threadPool.Run entered (.stopSection :: ls₂) q'' := .cons hsection hrun₂
  have howner : q.owner = .stopping false := by
    rw [← Except.ok.inj hcall.2]
  have hdraining : Draining entered q'' :=
    run_draining hrun₂ hls₂ (draining_stopSection hsection (run_stopping hrun₁ hls₁ howner))
  obtain ⟨hinside, hdirect, hran⟩ :=
    hdraining.returned (run_kept hfrom hkeptEntered) hreturn
  -- for a task that was accepted and not executed by its caller
  have htask : ∀ task, called.stageOf task = some .returned → task ∉ called.direct →
      (HasRun returned task ↔
        task ∉ entered.queue_.drop (notEmpty_.inside entered.threads_)) := by
    intro task hc hno
    have hno' : task ∉ q''.direct := by
      rw [run_returned (hto.append hfrom) hc]
      exact hno
    have hbooked := hkept.booked task
    rw [hc] at hbooked
    have hone : called.enqueued.count task = 1 := hbooked.resolve_right fun h => hno h.2
    have henqueued : task ∈ entered.enqueued :=
      run_enqueued hto (List.count_pos_iff.mp (by omega))
    rw [hran, or_iff_right hno']
    exact hdraining.drained.mem_taken hinside hkeptEntered henqueued
  constructor
  · intro hnone task hdrop hc
    by_contra hno
    exact (htask task hc hno).mp (hnone task hc) hdrop
  · intro hreach task hc
    by_cases hno : task ∈ called.direct
    · refine .inl ?_
      rw [hdirect, run_returned (hto.append hfrom) hc]
      exact hno
    · exact (htask task hc hno).mpr fun hdrop => hno (hreach task hdrop hc)

/-- A worker that waits in `take`, and is told of a task just before `stop`. -/
theorem noneDropped_told : ∃ ls called entered returned,
    threadPool.Run (new 0 false) ls called ∧ StopCall called entered returned ∧
    entered.queue_ = [0] ∧ called.stageOf 0 = some .returned ∧ NoneDropped called returned := by
  have hrun : ∃ called, threadPool.Run (new 0 false)
      [.start 1, .init 0 false, .test 0, .take 0 0, .run .lvalue, .enter 0, .enqueue 0 0] called ∧
      called.stageOf 0 = some .returned ∧ ∃ entered returned, StopCall called entered returned ∧
      entered.queue_ = [0] ∧ notEmpty_.inside entered.threads_ = 1 := by
    exact ⟨_, .of_play rfl, rfl, _, _,
      .intro [] [.take 0 0, .execute 0, .finish 0 false, .test 0, .join] ⟨by decide, rfl⟩ (.nil _)
        (by simp) ⟨by decide, rfl⟩ (.of_play rfl) (by simp) ⟨by decide, rfl⟩, rfl, rfl⟩
  obtain ⟨called, hrun, haccepted, entered, returned, hstop, hqueue, hinside⟩ := hrun
  have hreach : InReach called entered := by
    intro task htask
    rw [hqueue, hinside] at htask
    cases htask
  exact ⟨_, called, entered, returned, hrun, hstop, hqueue, haccepted,
    (noneDropped_iff hrun hstop).mpr hreach⟩

/-- The only worker is in its first task when `stop` is called: the second, which
was accepted as well, stays in the queue. -/
theorem not_noneDropped_busy :
    ¬ ∀ maxsize cb n ls called entered returned, 0 < n →
      threadPool.Run ((new maxsize cb).start n) ls called → StopCall called entered returned →
      NoneDropped called returned := by
  intro h
  have hrun : ∃ called, threadPool.Run ((new 0 false).start 1)
      [.run .lvalue, .enter 0, .enqueue 0 0, .run .lvalue, .enter 1, .enqueue 1 0,
        .init 0 false, .test 0, .take 0 0, .execute 0] called ∧
      called.stageOf 1 = some .returned ∧ ∃ entered returned, StopCall called entered returned ∧
      returned.direct = [] ∧ returned.executed = [0] := by
    exact ⟨_, .of_play rfl, rfl, _, _,
      .intro [] [.finish 0 false, .test 0, .join] ⟨by decide, rfl⟩ (.nil _) (by simp)
        ⟨by decide, rfl⟩ (.of_play rfl) (by simp) ⟨by decide, rfl⟩, rfl, rfl⟩
  obtain ⟨called, hrun, haccepted, entered, returned, hstop, hdirect, hexecuted⟩ := hrun
  rcases h 0 false 1 _ called entered returned (by decide) hrun hstop 1 haccepted with hran | hran
  · rw [hdirect] at hran
    cases hran
  · rw [hexecuted] at hran
    simp at hran

end Ham
