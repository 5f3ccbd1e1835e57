import Ham.Base.ThreadPoolLate

/-!
# Every task at most once

A task goes to its caller's thread or into the queue, and from the queue to one
worker; `Orderly` keeps the books. The one step that breaks them is a call of
`run(Task&&)` that finds no threads: it executes its task and enqueues it all
the same, where `run(const Task&)` has an `else`. Without it every task is
executed at most once, nobody blocks on a pool that has no workers, and it does
not show which overload is called (`atMostOnce`).
-/

namespace Ham.ThreadPool

open Lib

/-- The call has executed its task, or has handed it on. -/
def passed : RunStage → Bool
  | .called | .stands _ => false
  | .calling | .notifying | .returned | .threw => true

/-- The call is on its way into the queue. -/
def queueing : RunStage → Bool
  | .stands _ | .notifying => true
  | .called | .calling | .returned | .threw => false

/-- `run(Task&&)` finds threads. -/
def Guarded (q : ThreadPool) : PoolLabel → Prop
  | .enter i => q.calls[i]? = some ⟨.rvalue, .called⟩ → q.threads_ ≠ []
  | _ => True

instance (q : ThreadPool) (l : PoolLabel) : Decidable (q.Guarded l) :=
  match l with
  | .enter i =>
      inferInstanceAs (Decidable (q.calls[i]? = some ⟨.rvalue, .called⟩ → q.threads_ ≠ []))
  | .start _ | .run _ | .finishCall _ _ | .enqueue _ _ | .notify _ _ | .wakeCall _ | .init _ _
  | .test _ | .take _ _ | .execute _ | .finish _ _ | .wakeWorker _ | .stop | .stopSection | .join
  | .stopReturn | .destroy => .isTrue trivial

/-- How often a task has been given to its caller's thread or to the queue. -/
def given (q : ThreadPool) (task : Nat) : Nat := q.direct.count task + q.enqueued.count task

/-- How many workers are about to execute a task. -/
def held (q : ThreadPool) (task : Nat) : Nat := q.threads_.countP fun t => t.stage = .holding task

structure Orderly (q : ThreadPool) : Prop where
  order : q.taken ++ q.queue_ = q.enqueued
  once : ∀ task, q.given task ≤ 1
  given_passed : ∀ task, q.given task ≠ 0 → ∃ c, q.calls[task]? = some c ∧ passed c.stage = true
  taken_held : ∀ task, q.executed.count task + q.held task = q.taken.count task
  /-- Only `run(const Task&)` executes its task by itself, -/
  calling : ∀ c ∈ q.calls, c.stage = .calling → c.overload = .lvalue
  /-- and only with threads does a call get to the queue. -/
  workless : q.threads_ = [] → ∀ c ∈ q.calls, queueing c.stage = false

variable {q q' : ThreadPool} {l : PoolLabel}

theorem orderly_new (maxsize : Nat) (cb : Bool) : Orderly (new maxsize cb) where
  order := rfl
  once := by simp [given, new]
  given_passed := by simp [given, new]
  taken_held := by simp [held, new]
  calling := by simp [new]
  workless := by simp [new]

/-! ## Threads -/

/-- A worker that neither takes nor executes does not change what is held. -/
theorem WorkerMove.held {stage stage' : WorkerStage} (h : WorkerMove q stage stage')
    (task : Nat) : stage ≠ .holding task ∧ stage' ≠ .holding task := by
  cases h with
  | init throws => cases throws <;> simp
  | finish task' throws => cases throws <;> simp
  | _ => simp

/-- The number of workers that hold a task, when one worker moves. -/
theorem held_set {w : Nat} {t u : Worker} (hw : q.threads_[w]? = some t) (task : Nat) :
    (q.threads_.set w u).countP (fun t => t.stage = .holding task) +
        (if t.stage = .holding task then 1 else 0) =
      q.held task + (if u.stage = .holding task then 1 else 0) := by
  simpa [held] using Condition.countP_set_add
    (p := fun t : Worker => decide (t.stage = .holding task)) (u := u) hw

/-- What a worker takes it holds, and what it executes it has held. -/
theorem Moves.taken_held (h : Moves q l q') (task : Nat) :
    q'.executed.count task + q'.held task + q.taken.count task =
      q.executed.count task + q.held task + q'.taken.count task := by
  have hnotify : ∀ t : Worker, notEmpty_.gate t = some .waiting →
      decide ((notEmpty_.pass .notified t).stage = .holding task) =
        decide (t.stage = .holding task) := by
    intro t ht
    cases hstage : t.stage <;> simp_all [notEmpty_]
  cases h with
  | start n hrunning => simp [held, List.countP_append, List.countP_replicate]
  | pushInside hi hgate hroom hpick =>
      simp only [held]
      rw [Condition.countP_notifyOne hnotify]
  | notify hi hpick =>
      simp only [held]
      rw [Condition.countP_notifyOne hnotify]
  | stopSection destructor =>
      simp only [held, ThreadPool.stopSection]
      rw [Condition.countP_notifyAll hnotify]
  | @worker w t stage l hw hmove hstop =>
      obtain ⟨hold, hnew⟩ := hmove.held task
      have hcount := held_set (u := { t with stage := stage }) hw task
      rw [if_neg hold, if_neg hnew, Nat.add_zero, Nat.add_zero] at hcount
      simp only [held, hcount]
  | @pop w pick taken rest gate joined hw hgate hqueue hpick =>
      have hcount := held_set (u := ⟨.holding taken, joined⟩) hw task
      simp only [reduceCtorEq, if_false, Nat.add_zero, WorkerStage.holding.injEq] at hcount
      simp only [held, hcount, List.count_append, List.count_singleton, beq_iff_eq]
      omega
  | @execute w executed joined hw =>
      have hcount := held_set (u := ⟨.executing executed, joined⟩) hw task
      simp only [reduceCtorEq, if_false, Nat.add_zero, WorkerStage.holding.injEq] at hcount
      simp only [held, List.count_append, List.count_singleton, beq_iff_eq] at hcount ⊢
      omega
  | @join next t destructor hnext hdone =>
      have hcount := held_set (u := { t with joined := true }) hnext task
      simp only [hdone, reduceCtorEq, if_false, Nat.add_zero] at hcount
      simp only [held, hdone, hcount]
  | _ => rfl

/-! ## Calls -/

/-- What is kept of each call. -/
structure CallOk (q : ThreadPool) (c : RunCall) : Prop where
  calling : c.stage = .calling → c.overload = .lvalue
  workless : q.threads_ = [] → queueing c.stage = false

/-- A notification keeps it: a call that waits is in the queue's way already. -/
theorem CallOk.notified {c : RunCall} (h : CallOk q c) (hc : notFull_.gate c = some .waiting) :
    CallOk q (notFull_.pass .notified c) where
  calling := by simp [notFull_]
  workless := by
    intro hempty
    have hno := h.workless hempty
    cases hstage : c.stage <;> simp_all [notFull_, queueing]

theorem CallMove.ok {c : RunCall} {stage : RunStage} (h : CallMove q c stage) (hc : CallOk q c) :
    CallOk q { c with stage := stage } ∧ (passed c.stage = true → passed stage = true) := by
  cases h with
  | enter overload hthreads =>
      exact ⟨⟨by simp, fun hempty => absurd hempty hthreads⟩, by simp [passed]⟩
  | throw overload => exact ⟨⟨by simp, fun _ => rfl⟩, fun _ => rfl⟩
  | done => exact ⟨⟨by simp, fun _ => rfl⟩, fun _ => rfl⟩
  | goOn => cases hc.calling rfl
  | wait overload hgate hfull hrunning =>
      exact ⟨⟨by simp, hc.workless⟩, by simp [passed]⟩
  | wake overload => exact ⟨⟨by simp, hc.workless⟩, by simp [passed]⟩

theorem Moves.ok (h : Moves q l q') (hguard : q.Guarded l) (hok : ∀ c ∈ q.calls, CallOk q c) :
    ∀ c ∈ q'.calls, CallOk q' c := by
  have hthreads := h.threads
  -- what holds with the threads before the step holds with those behind it
  have hlift : ∀ c, CallOk q c → CallOk q' c :=
    fun c hc => ⟨hc.calling, fun hempty => hc.workless (hthreads hempty)⟩
  suffices hcalls : ∀ c ∈ q'.calls, CallOk q c from fun c hc => hlift c (hcalls c hc)
  have hset : ∀ {i : Nat} {c : RunCall}, CallOk q c → ∀ d ∈ q.calls.set i c, CallOk q d := by
    intro i c hc d hd
    rcases List.mem_or_eq_of_mem_set hd with hmem | rfl
    · exact hok d hmem
    · exact hc
  cases h with
  | run overload =>
      intro c hc
      rcases List.mem_append.mp hc with hmem | hmem
      · exact hok c hmem
      · rw [List.mem_singleton.mp hmem]
        exact ⟨by simp, fun _ => rfl⟩
  | @direct i overload hi hempty =>
      refine hset ⟨fun _ => ?_, fun _ => rfl⟩
      cases overload with
      | lvalue => rfl
      | rvalue => exact absurd hempty (hguard hi)
  | call hi hmove hstop => exact hset (hmove.ok (hok _ (List.mem_of_getElem? hi))).1
  | pushInside hi hgate hroom hpick => exact hset ⟨by simp, fun _ => rfl⟩
  | push hi hgate hroom =>
      exact hset ⟨by simp, fun hempty => (hok _ (List.mem_of_getElem? hi)).workless hempty⟩
  | notify hi hpick => exact hset ⟨by simp, fun _ => rfl⟩
  | pop hw hgate hqueue hpick =>
      intro c hc
      simp only at hc
      split_ifs at hc
      · rcases Condition.mem_notifyOne hc with hmem | ⟨d, hmem, hwaiting, rfl⟩
        · exact hok c hmem
        · exact (hok d hmem).notified hwaiting
      · exact hok c hc
  | stopSection destructor =>
      intro c hc
      rcases Condition.mem_notifyAll hc with hmem | ⟨d, hmem, hwaiting, rfl⟩
      · exact hok c hmem
      · exact (hok d hmem).notified hwaiting
  | _ => exact hok

/-- A call that has passed stays so. -/
theorem Moves.passed (h : Moves q l q') (hok : ∀ c ∈ q.calls, CallOk q c) {task : Nat}
    (hc : ∃ c, q.calls[task]? = some c ∧ passed c.stage = true) :
    ∃ c, q'.calls[task]? = some c ∧ ThreadPool.passed c.stage = true := by
  obtain ⟨c, hc, hpassed⟩ := hc
  have hset : ∀ {i : Nat} {d d' : RunCall}, q.calls[i]? = some d →
      (ThreadPool.passed d.stage = true → ThreadPool.passed d'.stage = true) →
      ∃ c, (q.calls.set i d')[task]? = some c ∧ ThreadPool.passed c.stage = true := by
    intro i d d' hi hd
    obtain ⟨hlt, -⟩ := List.getElem?_eq_some_iff.mp hi
    by_cases htask : i = task
    · subst htask
      rw [hi] at hc
      cases hc
      exact ⟨d', List.getElem?_set_self hlt, hd hpassed⟩
    · exact ⟨c, by rw [List.getElem?_set_ne htask, hc], hpassed⟩
  have hwaiting : notFull_.gate c ≠ some .waiting := by
    cases hstage : c.stage <;> simp_all [notFull_, ThreadPool.passed]
  cases h with
  | run overload =>
      refine ⟨c, ?_, hpassed⟩
      rw [List.getElem?_append_left (List.getElem?_eq_some_iff.mp hc).1, hc]
  | direct hi hempty => exact hset hi fun _ => rfl
  | call hi hmove hstop => exact hset hi (hmove.ok (hok _ (List.mem_of_getElem? hi))).2
  | pushInside hi hgate hroom hpick => exact hset hi fun _ => rfl
  | push hi hgate hroom => exact hset hi fun _ => rfl
  | notify hi hpick => exact hset hi fun _ => rfl
  | pop hw hgate hqueue hpick =>
      refine ⟨c, ?_, hpassed⟩
      simp only
      split_ifs
      · exact Condition.getElem?_notifyOne hc hwaiting
      · exact hc
  | stopSection destructor => exact ⟨c, Condition.getElem?_notifyAll hc hwaiting, hpassed⟩
  | _ => exact ⟨c, hc, hpassed⟩

/-- A step gives a task away only for a call that has not passed, and then it
has. -/
theorem Moves.given (h : Moves q l q') (task : Nat) :
    q'.given task = q.given task ∨
    (q'.given task = q.given task + 1 ∧
      (∃ c, q.calls[task]? = some c ∧ ThreadPool.passed c.stage = false) ∧
      ∃ c, q'.calls[task]? = some c ∧ ThreadPool.passed c.stage = true) := by
  -- the three places where a task is handed on, with the call before and behind
  have hgive : ∀ {i : Nat} {c c' : RunCall}, q.calls[i]? = some c →
      ThreadPool.passed c.stage = false → ThreadPool.passed c'.stage = true →
      q'.calls = q.calls.set i c' → q'.given task = q.given task + (if i = task then 1 else 0) →
      q'.given task = q.given task ∨ (q'.given task = q.given task + 1 ∧
        (∃ c, q.calls[task]? = some c ∧ ThreadPool.passed c.stage = false) ∧
        ∃ c, q'.calls[task]? = some c ∧ ThreadPool.passed c.stage = true) := by
    intro i c c' hi hc hc' hcalls hgiven
    by_cases htask : i = task
    · subst htask
      rw [if_pos rfl] at hgiven
      obtain ⟨hlt, -⟩ := List.getElem?_eq_some_iff.mp hi
      refine .inr ⟨hgiven, ⟨c, hi, hc⟩, c', ?_, hc'⟩
      rw [hcalls, List.getElem?_set_self hlt]
    · rw [if_neg htask] at hgiven
      exact .inl hgiven
  cases h with
  | direct hi hempty =>
      refine hgive hi rfl rfl rfl ?_
      simp only [ThreadPool.given, List.count_append, List.count_singleton, beq_iff_eq]
      omega
  | pushInside hi hgate hroom hpick =>
      refine hgive hi rfl rfl rfl ?_
      simp only [ThreadPool.given, List.count_append, List.count_singleton, beq_iff_eq]
      omega
  | push hi hgate hroom =>
      refine hgive hi rfl rfl rfl ?_
      simp only [ThreadPool.given, List.count_append, List.count_singleton, beq_iff_eq]
      omega
  | _ => exact .inl rfl

/-- Tasks leave the queue in the order in which they came. -/
theorem Moves.order (h : Moves q l q') (horder : q.taken ++ q.queue_ = q.enqueued) :
    q'.taken ++ q'.queue_ = q'.enqueued := by
  cases h with
  | pushInside hi hgate hroom hpick =>
      show q.taken ++ (q.queue_ ++ [_]) = q.enqueued ++ [_]
      rw [← List.append_assoc, horder]
  | push hi hgate hroom =>
      show q.taken ++ (q.queue_ ++ [_]) = q.enqueued ++ [_]
      rw [← List.append_assoc, horder]
  | pop hw hgate hqueue hpick =>
      rw [hqueue] at horder
      simpa using horder
  | _ => exact horder

theorem Orderly.ok (h : Orderly q) : ∀ c ∈ q.calls, CallOk q c :=
  fun c hc => ⟨h.calling c hc, fun hempty => h.workless hempty c hc⟩

theorem Orderly.step (h : Orderly q) (hguard : q.Guarded l) (hstep : threadPool.Step q l q') :
    Orderly q' := by
  have hmoves := moves_of_step hstep
  have hok := hmoves.ok hguard h.ok
  refine ⟨hmoves.order h.order, ?_, ?_, ?_, fun c hc => (hok c hc).calling,
    fun hempty c hc => (hok c hc).workless hempty⟩
  · intro task
    have hone := h.once task
    rcases hmoves.given task with hsame | ⟨hmore, ⟨c, hc, hnot⟩, -⟩
    · omega
    · -- the call had not passed, so its task had not been given away
      have hzero : q.given task = 0 := by
        by_contra hne
        obtain ⟨d, hd, hpassed⟩ := h.given_passed task hne
        rw [hc] at hd
        cases hd
        rw [hnot] at hpassed
        cases hpassed
      omega
  · intro task hne
    rcases hmoves.given task with hsame | ⟨-, -, hpassed⟩
    · rw [hsame] at hne
      exact hmoves.passed h.ok (h.given_passed task hne)
    · exact hpassed
  · intro task
    have hheld := hmoves.taken_held task
    have hbefore := h.taken_held task
    omega

end Ham.ThreadPool

namespace Ham

open Lib ThreadPool

/-- What a pool owes to its callers: each task is executed at most once, one
that its caller has executed is not in the queue, nobody waits on a pool
without workers, and where there are workers it does not matter which overload
is called: the same happens in the same order, notifications and returns
included, and where a notification comes late it shows in nothing else. -/
structure AtMostOnce (q : ThreadPool) : Prop where
  once : ∀ task, q.direct.count task + q.executed.count task ≤ 1
  notQueued : ∀ task ∈ q.direct, task ∉ q.queue_
  unblocked : q.threads_ = [] → ∀ c ∈ q.calls, notFull_.gate c ≠ some .waiting
  alike : q.threads_ ≠ [] → OverloadsAgree q
  late : q.threads_ ≠ [] → OverloadsFollow q

theorem ThreadPool.Orderly.owed {q : ThreadPool} (h : Orderly q) : AtMostOnce q := by
  have hcount : ∀ task, q.taken.count task + q.queue_.count task = q.enqueued.count task := by
    intro task
    rw [← h.order, List.count_append]
  refine ⟨?_, ?_, ?_, overloadsAgree, overloadsFollow⟩
  · intro task
    have hgiven : q.direct.count task + q.enqueued.count task ≤ 1 := h.once task
    have hheld := h.taken_held task
    have := hcount task
    omega
  · intro task hdirect hqueue
    have hgiven : q.direct.count task + q.enqueued.count task ≤ 1 := h.once task
    have hone := List.count_pos_iff.mpr hdirect
    have hone' := List.count_pos_iff.mpr hqueue
    have := hcount task
    omega
  · intro hempty c hc hwaiting
    have hno := h.workless hempty c hc
    cases hstage : c.stage <;> simp_all [notFull_, queueing]

theorem reachable_orderly {maxsize : Nat} {cb : Bool} {ls : List PoolLabel} {q : ThreadPool}
    (hrun : (threadPool.restrict Guarded).Run (new maxsize cb) ls q) : Orderly q := by
  apply hrun.invariant (orderly_new maxsize cb)
  intro q l q' h hstep
  obtain ⟨hstep, hguard⟩ := System.restrict_step.mp hstep
  exact h.step hguard hstep

/-- Every run in which `run(Task&&)` is not called on a pool without threads:
before `start`, or behind `start(0)`. -/
theorem atMostOnce {maxsize : Nat} {cb : Bool} {ls : List PoolLabel} {q : ThreadPool}
    (hrun : (threadPool.restrict Guarded).Run (new maxsize cb) ls q) : AtMostOnce q :=
  (reachable_orderly hrun).owed

/-- One task executed by its caller, and one by a worker. -/
theorem atMostOnce_both : ∃ ls q, (threadPool.restrict Guarded).Run (new 0 false) ls q ∧
    q.direct = [0] ∧ q.executed = [1] ∧ AtMostOnce q := by
  have hrun : ∃ q, (threadPool.restrict Guarded).Run (new 0 false)
      [.run .lvalue, .enter 0, .finishCall 0 false, .start 1, .run .rvalue, .enter 1,
        .enqueue 1 0, .notify 1 0, .init 0 false, .test 0, .take 0 0, .execute 0] q ∧
      q.direct = [0] ∧ q.executed = [1] := by
    exact ⟨_, .of_play rfl, rfl, rfl⟩
  obtain ⟨q, hrun, hdirect, hexecuted⟩ := hrun
  exact ⟨_, q, hrun, hdirect, hexecuted, atMostOnce hrun⟩

/-- `run(Task&&)` before `start`: the caller executes the task, and so does the
first worker. -/
theorem not_atMostOnce_beforeStart :
    ¬ ∀ maxsize cb ls q, threadPool.Run (new maxsize cb) ls q → AtMostOnce q := by
  intro h
  have hrun : ∃ q, threadPool.Run (new 0 false)
      [.run .rvalue, .enter 0, .finishCall 0 false, .enqueue 0 0, .notify 0 0, .start 1,
        .init 0 false, .test 0, .take 0 0, .execute 0] q ∧ q.direct = [0] ∧ q.executed = [0] := by
    exact ⟨_, .of_play rfl, rfl, rfl⟩
  obtain ⟨q, hrun, hdirect, hexecuted⟩ := hrun
  have htwice := (h 0 false _ q hrun).once 0
  rw [hdirect, hexecuted] at htwice
  exact absurd htwice (by decide)

end Ham
