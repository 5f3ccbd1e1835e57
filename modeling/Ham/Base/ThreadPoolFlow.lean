import Ham.Base.ThreadPoolOnce

/-!
# The queue of a running `ThreadPool`

Between `start` and `stop` the pool is a bounded FIFO whose two condition
variables lose no wakeup (`Flowing`). `run(Task&&)` notifies behind its section,
so the tasks it has enqueued are covered by its own `notify_one` until then. The
section of `stop` empties both waiting rooms, and with `isRunning_` cleared
nobody goes back.
-/

namespace Ham.ThreadPool

open Lib

/-- The calls of `run(Task&&)` that have enqueued and not yet notified. -/
def notifying (q : ThreadPool) : Nat := q.calls.countP fun c => c.stage = .notifying

structure Flowing (q : ThreadPool) : Prop where
  room : q.isRunning_ = true → 0 < q.maxsize_ → q.queue_.length ≤ q.maxsize_
  /-- Tasks are covered by the workers on their way, -/
  tasks : q.isRunning_ = true → notEmpty_.Covered (q.queue_.length - q.notifying) q.threads_
  /-- and free slots by the calls of `run`. -/
  slots : q.isRunning_ = true → 0 < q.maxsize_ →
    notFull_.Covered (q.maxsize_ - q.queue_.length) q.calls
  stopped : q.isRunning_ = false →
    notEmpty_.count .waiting q.threads_ = 0 ∧ notFull_.count .waiting q.calls = 0

variable {q q' : ThreadPool} {l : PoolLabel}

theorem flowing_start (maxsize : Nat) (cb : Bool) (n : Nat) :
    Flowing ((new maxsize cb).start n) where
  room := by simp [start, new]
  tasks := by
    intro _
    simpa [start, new] using Condition.Covered.zero _
  slots := by
    intro _ _ hwaiting
    simp [start, new, Condition.count] at hwaiting
  stopped := by simp [start, new]

/-- The number of calls that have still to notify, when one call moves. -/
theorem notifying_set {i : Nat} {c d : RunCall} (hi : q.calls[i]? = some c) :
    (q.calls.set i d).countP (fun c => c.stage = .notifying) +
        (if c.stage = .notifying then 1 else 0) =
      q.notifying + (if d.stage = .notifying then 1 else 0) := by
  simpa [notifying] using Condition.countP_set_add
    (p := fun c : RunCall => decide (c.stage = .notifying)) (u := d) hi

theorem CallMove.notifying {c : RunCall} {stage : RunStage} (h : CallMove q c stage) :
    c.stage ≠ .notifying ∧ stage ≠ .notifying := by
  cases h <;> simp

/-- A call waits only in front of a full queue. -/
theorem CallMove.gate {c : RunCall} {stage : RunStage} (h : CallMove q c stage) :
    (notFull_.gate { c with stage := stage } ≠ some .waiting ∧
      notFull_.gate c ≠ some .notified) ∨
    (q.isFull = true ∧ q.isRunning_ = true) := by
  cases h with
  | wait overload hgate hfull hrunning => exact .inr ⟨hfull, hrunning⟩
  | _ => exact .inl (by simp [notFull_])

/-- A worker waits only in front of an empty queue; otherwise it was not a
notified one, or the pool is not running. -/
theorem WorkerMove.gate {t : Worker} {stage : WorkerStage} (h : WorkerMove q t.stage stage) :
    (q.queue_ = [] ∧ q.isRunning_ = true) ∨
    (notEmpty_.gate { t with stage := stage } ≠ some .waiting ∧
      (q.isRunning_ = true → notEmpty_.gate t ≠ some .notified)) := by
  obtain ⟨old, joined⟩ := t
  cases h with
  | wait hgate hqueue hrunning => exact .inl ⟨hqueue, hrunning⟩
  | nothing hgate hqueue hrunning => exact .inr ⟨by simp [notEmpty_], by simp [hrunning]⟩
  | init throws => exact .inr ⟨by cases throws <;> simp [notEmpty_], by simp [notEmpty_]⟩
  | finish task throws => exact .inr ⟨by cases throws <;> simp [notEmpty_], by simp [notEmpty_]⟩
  | _ => exact .inr ⟨by simp [notEmpty_], by simp [notEmpty_]⟩

theorem isFull_iff : q.isFull = true ↔ 0 < q.maxsize_ ∧ q.maxsize_ ≤ q.queue_.length := by
  simp [isFull]

theorem Flowing.call (h : Flowing q) {i : Nat} {c : RunCall} {stage : RunStage}
    (hi : q.calls[i]? = some c) (hmove : CallMove q c stage) :
    Flowing { q with calls := q.calls.set i { c with stage := stage } } := by
  have hnotifying := notifying_set (d := { c with stage := stage }) hi
  obtain ⟨hold, hnew⟩ := hmove.notifying
  rw [if_neg hold, if_neg hnew, Nat.add_zero, Nat.add_zero] at hnotifying
  refine ⟨h.room, ?_, ?_, ?_⟩
  · intro hrunning
    simp only [ThreadPool.notifying, hnotifying]
    exact h.tasks hrunning
  · intro hrunning hmax
    rcases hmove.gate with ⟨hwait, hnotified⟩ | ⟨hfull, -⟩
    · exact (h.slots hrunning hmax).bypass hi hnotified hwait
    · -- the call waits in front of a full queue: there are no free slots
      have hnone : q.maxsize_ - q.queue_.length = 0 :=
        Nat.sub_eq_zero_of_le (isFull_iff.mp hfull).2
      show notFull_.Covered (q.maxsize_ - q.queue_.length) _
      rw [hnone]
      exact .zero _
  · intro hrunning
    obtain ⟨hworkers, hcalls⟩ := h.stopped hrunning
    refine ⟨hworkers, ?_⟩
    rcases hmove.gate with ⟨hwait, -⟩ | ⟨-, hyes⟩
    · exact Condition.count_set_eq_zero hcalls hi hwait
    · have hno : q.isRunning_ = false := hrunning
      rw [hyes] at hno
      cases hno

theorem Flowing.worker (h : Flowing q) {w : Nat} {t : Worker} {stage : WorkerStage}
    (hw : q.threads_[w]? = some t) (hmove : WorkerMove q t.stage stage) :
    Flowing { q with threads_ := q.threads_.set w { t with stage := stage } } := by
  refine ⟨h.room, ?_, h.slots, ?_⟩
  · intro hrunning
    rcases hmove.gate with ⟨hqueue, -⟩ | ⟨hwait, hnotified⟩
    · -- the worker waits in front of an empty queue: there are no tasks
      show notEmpty_.Covered (q.queue_.length - q.notifying) _
      rw [hqueue, List.length_nil, Nat.zero_sub]
      exact .zero _
    · exact (h.tasks hrunning).bypass hw (hnotified hrunning) hwait
  · intro hrunning
    obtain ⟨hworkers, hcalls⟩ := h.stopped hrunning
    refine ⟨?_, hcalls⟩
    rcases hmove.gate with ⟨-, hyes⟩ | ⟨hwait, -⟩
    · have hno : q.isRunning_ = false := hrunning
      rw [hyes] at hno
      cases hno
    · exact Condition.count_set_eq_zero hworkers hw hwait

/-- A task more in the queue, and one call less on its way to it. -/
theorem Flowing.slots_push (h : Flowing q) {i : Nat} {c c' : RunCall}
    (hi : q.calls[i]? = some c) (hc' : notFull_.gate c' ≠ some .waiting)
    (hrunning : q.isRunning_ = true) (hmax : 0 < q.maxsize_) :
    notFull_.Covered (q.maxsize_ - (q.queue_ ++ [i]).length) (q.calls.set i c') := by
  refine ((h.slots hrunning hmax).leave hi hc').mono ?_
  rw [List.length_append, List.length_singleton]
  omega

theorem Flowing.room_push (hroom : q.isRunning_ = true → q.isFull = false)
    (hrunning : q.isRunning_ = true) (hmax : 0 < q.maxsize_) (i : Nat) :
    (q.queue_ ++ [i]).length ≤ q.maxsize_ := by
  have hnot : ¬ (0 < q.maxsize_ ∧ q.maxsize_ ≤ q.queue_.length) := by
    rw [← isFull_iff, hroom hrunning]
    simp
  rw [List.length_append, List.length_singleton]
  omega

/-- A task less in the queue, and one worker less on its way to it; the free slot
is announced. -/
theorem Flowing.pop (h : Flowing q) {w pick task : Nat} {rest : List Nat} {gate : Gate}
    {joined : Bool} (hw : q.threads_[w]? = some ⟨.stands gate, joined⟩)
    (hqueue : q.queue_ = task :: rest) (hpick : notFull_.Picks pick q.calls) :
    Flowing { q with
      threads_ := q.threads_.set w ⟨.holding task, joined⟩
      queue_ := rest, taken := q.taken ++ [task]
      calls := if 0 < q.maxsize_ then notFull_.notifyOne pick q.calls else q.calls } := by
  have hnotifying : (notFull_.notifyOne pick q.calls).countP (fun c => c.stage = .notifying) =
      q.notifying := by
    apply Condition.countP_notifyOne
    intro c hc
    cases hstage : c.stage <;> simp_all [notFull_]
  refine ⟨?_, ?_, ?_, ?_⟩
  · intro hrunning hmax
    have hroom := h.room hrunning hmax
    rw [hqueue, List.length_cons] at hroom
    exact (Nat.le_succ _).trans hroom
  · intro hrunning
    have htasks := (h.tasks hrunning).leave (u := ⟨.holding task, joined⟩) hw
      (by simp [notEmpty_])
    have hsame : ThreadPool.notifying { q with
        threads_ := q.threads_.set w ⟨.holding task, joined⟩, queue_ := rest
        taken := q.taken ++ [task]
        calls := if 0 < q.maxsize_ then notFull_.notifyOne pick q.calls else q.calls } =
        q.notifying := by
      simp only [ThreadPool.notifying]
      split_ifs
      · exact hnotifying
      · rfl
    rw [hqueue, List.length_cons] at htasks
    rw [hsame]
    refine htasks.mono ?_
    show rest.length - q.notifying ≤ rest.length + 1 - q.notifying - 1
    omega
  · intro hrunning hmax
    have hmax : 0 < q.maxsize_ := hmax
    have hslots := (h.slots hrunning hmax).notifyOne hpick
    simp only [if_pos hmax]
    rw [hqueue, List.length_cons] at hslots
    refine hslots.mono ?_
    omega
  · intro hrunning
    obtain ⟨hworkers, hcalls⟩ := h.stopped hrunning
    refine ⟨?_, ?_⟩
    · exact Condition.count_set_eq_zero hworkers hw (by simp [notEmpty_])
    · simp only
      split_ifs
      · exact Condition.count_notifyOne_eq_zero hcalls pick
      · exact hcalls

theorem Flowing.step (h : Flowing q) (hmoves : Moves q l q') (hstart : ∀ n, l ≠ .start n) :
    Flowing q' := by
  cases hmoves with
  | start n hrunning => exact absurd rfl (hstart n)
  | started n => exact h
  | run overload =>
      refine ⟨h.room, ?_, ?_, ?_⟩
      · intro hrunning
        simp only [notifying, List.countP_append]
        exact h.tasks hrunning
      · intro hrunning hmax
        exact (h.slots hrunning hmax).append (by simp [notFull_])
      · intro hrunning
        obtain ⟨hworkers, hcalls⟩ := h.stopped hrunning
        refine ⟨hworkers, ?_⟩
        rw [Condition.count_append, hcalls]
        rfl
  | @direct i overload hi hempty =>
      have hnotifying := notifying_set (d := ⟨overload, .calling⟩) hi
      simp only [reduceCtorEq, if_false, Nat.add_zero] at hnotifying
      refine ⟨h.room, ?_, ?_, ?_⟩
      · intro hrunning
        simp only [notifying, hnotifying]
        exact h.tasks hrunning
      · intro hrunning hmax
        exact (h.slots hrunning hmax).bypass hi (by simp [notFull_]) (by simp [notFull_])
      · intro hrunning
        obtain ⟨hworkers, hcalls⟩ := h.stopped hrunning
        refine ⟨hworkers, ?_⟩
        exact Condition.count_set_eq_zero hcalls hi (by simp [notFull_])
  | call hi hmove hstop => exact h.call hi hmove
  | @pushInside i pick gate hi hgate hroom hpick =>
      have hnotifying := notifying_set (d := ⟨.lvalue, .returned⟩) hi
      simp only [reduceCtorEq, if_false, Nat.add_zero] at hnotifying
      refine ⟨fun hrunning hmax => Flowing.room_push hroom hrunning hmax i, ?_,
        fun hrunning hmax => h.slots_push hi (by simp [notFull_]) hrunning hmax, ?_⟩
      · -- the task and its notification come in one section
        intro hrunning
        refine ((h.tasks hrunning).notifyOne hpick).mono ?_
        show (q.queue_ ++ [i]).length - List.countP _ (q.calls.set i _) ≤ _
        rw [hnotifying, List.length_append, List.length_singleton]
        omega
      · intro hrunning
        obtain ⟨hworkers, hcalls⟩ := h.stopped hrunning
        refine ⟨?_, ?_⟩
        · exact Condition.count_notifyOne_eq_zero hworkers pick
        · exact Condition.count_set_eq_zero hcalls hi (by simp [notFull_])
  | @push i pick gate hi hgate hroom =>
      have hnotifying := notifying_set (d := ⟨.rvalue, .notifying⟩) hi
      simp only [reduceCtorEq, if_false, Nat.add_zero, if_true] at hnotifying
      refine ⟨fun hrunning hmax => Flowing.room_push hroom hrunning hmax i, ?_,
        fun hrunning hmax => h.slots_push hi (by simp [notFull_]) hrunning hmax, ?_⟩
      · -- the task is covered by the `notify_one` to come
        intro hrunning
        refine (h.tasks hrunning).mono ?_
        show (q.queue_ ++ [i]).length - List.countP _ (q.calls.set i _) ≤ _
        rw [hnotifying, List.length_append, List.length_singleton]
        omega
      · intro hrunning
        obtain ⟨hworkers, hcalls⟩ := h.stopped hrunning
        refine ⟨hworkers, ?_⟩
        exact Condition.count_set_eq_zero hcalls hi (by simp [notFull_])
  | @notify i pick overload hi hpick =>
      have hnotifying := notifying_set (d := ⟨overload, .returned⟩) hi
      simp only [reduceCtorEq, if_false, Nat.add_zero, if_true] at hnotifying
      refine ⟨h.room, ?_, ?_, ?_⟩
      · intro hrunning
        simp only [notifying]
        refine ((h.tasks hrunning).notifyOne hpick).mono ?_
        omega
      · intro hrunning hmax
        exact (h.slots hrunning hmax).bypass hi (by simp [notFull_]) (by simp [notFull_])
      · intro hrunning
        obtain ⟨hworkers, hcalls⟩ := h.stopped hrunning
        refine ⟨?_, ?_⟩
        · exact Condition.count_notifyOne_eq_zero hworkers pick
        · exact Condition.count_set_eq_zero hcalls hi (by simp [notFull_])
  | worker hw hmove hstop => exact h.worker hw hmove
  | pop hw hgate hqueue hpick => exact h.pop hw hqueue hpick
  | @execute w task joined hw =>
      refine ⟨h.room, ?_, h.slots, ?_⟩
      · intro hrunning
        exact (h.tasks hrunning).bypass hw (by simp [notEmpty_]) (by simp [notEmpty_])
      · intro hrunning
        obtain ⟨hworkers, hcalls⟩ := h.stopped hrunning
        refine ⟨?_, hcalls⟩
        exact Condition.count_set_eq_zero hworkers hw (by simp [notEmpty_])
  | owner owner hstop => exact ⟨h.room, h.tasks, h.slots, h.stopped⟩
  | stopSection destructor =>
      refine ⟨by simp [ThreadPool.stopSection], by simp [ThreadPool.stopSection],
        by simp [ThreadPool.stopSection], fun _ => ?_⟩
      exact ⟨Condition.count_notifyAll q.threads_, Condition.count_notifyAll q.calls⟩
  | @join next t destructor hnext hdone =>
      have hgate : notEmpty_.gate t = none := by simp [notEmpty_, hdone]
      have hgate' : notEmpty_.gate { t with joined := true } = none := by simp [notEmpty_, hdone]
      refine ⟨h.room, ?_, h.slots, ?_⟩
      · intro hrunning
        exact (h.tasks hrunning).bypass hnext (by simp [hgate]) (by simp [hgate'])
      · intro hrunning
        obtain ⟨hworkers, hcalls⟩ := h.stopped hrunning
        refine ⟨?_, hcalls⟩
        exact Condition.count_set_eq_zero hworkers hnext (by simp [hgate'])

/-! ## Runs from `start` on -/

/-- Nobody calls `start`. -/
def NoStart (ls : List PoolLabel) : Prop := ∀ n, .start n ∉ ls

theorem NoStart.head {ls : List PoolLabel} (h : NoStart (l :: ls)) (n : Nat) : l ≠ .start n :=
  fun heq => h n (heq ▸ List.mem_cons_self)

theorem NoStart.tail {ls : List PoolLabel} (h : NoStart (l :: ls)) : NoStart ls :=
  fun n hn => h n (List.mem_cons_of_mem l hn)

/-- `isRunning_` is cleared in the section of `stop`, and nowhere else. -/
theorem Moves.isRunning (h : Moves q l q') (hstart : ∀ n, l ≠ .start n) :
    q'.isRunning_ = true ↔ q.isRunning_ = true ∧ l ≠ .stopSection := by
  cases h with
  | start n hrunning => exact absurd rfl (hstart n)
  | stopSection destructor => simp [ThreadPool.stopSection]
  | call hi hmove hstop => simp [hstop]
  | worker hw hmove hstop => simp [hstop]
  | owner owner hstop => simp [hstop]
  | _ => simp

theorem run_isRunning {ls : List PoolLabel} (hrun : threadPool.Run q ls q')
    (hstart : NoStart ls) :
    q'.isRunning_ = true ↔ q.isRunning_ = true ∧ .stopSection ∉ ls := by
  induction hrun with
  | nil => simp
  | @cons q q₁ q' l ls hstep _ ih =>
      rw [ih hstart.tail, (moves_of_step hstep).isRunning hstart.head, List.mem_cons, not_or,
        and_assoc]
      tauto

theorem run_flowing {ls : List PoolLabel} (hrun : threadPool.Run q ls q') (hstart : NoStart ls)
    (h : Flowing q) : Flowing q' := by
  induction hrun with
  | nil => exact h
  | cons hstep _ ih => exact ih hstart.tail (h.step (moves_of_step hstep) hstart.head)

theorem Moves.maxsize (h : Moves q l q') : q'.maxsize_ = q.maxsize_ := by
  cases h <;> rfl

/-- On a pool with threads every call of `run` is guarded. -/
theorem run_orderly {ls : List PoolLabel} (hrun : threadPool.Run q ls q')
    (hthreads : q.threads_ ≠ []) (h : Orderly q) : Orderly q' ∧ q'.threads_ ≠ [] := by
  apply hrun.invariant (I := fun q => Orderly q ∧ q.threads_ ≠ []) ⟨h, hthreads⟩
  rintro q l q' ⟨h, hthreads⟩ hstep
  have hguard : q.Guarded l := by
    cases l with
    | enter i => exact fun _ => hthreads
    | _ => trivial
  exact ⟨h.step hguard hstep, fun hempty => hthreads ((moves_of_step hstep).threads hempty)⟩

theorem orderly_start (maxsize : Nat) (cb : Bool) (n : Nat) :
    Orderly ((new maxsize cb).start n) :=
  (orderly_new maxsize cb).step (l := .start n) trivial ⟨rfl, rfl⟩

theorem start_threads (maxsize : Nat) (cb : Bool) {n : Nat} (hn : 0 < n) :
    ((new maxsize cb).start n).threads_ ≠ [] := by
  simp [start, new]
  omega

/-- Nothing is enqueued twice, and so nothing is taken twice. -/
theorem Orderly.taken_nodup (h : Orderly q) : q.taken.Nodup := by
  rw [List.nodup_iff_count_le_one]
  intro task
  have hgiven : q.direct.count task + q.enqueued.count task ≤ 1 := h.once task
  rw [← h.order, List.count_append] at hgiven
  omega

end Ham.ThreadPool

namespace Ham

open Lib ThreadPool

/-- The queue of a pool with `n` workers and room for `m` tasks, under every
interleaving of the sections, waits and notifications. Up to the section of
`stop` the queue keeps its bound, and neither a worker nor a call of `run` waits
un-notified while there is more to be had than others have been told of.
Tasks are taken in the order in which they were enqueued, each by one worker at
most. Behind the section of `stop` nobody waits. -/
theorem pool_discipline {m n : Nat} {cb : Bool} {ls : List PoolLabel} {q : ThreadPool}
    (hm : 0 < m) (hn : 0 < n) (hrun : threadPool.Run ((new m cb).start n) ls q)
    (hstart : NoStart ls) :
    (.stopSection ∉ ls → q.queue_.length ≤ m) ∧
    q.taken ++ q.queue_ = q.enqueued ∧ q.taken.Nodup ∧
    (∀ task, q.executed.count task + q.held task ≤ 1) ∧
    (.stopSection ∉ ls → 0 < notEmpty_.count .waiting q.threads_ →
      q.queue_.length ≤ notEmpty_.count .notified q.threads_ + q.notifying) ∧
    (.stopSection ∉ ls → 0 < notFull_.count .waiting q.calls →
      m - q.queue_.length ≤ notFull_.count .notified q.calls) ∧
    (.stopSection ∈ ls →
      notEmpty_.count .waiting q.threads_ = 0 ∧ notFull_.count .waiting q.calls = 0) := by
  have hflowing := run_flowing hrun hstart (flowing_start m cb n)
  have hrunning := run_isRunning hrun hstart
  obtain ⟨horderly, -⟩ := run_orderly hrun (start_threads m cb hn) (orderly_start m cb n)
  have hmax : q.maxsize_ = m :=
    hrun.invariant (I := fun q => q.maxsize_ = m) rfl
      fun _ _ _ h hstep => (moves_of_step hstep).maxsize.trans h
  have hstarted : ((new m cb).start n).isRunning_ = true := rfl
  subst hmax
  refine ⟨?_, horderly.order, horderly.taken_nodup, ?_, ?_, ?_, ?_⟩
  · intro hno
    exact hflowing.room (hrunning.mpr ⟨hstarted, hno⟩) hm
  · intro task
    rw [horderly.taken_held task]
    exact List.nodup_iff_count_le_one.mp horderly.taken_nodup task
  · intro hno hwaiting
    have htasks := hflowing.tasks (hrunning.mpr ⟨hstarted, hno⟩) hwaiting
    omega
  · intro hno hwaiting
    exact hflowing.slots (hrunning.mpr ⟨hstarted, hno⟩) hm hwaiting
  · intro hyes
    apply hflowing.stopped
    have hnot : ¬ q.isRunning_ = true := fun h => (hrunning.mp h).2 hyes
    simpa using hnot

/-- A worker that waits, and is told of a task. -/
theorem pool_discipline_told : ∃ ls q, threadPool.Run ((new 1 false).start 1) ls q ∧
    q.queue_ = [0] ∧ notEmpty_.count .notified q.threads_ = 1 ∧ q.queue_.length ≤ 1 ∧
    (0 < notEmpty_.count .waiting q.threads_ →
      q.queue_.length ≤ notEmpty_.count .notified q.threads_ + q.notifying) := by
  let ls : List PoolLabel := [.init 0 false, .test 0, .take 0 0, .run .rvalue, .enter 0,
    .enqueue 0 0, .notify 0 0]
  have hrun : ∃ q, threadPool.Run ((new 1 false).start 1) ls q ∧ q.queue_ = [0] ∧
      notEmpty_.count .notified q.threads_ = 1 := by
    exact ⟨_, .of_play rfl, rfl, rfl⟩
  obtain ⟨q, hrun, hqueue, hnotified⟩ := hrun
  have hstart : NoStart ls := by simp [NoStart, ls]
  have hno : .stopSection ∉ ls := by simp [ls]
  obtain ⟨hroom, -, -, -, htold, -⟩ :=
    pool_discipline (by decide) (by decide) hrun hstart
  exact ⟨ls, q, hrun, hqueue, hnotified, hroom hno, htold hno⟩

end Ham
