import Ham.Base.ThreadPoolFlow

/-!
# Tasks that throw

The `catch` clauses of `threadFunc` stand outside of its loop: an exception is
caught and printed, and the worker is gone. Between `start` and `stop` the
workers are all there if and only if nothing throws on them
(`throwing_task_kills`); `start` does not bring back the ones that are gone, and
with the last of them the queue is stuck.
-/

namespace Ham.ThreadPool

open Lib

variable {q q' : ThreadPool} {l : PoolLabel}

/-- A task or the init callback throws, on a worker. -/
def Throws : PoolLabel → Prop
  | .init _ throws | .finish _ throws => throws = true
  | _ => False

/-- No worker has left its loop. -/
def AllWorking (q : ThreadPool) : Prop := ∀ t ∈ q.threads_, t.stage ≠ .done

/-- One of the workers goes on to a stage. -/
theorem AllWorking.set (h : AllWorking q) {w : Nat} {t : Worker} (hw : q.threads_[w]? = some t)
    (u : Worker) : (∀ t ∈ q.threads_.set w u, t.stage ≠ .done) ↔ u.stage ≠ .done := by
  constructor
  · intro hall
    exact hall u (Condition.mem_set_self hw)
  · intro hu t' ht'
    rcases List.mem_or_eq_of_mem_set ht' with hmem | rfl
    · exact h t' hmem
    · exact hu

theorem AllWorking.notifyOne (h : AllWorking q) (pick : Nat) :
    ∀ t ∈ notEmpty_.notifyOne pick q.threads_, t.stage ≠ .done := by
  intro t ht
  rcases notEmpty_.mem_notifyOne ht with hmem | ⟨s, -, -, rfl⟩
  · exact h t hmem
  · simp [notEmpty_]

theorem destroyMembers_threads (h : q.destroyMembers = .ok q') : q'.threads_ = q.threads_ := by
  unfold destroyMembers at h
  split at h
  · cases h
    rfl
  · cases h

/-- With all workers at work, a step between `start` and `stop` leaves them
there if and only if it is no exception. -/
theorem allWorking_step (hst : threadPool.Step q l q') (hrunning : q.isRunning_ = true)
    (hstop : l ≠ .stopSection) (h : AllWorking q) : ¬ Throws l ↔ AllWorking q' := by
  obtain ⟨hen, hstep⟩ := hst
  cases l with
  | init w throws =>
      obtain ⟨⟨joined, hw⟩, -⟩ := hen
      rw [← onWorker_ok hw hstep]
      refine Iff.trans ?_ (h.set hw _).symm
      cases throws <;> simp [Throws]
  | finish w throws =>
      obtain ⟨task, joined, hw⟩ := hen
      rw [← onWorker_ok hw hstep]
      refine Iff.trans ?_ (h.set hw _).symm
      cases throws <;> simp [Throws]
  | start n =>
      cases hstep
      refine iff_of_true id ?_
      rw [ThreadPool.start, if_pos hrunning]
      exact h
  | run overload =>
      cases hstep
      exact iff_of_true id h
  | enter i =>
      refine iff_of_true id (onCall_keeps hstep h fun c => ?_)
      unfold ThreadPool.enter
      split <;> exact h
  | finishCall i throws => exact iff_of_true id (onCall_keeps hstep h fun _ => h)
  | enqueue i pick =>
      refine iff_of_true id (onCall_keeps hstep h fun c => ?_)
      unfold ThreadPool.enqueue
      split
      · exact h
      · split
        · exact h.notifyOne pick
        · exact h
  | notify i pick => exact iff_of_true id (onCall_keeps hstep h fun _ => h.notifyOne pick)
  | wakeCall i => exact iff_of_true id (onCall_keeps hstep h fun _ => h)
  | test w =>
      obtain ⟨joined, hw⟩ := hen
      rw [← onWorker_ok hw hstep, hrunning]
      exact iff_of_true id ((h.set hw _).mpr (by simp))
  | take w pick =>
      obtain ⟨⟨gate, joined, hw, -⟩, -⟩ := hen
      rw [← onWorker_ok hw hstep, ThreadPool.take, hrunning]
      refine iff_of_true id ?_
      split
      · exact (h.set hw _).mpr (by simp)
      · exact (h.set hw _).mpr (by simp)
  | execute w =>
      obtain ⟨task, joined, hw⟩ := hen
      rw [← onWorker_ok hw hstep]
      exact iff_of_true id ((h.set hw _).mpr (by simp))
  | wakeWorker w =>
      obtain ⟨joined, hw⟩ := hen
      rw [← onWorker_ok hw hstep]
      exact iff_of_true id ((h.set hw _).mpr (by simp))
  | stop =>
      cases hstep
      exact iff_of_true id h
  | stopSection => exact absurd rfl hstop
  | join =>
      obtain ⟨destructor, next, t, howner, hnext, hdone⟩ := hen
      exact absurd hdone (h t (List.mem_of_getElem? hnext))
  | stopReturn =>
      obtain ⟨destructor, howner⟩ := hen
      simp only [threadPool, ThreadPool.step, howner] at hstep
      refine iff_of_true id ?_
      cases destructor with
      | true =>
          rw [AllWorking, destroyMembers_threads hstep]
          exact h
      | false =>
          cases hstep
          exact h
  | destroy =>
      simp only [threadPool, ThreadPool.step, ThreadPool.destroy, hrunning] at hstep
      cases hstep
      exact iff_of_true id h

/-- Between `start` and `stop` nobody comes to `threads_` or leaves it. -/
theorem Moves.threads_length (h : Moves q l q') (hrunning : q.isRunning_ = true)
    (hstop : l ≠ .stopSection) :
    q'.isRunning_ = true ∧ q'.threads_.length = q.threads_.length := by
  cases h with
  | start n hstopped =>
      rw [hrunning] at hstopped
      cases hstopped
  | stopSection destructor => exact absurd rfl hstop
  | _ => exact ⟨hrunning, by simp⟩

/-- The pool from `start` up to the section of `stop`. -/
def beforeStop : System ThreadPool PoolLabel PoolFault :=
  threadPool.restrict fun _ l => l ≠ .stopSection

/-- `isRunning_` is set, and there are `n` threads. -/
def Started (n : Nat) (q : ThreadPool) : Prop := q.isRunning_ = true ∧ q.threads_.length = n

theorem started_start (maxsize : Nat) (cb : Bool) (n : Nat) :
    Started n ((new maxsize cb).start n) := by
  simp [Started, start, new]

theorem Started.step {n : Nat} (h : Started n q) (hst : beforeStop.Step q l q') :
    Started n q' := by
  obtain ⟨hst, hstop⟩ := System.restrict_step.mp hst
  obtain ⟨hrunning, hlength⟩ := (moves_of_step hst).threads_length h.1 hstop
  exact ⟨hrunning, hlength.trans h.2⟩

theorem allWorking_start (maxsize : Nat) (cb : Bool) (n : Nat) :
    AllWorking ((new maxsize cb).start n) := by
  intro t ht
  obtain ⟨-, rfl⟩ : n ≠ 0 ∧ t = {} := by simpa [start, new] using ht
  simp

/-- A run of the pool without an exception is one through states with all
workers at work. -/
theorem allWorking_run {n : Nat} {ls : List PoolLabel} (hrun : beforeStop.Run q ls q')
    (hstarted : Started n q) (hworking : AllWorking q) :
    (∀ l ∈ ls, ¬ Throws l) ↔
      ∀ pre post q₁, ls = pre ++ post → beforeStop.Run q pre q₁ → AllWorking q₁ := by
  have hiff := hrun.restrict_iff (C := fun _ l => ¬ Throws l) hstarted hworking
    (fun _ _ _ h hst => h.step hst) fun q l q' h hq hst => by
      obtain ⟨hst, hstop⟩ := System.restrict_step.mp hst
      exact allWorking_step hst h.1 hstop hq
  rw [← hiff, System.run_restrict_labels]
  exact ⟨fun hnone => ⟨hrun, hnone⟩, fun h => h.2⟩

end Ham.ThreadPool

namespace Ham

open Lib ThreadPool

/-- Between `start(n)` and the section of `stop`, the `n` workers are in their
loops in every state on the way if and only if no task and no init callback
has thrown on one of them; and then no task is in the queue with all workers
gone. -/
theorem throwing_task_kills {m n : Nat} {cb : Bool} (hn : 0 < n) {ls : List PoolLabel}
    {q : ThreadPool} (hrun : threadPool.Run ((new m cb).start n) ls q)
    (hstop : .stopSection ∉ ls) :
    ((∀ l ∈ ls, ¬ Throws l) ↔
      ∀ pre post q', ls = pre ++ post → threadPool.Run ((new m cb).start n) pre q' →
        q'.threads_.length = n ∧ ∀ t ∈ q'.threads_, t.stage ≠ .done) ∧
    ((∀ l ∈ ls, ¬ Throws l) → ¬ (q.queue_ ≠ [] ∧ ∀ t ∈ q.threads_, t.stage = .done)) := by
  have hbefore : ∀ l ∈ ls, l ≠ .stopSection := fun l hl heq => hstop (heq ▸ hl)
  have hiff := allWorking_run (System.run_restrict_labels.mpr ⟨hrun, hbefore⟩)
    (started_start m cb n) (allWorking_start m cb n)
  have hexact : (∀ l ∈ ls, ¬ Throws l) ↔
      ∀ pre post q', ls = pre ++ post → threadPool.Run ((new m cb).start n) pre q' →
        q'.threads_.length = n ∧ ∀ t ∈ q'.threads_, t.stage ≠ .done := by
    constructor
    · intro hnone pre post q' hsplit hpre
      have hpre : beforeStop.Run ((new m cb).start n) pre q' :=
        System.run_restrict_labels.mpr ⟨hpre, fun l hl =>
          hbefore l (hsplit ▸ List.mem_append_left post hl)⟩
      have hstarted := hpre.invariant (started_start m cb n) fun _ _ _ h hst => h.step hst
      exact ⟨hstarted.2, hiff.mp hnone pre post q' hsplit hpre⟩
    · intro hall
      exact hiff.mpr fun pre post q' hsplit hpre =>
        (hall pre post q' hsplit hpre.of_restrict).2
  refine ⟨hexact, ?_⟩
  rintro hnone ⟨-, hgone⟩
  obtain ⟨hlength, hworking⟩ := hexact.mp hnone ls [] q (List.append_nil ls).symm hrun
  obtain ⟨t, ht⟩ := List.exists_mem_of_length_pos (hlength ▸ hn)
  exact hworking t ht (hgone t ht)

/-- A task that returns. -/
theorem throwing_task_kills_none : ∃ ls q, threadPool.Run ((new 0 false).start 1) ls q ∧
    (∀ l ∈ ls, ¬ Throws l) ∧ q.executed = [0] ∧ q.threads_.length = 1 ∧
    ∀ t ∈ q.threads_, t.stage ≠ .done := by
  let ls : List PoolLabel := [.run .lvalue, .enter 0, .enqueue 0 0, .init 0 false, .test 0,
    .take 0 0, .execute 0, .finish 0 false]
  have hrun : ∃ q, threadPool.Run ((new 0 false).start 1) ls q ∧ q.executed = [0] :=
    ⟨_, .of_play rfl, rfl⟩
  obtain ⟨q, hrun, hexecuted⟩ := hrun
  have hnone : ∀ l ∈ ls, ¬ Throws l := by simp [ls, Throws]
  have hstop : .stopSection ∉ ls := by simp [ls]
  obtain ⟨hlength, hworking⟩ := (throwing_task_kills (by decide) hrun hstop).1.mp hnone ls [] q
    (List.append_nil ls).symm hrun
  exact ⟨ls, q, hrun, hnone, hexecuted, hlength, hworking⟩

/-- One worker, two tasks: the first throws, and the second stays in the queue
with the worker gone. -/
theorem throwing_task_strands : ∃ ls q, threadPool.Run ((new 0 false).start 1) ls q ∧
    .stopSection ∉ ls ∧ q.isRunning_ = true ∧ q.queue_ = [1] ∧
    ∀ t ∈ q.threads_, t.stage = .done := by
  refine ⟨[.run .lvalue, .enter 0, .enqueue 0 0, .run .lvalue, .enter 1, .enqueue 1 0,
    .init 0 false, .test 0, .take 0 0, .execute 0, .finish 0 true], _, .of_play rfl, by decide,
    rfl, rfl, ?_⟩
  decide

end Ham
