import Ham.Base.ThreadPool

/-!
# What a step of a `ThreadPool` can do

`Moves` lists the effects of the steps, guards included: `run` and `take` hand
tasks on in three places only (`direct`, `push`, `pop`), and every other step
moves one call, one worker or the owner.
-/

namespace Ham.ThreadPool

open Lib

variable {q q' : ThreadPool} {l : PoolLabel}

/-- A call moves, and nothing else. -/
inductive CallMove (q : ThreadPool) : RunCall → RunStage → Prop
  | enter (overload : Overload) (hthreads : q.threads_ ≠ []) :
      CallMove q ⟨overload, .called⟩ (.stands .entering)
  | throw (overload : Overload) : CallMove q ⟨overload, .calling⟩ .threw
  | done : CallMove q ⟨.lvalue, .calling⟩ .returned
  /-- The missing `else`. -/
  | goOn : CallMove q ⟨.rvalue, .calling⟩ (.stands .entering)
  | wait (overload : Overload) {gate : Gate} (hgate : gate ≠ .waiting)
      (hfull : q.isFull = true) (hrunning : q.isRunning_ = true) :
      CallMove q ⟨overload, .stands gate⟩ (.stands .waiting)
  | wake (overload : Overload) : CallMove q ⟨overload, .stands .waiting⟩ (.stands .woken)

/-- A worker moves, and nothing else. -/
inductive WorkerMove (q : ThreadPool) : WorkerStage → WorkerStage → Prop
  | init (throws : Bool) : WorkerMove q .starting (if throws then .done else .test)
  | enter (hrunning : q.isRunning_ = true) : WorkerMove q .test (.stands .entering)
  | leave (hrunning : q.isRunning_ = false) : WorkerMove q .test .done
  | wait {gate : Gate} (hgate : gate ≠ .waiting) (hqueue : q.queue_ = [])
      (hrunning : q.isRunning_ = true) : WorkerMove q (.stands gate) (.stands .waiting)
  | nothing {gate : Gate} (hgate : gate ≠ .waiting) (hqueue : q.queue_ = [])
      (hrunning : q.isRunning_ = false) : WorkerMove q (.stands gate) .test
  | finish (task : Nat) (throws : Bool) :
      WorkerMove q (.executing task) (if throws then .done else .test)
  | wake : WorkerMove q (.stands .waiting) (.stands .woken)

inductive Moves (q : ThreadPool) : PoolLabel → ThreadPool → Prop
  | start (n : Nat) (hrunning : q.isRunning_ = false) : Moves q (.start n) { q with
      isRunning_ := true, threads_ := q.threads_ ++ List.replicate n {} }
  | started (n : Nat) : Moves q (.start n) q
  | run (overload : Overload) : Moves q (.run overload) { q with
      calls := q.calls ++ [⟨overload, .called⟩] }
  | direct {i : Nat} {overload : Overload} (hi : q.calls[i]? = some ⟨overload, .called⟩)
      (hthreads : q.threads_ = []) : Moves q (.enter i) { q with
      calls := q.calls.set i ⟨overload, .calling⟩, direct := q.direct ++ [i] }
  | call {i : Nat} {c : RunCall} {stage : RunStage} {l : PoolLabel} (hi : q.calls[i]? = some c)
      (hmove : CallMove q c stage) (hstop : l ≠ .stopSection) :
      Moves q l { q with calls := q.calls.set i { c with stage := stage } }
  | pushInside {i pick : Nat} {gate : Gate} (hi : q.calls[i]? = some ⟨.lvalue, .stands gate⟩)
      (hgate : gate ≠ .waiting) (hroom : q.isRunning_ = true → q.isFull = false)
      (hpick : notEmpty_.Picks pick q.threads_) : Moves q (.enqueue i pick) { q with
      queue_ := q.queue_ ++ [i], enqueued := q.enqueued ++ [i]
      calls := q.calls.set i ⟨.lvalue, .returned⟩
      threads_ := notEmpty_.notifyOne pick q.threads_ }
  | push {i pick : Nat} {gate : Gate} (hi : q.calls[i]? = some ⟨.rvalue, .stands gate⟩)
      (hgate : gate ≠ .waiting) (hroom : q.isRunning_ = true → q.isFull = false) :
      Moves q (.enqueue i pick) { q with
        queue_ := q.queue_ ++ [i], enqueued := q.enqueued ++ [i]
        calls := q.calls.set i ⟨.rvalue, .notifying⟩ }
  | notify {i pick : Nat} {overload : Overload}
      (hi : q.calls[i]? = some ⟨overload, .notifying⟩)
      (hpick : notEmpty_.Picks pick q.threads_) : Moves q (.notify i pick) { q with
      calls := q.calls.set i ⟨overload, .returned⟩
      threads_ := notEmpty_.notifyOne pick q.threads_ }
  | worker {w : Nat} {t : Worker} {stage : WorkerStage} {l : PoolLabel}
      (hw : q.threads_[w]? = some t) (hmove : WorkerMove q t.stage stage)
      (hstop : l ≠ .stopSection) :
      Moves q l { q with threads_ := q.threads_.set w { t with stage := stage } }
  | pop {w pick task : Nat} {rest : List Nat} {gate : Gate} {joined : Bool}
      (hw : q.threads_[w]? = some ⟨.stands gate, joined⟩) (hgate : gate ≠ .waiting)
      (hqueue : q.queue_ = task :: rest) (hpick : notFull_.Picks pick q.calls) :
      Moves q (.take w pick) { q with
        threads_ := q.threads_.set w ⟨.holding task, joined⟩
        queue_ := rest, taken := q.taken ++ [task]
        calls := if 0 < q.maxsize_ then notFull_.notifyOne pick q.calls else q.calls }
  | execute {w task : Nat} {joined : Bool} (hw : q.threads_[w]? = some ⟨.holding task, joined⟩) :
      Moves q (.execute w) { q with
        threads_ := q.threads_.set w ⟨.executing task, joined⟩, executed := q.executed ++ [task] }
  | owner {l : PoolLabel} (owner : OwnerStage) (hstop : l ≠ .stopSection) :
      Moves q l { q with owner := owner }
  | stopSection (destructor : Bool) : Moves q .stopSection (q.stopSection destructor)
  | join {next : Nat} {t : Worker} (destructor : Bool) (hnext : q.threads_[next]? = some t)
      (hdone : t.stage = .done) : Moves q .join { q with
      threads_ := q.threads_.set next { t with joined := true }
      owner := .joining destructor (next + 1) }

/-! ## A step of a call or of a worker -/

section

variable {i w : Nat} {f : RunCall → ThreadPool} {g : Worker → ThreadPool}

theorem onCall_eq {c : RunCall} (hi : q.calls[i]? = some c) : q.onCall i f = .ok (f c) := by
  rw [onCall, hi]

theorem onWorker_eq {t : Worker} (hw : q.threads_[w]? = some t) : q.onWorker w g = .ok (g t) := by
  rw [onWorker, hw]

theorem onCall_ok {c : RunCall} (hi : q.calls[i]? = some c) (h : q.onCall i f = .ok q') :
    f c = q' :=
  Except.ok.inj ((onCall_eq hi).symm.trans h)

theorem onWorker_ok {t : Worker} (hw : q.threads_[w]? = some t) (h : q.onWorker w g = .ok q') :
    g t = q' :=
  Except.ok.inj ((onWorker_eq hw).symm.trans h)

/-- What the step of every call keeps. -/
theorem onCall_keeps {P : ThreadPool → Prop} (h : q.onCall i f = .ok q') (hq : P q)
    (hf : ∀ c, P (f c)) : P q' := by
  rw [← Except.ok.inj h]
  split
  · exact hf _
  · exact hq

theorem onWorker_keeps {P : ThreadPool → Prop} (h : q.onWorker w g = .ok q') (hq : P q)
    (hg : ∀ t, P (g t)) : P q' := by
  rw [← Except.ok.inj h]
  split
  · exact hg _
  · exact hq

end

/-! ## Every step -/

theorem moves_of_step (h : threadPool.Step q l q') : Moves q l q' := by
  obtain ⟨hen, hstep⟩ := h
  cases l with
  | start n =>
      cases hstep
      unfold ThreadPool.start
      split
      · exact .started n
      · rename_i hrunning
        exact .start n (by simpa using hrunning)
  | run overload =>
      cases hstep
      exact .run overload
  | enter i =>
      obtain ⟨overload, hi⟩ := hen
      rw [← onCall_ok hi hstep, ThreadPool.enter]
      split
      · rename_i hempty
        exact .direct hi (by simpa using hempty)
      · rename_i hempty
        exact .call hi (.enter overload (by simpa using hempty)) (by simp)
  | finishCall i throws =>
      obtain ⟨overload, hi⟩ := hen
      rw [← onCall_ok hi hstep, ThreadPool.finishCall]
      cases throws with
      | true => exact .call hi (.throw overload) (by simp)
      | false =>
          cases overload with
          | lvalue => exact .call hi .done (by simp)
          | rvalue => exact .call hi .goOn (by simp)
  | enqueue i pick =>
      obtain ⟨⟨overload, gate, hi, hgate⟩, hpick⟩ := hen
      rw [← onCall_ok hi hstep, ThreadPool.enqueue]
      split
      · rename_i hfull
        exact .call hi (.wait overload hgate hfull.1 hfull.2) (by simp)
      · rename_i hroom
        have hroom : q.isRunning_ = true → q.isFull = false := by
          intro hrunning
          simpa [hrunning] using hroom
        cases overload with
        | lvalue => exact .pushInside hi hgate hroom hpick
        | rvalue => exact .push hi hgate hroom
  | notify i pick =>
      obtain ⟨⟨overload, hi⟩, hpick⟩ := hen
      rw [← onCall_ok hi hstep]
      exact .notify hi hpick
  | wakeCall i =>
      obtain ⟨overload, hi⟩ := hen
      rw [← onCall_ok hi hstep]
      exact .call hi (.wake overload) (by simp)
  | init w throws =>
      obtain ⟨⟨joined, hw⟩, -⟩ := hen
      rw [← onWorker_ok hw hstep]
      exact .worker hw (.init throws) (by simp)
  | test w =>
      obtain ⟨joined, hw⟩ := hen
      rw [← onWorker_ok hw hstep]
      cases hrunning : q.isRunning_ with
      | true => exact .worker hw (.enter hrunning) (by simp)
      | false => exact .worker hw (.leave hrunning) (by simp)
  | take w pick =>
      obtain ⟨⟨gate, joined, hw, hgate⟩, hpick⟩ := hen
      rw [← onWorker_ok hw hstep, ThreadPool.take]
      split
      · rename_i hqueue
        cases hrunning : q.isRunning_ with
        | true => exact .worker hw (.wait hgate hqueue hrunning) (by simp)
        | false => exact .worker hw (.nothing hgate hqueue hrunning) (by simp)
      · rename_i task rest hqueue
        exact .pop hw hgate hqueue hpick
  | execute w =>
      obtain ⟨task, joined, hw⟩ := hen
      rw [← onWorker_ok hw hstep]
      exact .execute hw
  | finish w throws =>
      obtain ⟨task, joined, hw⟩ := hen
      rw [← onWorker_ok hw hstep]
      exact .worker hw (.finish task throws) (by simp)
  | wakeWorker w =>
      obtain ⟨joined, hw⟩ := hen
      rw [← onWorker_ok hw hstep]
      exact .worker hw .wake (by simp)
  | stop =>
      cases hstep
      exact .owner _ (by simp)
  | stopSection =>
      obtain ⟨destructor, howner⟩ := hen
      have heq : q' = q.stopSection destructor := by
        simpa [threadPool, ThreadPool.step, howner] using hstep.symm
      rw [heq]
      exact .stopSection destructor
  | join =>
      obtain ⟨destructor, next, t, howner, hnext, hdone⟩ := hen
      simp only [threadPool, ThreadPool.step, howner, ThreadPool.join, hnext] at hstep
      split at hstep
      · cases hstep
      · cases hstep
        exact .join destructor hnext hdone
  | stopReturn =>
      obtain ⟨destructor, howner⟩ := hen
      simp only [threadPool, ThreadPool.step, howner, destroyMembers] at hstep
      cases destructor with
      | true =>
          simp only at hstep
          split at hstep
          · cases hstep
            exact .owner _ (by simp)
          · cases hstep
      | false =>
          cases hstep
          exact .owner _ (by simp)
  | destroy =>
      simp only [threadPool, ThreadPool.step, ThreadPool.destroy, destroyMembers] at hstep
      split at hstep
      · cases hstep
        exact .owner _ (by simp)
      · split at hstep
        · cases hstep
          exact .owner _ (by simp)
        · cases hstep

/-- `threads_` never shrinks. -/
theorem Moves.threads (h : Moves q l q') (hempty : q'.threads_ = []) : q.threads_ = [] := by
  cases h with
  | start n hrunning => exact (List.append_eq_nil_iff.mp hempty).1
  | pushInside hi hgate hroom hpick => simpa [← List.length_eq_zero_iff] using hempty
  | notify hi hpick => simpa [← List.length_eq_zero_iff] using hempty
  | stopSection destructor =>
      simpa [ThreadPool.stopSection, ← List.length_eq_zero_iff] using hempty
  | worker hw hmove hstop => simpa using hempty
  | pop hw hgate hqueue hpick => simpa using hempty
  | execute hw => simpa using hempty
  | join destructor hnext hdone => simpa using hempty
  | _ => exact hempty

end Ham.ThreadPool
