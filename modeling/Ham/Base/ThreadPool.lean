import Ham.Lib.Condition
import Ham.Lib.Run

/-!
# `ThreadPool`

The pool under any number of threads that call `run`, its workers, and the
thread that owns it and calls `start`, `stop` and the destructor. A step is a
mutex section, a `notify_one` outside of one, an unsynchronised test of
`threads_` or `isRunning_`, or a moment of a task.

A task is the number of the call of `run` it was passed to, so that no two are
the same. `threads_` is not synchronised: `start` is one step, since nobody may
call `run` while it is at work and its workers see nothing of it but
`isRunning_`.

`direct`, `enqueued`, `taken` and `executed` are kept for the statements.
-/

namespace Ham

open Lib

/-- Which `run`. -/
inductive Overload where
  /-- `run(const Task&)`. -/
  | lvalue
  /-- `run(Task&&)`. -/
  | rvalue
  deriving DecidableEq, Repr

/-- Where a call of `run` stands. -/
inductive RunStage where
  /-- At `if(threads_.empty())`. -/
  | called
  /-- In `newTask()`, on the caller's thread. -/
  | calling
  /-- At the mutex. -/
  | stands (gate : Gate)
  /-- Behind the section of `run(Task&&)`, with its `notify_one` to come. -/
  | notifying
  | returned
  /-- Left by an exception of the task. -/
  | threw
  deriving DecidableEq, Repr

structure RunCall where
  overload : Overload
  stage : RunStage
  deriving DecidableEq, Repr

/-- Where a worker stands in `threadFunc`. -/
inductive WorkerStage where
  /-- At `cb_()`. -/
  | starting
  /-- At `while(isRunning_)`. -/
  | test
  /-- In `take()`, at the mutex. -/
  | stands (gate : Gate)
  /-- Behind `take()`, with a task. -/
  | holding (task : Nat)
  /-- In `task()`. -/
  | executing (task : Nat)
  | done
  deriving DecidableEq, Repr

/-- An element of `threads_`. -/
structure Worker where
  stage : WorkerStage := .starting
  joined : Bool := false
  deriving DecidableEq, Repr

/-- Where the owner of the pool stands. -/
inductive OwnerStage where
  /-- In none of the calls below. -/
  | idle
  /-- In `stop()`, called by the user or by the destructor, before its section. -/
  | stopping (destructor : Bool)
  /-- In the loop of `stop()`, at the `join` of a thread. -/
  | joining (destructor : Bool) (next : Nat)
  /-- Behind the destructor. -/
  | gone
  deriving DecidableEq, Repr

structure ThreadPool where
  isRunning_ : Bool := false
  threads_ : List Worker := []
  queue_ : List Nat := []
  maxsize_ : Nat := 0
  /-- An init callback is set. -/
  cb_ : Bool := false
  calls : List RunCall := []
  owner : OwnerStage := .idle
  /-- The tasks executed by the callers of `run`. -/
  direct : List Nat := []
  /-- What has gone into `queue_`, in order. -/
  enqueued : List Nat := []
  /-- What has come out of `queue_`, in order. -/
  taken : List Nat := []
  /-- The tasks executed by workers. -/
  executed : List Nat := []

inductive PoolFault where
  /-- `join` of a thread that has been joined throws `std::system_error`. -/
  | systemError
  /-- The destructor of a thread that has not been joined calls `std::terminate`. -/
  | terminate
  deriving DecidableEq, Repr

/-- What happens next. A `pick` is the thread a `notify_one` would reach. -/
inductive PoolLabel where
  | start (numOfThreads : Nat)
  /-- A new call of `run`. -/
  | run (overload : Overload)
  | enter (i : Nat)
  /-- `newTask()` of a call ends. -/
  | finishCall (i : Nat) (throws : Bool)
  | enqueue (i pick : Nat)
  | notify (i pick : Nat)
  | wakeCall (i : Nat)
  /-- `cb_()` of a worker ends. -/
  | init (w : Nat) (throws : Bool)
  | test (w : Nat)
  | take (w pick : Nat)
  | execute (w : Nat)
  /-- `task()` of a worker ends. -/
  | finish (w : Nat) (throws : Bool)
  | wakeWorker (w : Nat)
  /-- `stop()` is called. -/
  | stop
  | stopSection
  | join
  | stopReturn
  | destroy
  deriving DecidableEq, Repr

namespace ThreadPool

/-- `notFull_`, on which calls of `run` wait. -/
def notFull_ : Condition RunCall where
  gate c :=
    match c.stage with
    | .stands gate => some gate
    | _ => none
  pass gate c := { c with stage := .stands gate }
  gate_pass := by simp

/-- `notEmpty_`, on which workers wait. -/
def notEmpty_ : Condition Worker where
  gate t :=
    match t.stage with
    | .stands gate => some gate
    | _ => none
  pass gate t := { t with stage := .stands gate }
  gate_pass := by simp

/-- A new pool, with the values of `setMaxQueueSize` and `setInitCallback`. -/
def new (maxsize : Nat) (cb : Bool) : ThreadPool where
  maxsize_ := maxsize
  cb_ := cb

variable (q : ThreadPool)

def isFull : Bool := 0 < q.maxsize_ ∧ q.maxsize_ ≤ q.queue_.length

def start (numOfThreads : Nat) : ThreadPool :=
  if q.isRunning_ then q
  else { q with
    isRunning_ := true
    threads_ := q.threads_ ++ List.replicate numOfThreads {} }

/-! ## `run` -/

/-- The test of `threads_.empty()`. -/
def enter (i : Nat) (c : RunCall) : ThreadPool :=
  if q.threads_.isEmpty then
    { q with calls := q.calls.set i { c with stage := .calling }, direct := q.direct ++ [i] }
  else { q with calls := q.calls.set i { c with stage := .stands .entering } }

/-- Behind `newTask()`. `run(const Task&)` is done; `run(Task&&)` has no `else`,
and goes on to the queue. -/
def finishCall (i : Nat) (c : RunCall) (throws : Bool) : ThreadPool :=
  let stage : RunStage :=
    if throws then .threw
    else
      match c.overload with
      | .lvalue => .returned
      | .rvalue => .stands .entering
  { q with calls := q.calls.set i { c with stage := stage } }

/-- The section of `run`. `run(const Task&)` notifies inside of it. -/
def enqueue (i : Nat) (c : RunCall) (pick : Nat) : ThreadPool :=
  if q.isFull ∧ q.isRunning_ then
    { q with calls := q.calls.set i { c with stage := .stands .waiting } }
  else
    let q := { q with queue_ := q.queue_ ++ [i], enqueued := q.enqueued ++ [i] }
    match c.overload with
    | .lvalue => { q with
        calls := q.calls.set i { c with stage := .returned }
        threads_ := notEmpty_.notifyOne pick q.threads_ }
    | .rvalue => { q with calls := q.calls.set i { c with stage := .notifying } }

/-- The `notify_one` of `run(Task&&)`. -/
def notify (i : Nat) (c : RunCall) (pick : Nat) : ThreadPool :=
  { q with
    calls := q.calls.set i { c with stage := .returned }
    threads_ := notEmpty_.notifyOne pick q.threads_ }

/-! ## `threadFunc` -/

def setWorker (w : Nat) (t : Worker) (stage : WorkerStage) : ThreadPool :=
  { q with threads_ := q.threads_.set w { t with stage := stage } }

/-- The section of `take`. Without a task the worker is back at its test. -/
def take (w : Nat) (t : Worker) (pick : Nat) : ThreadPool :=
  match q.queue_ with
  | [] => q.setWorker w t (if q.isRunning_ then .stands .waiting else .test)
  | task :: rest => { q.setWorker w t (.holding task) with
      queue_ := rest
      taken := q.taken ++ [task]
      calls := if 0 < q.maxsize_ then notFull_.notifyOne pick q.calls else q.calls }

def execute (w : Nat) (t : Worker) : ThreadPool :=
  match t.stage with
  | .holding task => { q.setWorker w t (.executing task) with executed := q.executed ++ [task] }
  | _ => q

/-! ## `stop` and the destructor -/

def stopSection (destructor : Bool) : ThreadPool :=
  { q with
    isRunning_ := false
    threads_ := notEmpty_.notifyAll q.threads_
    calls := notFull_.notifyAll q.calls
    owner := .joining destructor 0 }

/-- `join` of one thread. -/
def join (destructor : Bool) (next : Nat) : Except PoolFault ThreadPool :=
  match q.threads_[next]? with
  | none => .ok q
  | some t =>
      if t.joined then .error .systemError
      else .ok { q with
        threads_ := q.threads_.set next { t with joined := true }
        owner := .joining destructor (next + 1) }

/-- The members are destroyed. -/
def destroyMembers : Except PoolFault ThreadPool :=
  if q.threads_.all (·.joined) then .ok { q with owner := .gone } else .error .terminate

def destroy : Except PoolFault ThreadPool :=
  if q.isRunning_ then .ok { q with owner := .stopping true } else q.destroyMembers

/-- A step of a call of `run`, if there is such a call. -/
def onCall (i : Nat) (f : RunCall → ThreadPool) : Except PoolFault ThreadPool :=
  .ok (match q.calls[i]? with
    | some c => f c
    | none => q)

/-- A step of a worker. -/
def onWorker (w : Nat) (f : Worker → ThreadPool) : Except PoolFault ThreadPool :=
  .ok (match q.threads_[w]? with
    | some t => f t
    | none => q)

def step : PoolLabel → Except PoolFault ThreadPool
  | .start n => .ok (q.start n)
  | .run overload => .ok { q with calls := q.calls ++ [⟨overload, .called⟩] }
  | .enter i => q.onCall i (q.enter i)
  | .finishCall i throws => q.onCall i fun c => q.finishCall i c throws
  | .enqueue i pick => q.onCall i fun c => q.enqueue i c pick
  | .notify i pick => q.onCall i fun c => q.notify i c pick
  | .wakeCall i => q.onCall i fun c =>
      { q with calls := q.calls.set i { c with stage := .stands .woken } }
  | .init w throws => q.onWorker w fun t => q.setWorker w t (if throws then .done else .test)
  | .test w => q.onWorker w fun t =>
      q.setWorker w t (if q.isRunning_ then .stands .entering else .done)
  | .take w pick => q.onWorker w fun t => q.take w t pick
  | .execute w => q.onWorker w (q.execute w)
  | .finish w throws => q.onWorker w fun t => q.setWorker w t (if throws then .done else .test)
  | .wakeWorker w => q.onWorker w fun t => q.setWorker w t (.stands .woken)
  | .stop => .ok { q with owner := .stopping false }
  | .stopSection =>
      match q.owner with
      | .stopping destructor => .ok (q.stopSection destructor)
      | _ => .ok q
  | .join =>
      match q.owner with
      | .joining destructor next => q.join destructor next
      | _ => .ok q
  | .stopReturn =>
      match q.owner with
      | .joining true _ => q.destroyMembers
      | _ => .ok { q with owner := .idle }
  | .destroy => q.destroy

/-! ## When a label can happen -/

def Enabled : PoolLabel → Prop
  | .start _ | .stop | .destroy => q.owner = .idle
  | .run _ => q.owner ≠ .gone
  | .enter i => ∃ overload, q.calls[i]? = some ⟨overload, .called⟩
  | .finishCall i _ => ∃ overload, q.calls[i]? = some ⟨overload, .calling⟩
  | .enqueue i pick =>
      (∃ overload gate, q.calls[i]? = some ⟨overload, .stands gate⟩ ∧ gate ≠ .waiting) ∧
      notEmpty_.Picks pick q.threads_
  | .notify i pick =>
      (∃ overload, q.calls[i]? = some ⟨overload, .notifying⟩) ∧ notEmpty_.Picks pick q.threads_
  | .wakeCall i => ∃ overload, q.calls[i]? = some ⟨overload, .stands .waiting⟩
  | .init w throws =>
      (∃ joined, q.threads_[w]? = some ⟨.starting, joined⟩) ∧ (throws = true → q.cb_ = true)
  | .test w => ∃ joined, q.threads_[w]? = some ⟨.test, joined⟩
  | .take w pick =>
      (∃ gate joined, q.threads_[w]? = some ⟨.stands gate, joined⟩ ∧ gate ≠ .waiting) ∧
      notFull_.Picks pick q.calls
  | .execute w => ∃ task joined, q.threads_[w]? = some ⟨.holding task, joined⟩
  | .finish w _ => ∃ task joined, q.threads_[w]? = some ⟨.executing task, joined⟩
  | .wakeWorker w => ∃ joined, q.threads_[w]? = some ⟨.stands .waiting, joined⟩
  | .stopSection => ∃ destructor, q.owner = .stopping destructor
  | .join => ∃ destructor next t, q.owner = .joining destructor next ∧
      q.threads_[next]? = some t ∧ t.stage = .done
  | .stopReturn => ∃ destructor, q.owner = .joining destructor q.threads_.length

/-- A call, by its stage. -/
theorem exists_call_iff {o : Option RunCall} {stage : RunStage} :
    (∃ c ∈ o, c.stage = stage) ↔ ∃ overload, o = some ⟨overload, stage⟩ := by
  constructor
  · rintro ⟨⟨overload, stage⟩, hc, rfl⟩
    exact ⟨overload, hc⟩
  · rintro ⟨overload, hc⟩
    exact ⟨_, hc, rfl⟩

/-- A worker, by its stage. -/
theorem exists_worker_iff {o : Option Worker} {stage : WorkerStage} :
    (∃ t ∈ o, t.stage = stage) ↔ ∃ joined, o = some ⟨stage, joined⟩ := by
  constructor
  · rintro ⟨⟨stage, joined⟩, ht, rfl⟩
    exact ⟨joined, ht⟩
  · rintro ⟨joined, ht⟩
    exact ⟨_, ht, rfl⟩

/-- A call at a gate that it can pass. -/
theorem exists_gate_iff {o : Option RunCall} :
    (∃ c ∈ o, ∃ gate ∈ notFull_.gate c, gate ≠ .waiting) ↔
      ∃ overload gate, o = some ⟨overload, .stands gate⟩ ∧ gate ≠ .waiting := by
  constructor
  · rintro ⟨⟨overload, stage⟩, hc, gate, hgate, hne⟩
    cases stage <;> cases hgate
    exact ⟨overload, gate, hc, hne⟩
  · rintro ⟨overload, gate, hc, hne⟩
    exact ⟨_, hc, gate, rfl, hne⟩

/-- A worker likewise. -/
theorem exists_worker_gate_iff {o : Option Worker} :
    (∃ t ∈ o, ∃ gate ∈ notEmpty_.gate t, gate ≠ .waiting) ↔
      ∃ gate joined, o = some ⟨.stands gate, joined⟩ ∧ gate ≠ .waiting := by
  constructor
  · rintro ⟨⟨stage, joined⟩, ht, gate, hgate, hne⟩
    cases stage <;> cases hgate
    exact ⟨gate, joined, ht, hne⟩
  · rintro ⟨gate, joined, ht, hne⟩
    exact ⟨_, ht, gate, rfl, hne⟩

instance (l : PoolLabel) : Decidable (q.Enabled l) :=
  match l with
  | .start _ => inferInstanceAs (Decidable (q.owner = .idle))
  | .stop => inferInstanceAs (Decidable (q.owner = .idle))
  | .destroy => inferInstanceAs (Decidable (q.owner = .idle))
  | .run _ => inferInstanceAs (Decidable (q.owner ≠ .gone))
  | .enter _ => decidable_of_iff _ exists_call_iff
  | .finishCall _ _ => decidable_of_iff _ exists_call_iff
  | .enqueue _ _ => decidable_of_iff _ (and_congr exists_gate_iff Iff.rfl)
  | .notify _ _ => decidable_of_iff _ (and_congr exists_call_iff Iff.rfl)
  | .wakeCall _ => decidable_of_iff _ exists_call_iff
  | .init _ _ => decidable_of_iff _ (and_congr exists_worker_iff Iff.rfl)
  | .test _ => decidable_of_iff _ exists_worker_iff
  | .take _ _ => decidable_of_iff _ (and_congr exists_worker_gate_iff Iff.rfl)
  | .execute w =>
      match h : q.threads_[w]? with
      | some ⟨.holding task, joined⟩ => .isTrue ⟨task, joined, h⟩
      | none | some ⟨.starting, _⟩ | some ⟨.test, _⟩ | some ⟨.stands _, _⟩ | some ⟨.executing _, _⟩
      | some ⟨.done, _⟩ => .isFalse (by simp [Enabled, h])
  | .finish w _ =>
      match h : q.threads_[w]? with
      | some ⟨.executing task, joined⟩ => .isTrue ⟨task, joined, h⟩
      | none | some ⟨.starting, _⟩ | some ⟨.test, _⟩ | some ⟨.stands _, _⟩ | some ⟨.holding _, _⟩
      | some ⟨.done, _⟩ => .isFalse (by simp [Enabled, h])
  | .wakeWorker _ => decidable_of_iff _ exists_worker_iff
  | .stopSection => inferInstanceAs (Decidable (∃ destructor, q.owner = .stopping destructor))
  | .join =>
      match h : q.owner with
      | .joining destructor next =>
          decidable_of_iff (∃ t ∈ q.threads_[next]?, t.stage = .done) (by simp [Enabled, h])
      | .idle | .stopping _ | .gone => .isFalse (by simp [Enabled, h])
  | .stopReturn =>
      inferInstanceAs (Decidable (∃ destructor, q.owner = .joining destructor q.threads_.length))

end ThreadPool

def threadPool : System ThreadPool PoolLabel PoolFault where
  enabled := ThreadPool.Enabled
  step := ThreadPool.step

instance (q : ThreadPool) (l : PoolLabel) : Decidable (threadPool.enabled q l) :=
  inferInstanceAs (Decidable (q.Enabled l))

end Ham
