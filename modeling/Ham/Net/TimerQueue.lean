import Ham.Lib.OrderedSet
import Ham.Lib.Run
import Ham.Base.Types

/-!
# `TimerQueue`

The timers of one event loop, as a labelled system: `addTimer` and
`cancelTimer` on the loop thread or on another one, whose functor then waits in
the loop's queue; and `handleRead`, cut at the callbacks it runs, because they
may add and cancel timers themselves. Time stamps, intervals and the clock are
in microseconds. Every reading of a clock is part of a label, and so is the
moment of a `timerfd_settime`, which comes behind the reading it is set by.

* A timer is known by its address, which is given out once; where in the
  address space it lies is the allocator's choice, and decides the order of
  entries with one expiration.
* `pendingFunctors_` here are the functors of the timer queue in the order in
  which the loop runs them.
* An interval is the `double` that `addTime` makes an integer of; it need not be
  a whole number of microseconds.
* `alarm` is the timerfd: its setting, until it is read after its deadline.
* `runs` records the calls of callbacks, for the statements.
-/

namespace Ham.Net

open Ham.Lib

/-- The address of a `Timer`; `0` is the null pointer. -/
abbrev TimerPtr := Nat

/-- `addTime`; the conversion to an integer cuts off. -/
def addTime (src : Int) (microseconds : ℚ) : Int :=
  src + microseconds.num.tdiv microseconds.den

/-- `Timer`, without the callback and the serial number. `interval_` is the
product that `addTime` computes. -/
structure Timer where
  expiration_ : Int
  interval_ : ℚ
  repeat_ : Bool
  repeats : repeat_ = true ↔ 0 < interval_

namespace Timer

/-- The constructor. -/
def create (when_ : Int) (interval : ℚ) : Timer where
  expiration_ := when_
  interval_ := interval
  repeat_ := 0 < interval
  repeats := decide_eq_true_iff

/-- `restart`; `Timestamp::invalid()` is `0`. -/
def restart (timer : Timer) (now : Int) : Timer :=
  { timer with expiration_ := if timer.repeat_ then addTime now timer.interval_ else 0 }

end Timer

/-- `timeEntry`, ordered as `std::pair` is. -/
structure TimeEntry where
  first : Int
  second : TimerPtr
  deriving DecidableEq, Repr

namespace TimeEntry

instance : LinearOrder TimeEntry :=
  LinearOrder.lift' (fun e : TimeEntry => toLex (e.first, e.second)) fun a b h => by
    cases a
    cases b
    cases h
    rfl

theorem lt_iff {a b : TimeEntry} :
    a < b ↔ a.first < b.first ∨ (a.first = b.first ∧ a.second < b.second) :=
  Prod.Lex.toLex_lt_toLex

theorem le_iff {a b : TimeEntry} :
    a ≤ b ↔ a.first < b.first ∨ (a.first = b.first ∧ a.second ≤ b.second) :=
  Prod.Lex.toLex_le_toLex

theorem first_le {a b : TimeEntry} (h : a ≤ b) : a.first ≤ b.first := by
  rcases le_iff.mp h with h | h
  · exact h.le
  · exact h.1.le

end TimeEntry

/-- `struct timespec`. -/
structure Timespec where
  tv_sec : Int
  tv_nsec : Int
  deriving DecidableEq, Repr

def Timespec.microseconds (ts : Timespec) : Int := ts.tv_sec * 1000000 + ts.tv_nsec / 1000

/-- `detail::howMuchTimeFromNow`. -/
def howMuchTimeFromNow (when_ now : Int) : Timespec :=
  let microseconds := if when_ - now < 100 then 100 else when_ - now
  { tv_sec := microseconds / 1000000, tv_nsec := microseconds % 1000000 * 1000 }

/-- The setting of the timerfd, with the clock `howMuchTimeFromNow` has read and
the moment of `timerfd_settime`. -/
structure Alarm where
  now : Int
  setAt : Int
  it_value : Timespec
  deriving DecidableEq, Repr

def Alarm.deadline (a : Alarm) : Int := a.setAt + a.it_value.microseconds

/-- The functors `addTimer` and `cancelTimer` put into the loop's queue. -/
inductive TimerFunctor where
  | addTimerInLoop (timer : TimerPtr)
  | cancelTimerInLoop (timer : TimerPtr)
  deriving DecidableEq, Repr

/-- Whether the loop thread is in `handleRead`: the clock it has read, the
expired entries, and those whose callbacks are still to be called. -/
inductive ReadPhase where
  | outside
  | calling (now : Int) (expired rest : List TimeEntry)

/-- One call of a callback: in which batch, with which `now`, and what the
timer's expiration was. -/
structure TimerRun where
  timer : TimerPtr
  batch : Nat
  now : Int
  expiration : Int

structure TimerQueue where
  timers : TimerPtr → Option Timer := fun _ => none
  timerList_ : OrderedSet TimeEntry := .empty
  cancelingTimers_ : Finset TimerPtr := ∅
  earliestChanged_ : Bool := false
  callingExpiredTimers_ : Bool := false
  alarm : Option Alarm := none
  pendingFunctors_ : List TimerFunctor := []
  phase : ReadPhase := .outside
  /-- How often `handleRead` has been called. -/
  batches : Nat := 0
  runs : List TimerRun := []

namespace TimerQueue

variable (q : TimerQueue)

/-- Access through a `shared_ptr`. -/
def deref (timer : TimerPtr) : Except Fault Timer :=
  match q.timers timer with
  | none => .error .dangling
  | some t => .ok t

/-- The alarm for an expiration, by a clock that is read before it is set. -/
def alarmFor (expiration now setAt : Int) : Alarm :=
  { now := now, setAt := setAt, it_value := howMuchTimeFromNow expiration now }

/-- `detail::resetAlarmFd`. -/
def resetAlarmFd (expiration now setAt : Int) : TimerQueue :=
  { q with alarm := some (alarmFor expiration now setAt) }

/-- `detail::readAlarmfd`: before the deadline there is nothing to read. -/
def readAlarmfd (now : Int) : TimerQueue :=
  match q.alarm with
  | none => q
  | some a => if a.deadline ≤ now then { q with alarm := none } else q

/-- `it == timerList_.end() || when < it->first`, with `it` at the beginning. -/
def isEarliest (when_ : Int) : Bool :=
  match q.timerList_.begin? with
  | none => true
  | some e => when_ < e.first

/-- `insert`. -/
def insert (timer : TimerPtr) : Except Fault TimerQueue := do
  let t ← q.deref timer
  let res := q.timerList_.insert ⟨t.expiration_, timer⟩
  assert (res.2 = true) .timerInsert
  return { q with earliestChanged_ := q.isEarliest t.expiration_, timerList_ := res.1 }

def addTimerInLoop (timer : TimerPtr) (now setAt : Int) : Except Fault TimerQueue := do
  let q ← q.insert timer
  let t ← q.deref timer
  return if q.earliestChanged_ then q.resetAlarmFd t.expiration_ now setAt else q

def cancelTimerInLoop (timer : TimerPtr) : Except Fault TimerQueue := do
  let t ← q.deref timer
  return if ⟨t.expiration_, timer⟩ ∈ q.timerList_ then
      { q with timerList_ := q.timerList_.erase ⟨t.expiration_, timer⟩ }
    else if q.callingExpiredTimers_ then
      { q with cancelingTimers_ := Insert.insert timer q.cancelingTimers_ }
    else q

/-- The iterator of `getExpired` behind the last expired entry. -/
def lastExpired (now : Int) : Nat :=
  let bound := q.timerList_.lowerBound ⟨now, 0⟩
  if q.timerList_.elems[bound]?.map TimeEntry.first = some now then bound + 1 else bound

/-- `getExpired`: what has expired, and the queue without it. -/
def getExpired (now : Int) : Except Fault (List TimeEntry × TimerQueue) := do
  let last := q.lastExpired now
  assert (q.timerList_.elems[last]?.all (fun e => decide (now < e.first)) = true) .getExpired
  return (q.timerList_.elems.take last, { q with timerList_ := q.timerList_.eraseFront last })

/-- `addTimer`: the timer, and `runInLoop(addTimerInLoop)`. -/
def addTimer (inLoop : Bool) (timer : TimerPtr) (when_ : Int) (interval : ℚ) (now setAt : Int) :
    Except Fault TimerQueue :=
  let q := { q with
    timers := Function.update q.timers timer (some (Timer.create when_ interval)) }
  if inLoop then q.addTimerInLoop timer now setAt
  else .ok { q with pendingFunctors_ := q.pendingFunctors_ ++ [.addTimerInLoop timer] }

def cancelTimer (inLoop : Bool) (timer : TimerPtr) : Except Fault TimerQueue :=
  if inLoop then q.cancelTimerInLoop timer
  else .ok { q with pendingFunctors_ := q.pendingFunctors_ ++ [.cancelTimerInLoop timer] }

/-- The next functor of the loop's queue. -/
def runFunctor (now setAt : Int) : Except Fault TimerQueue :=
  match q.pendingFunctors_ with
  | [] => .ok q
  | .addTimerInLoop timer :: rest =>
      { q with pendingFunctors_ := rest }.addTimerInLoop timer now setAt
  | .cancelTimerInLoop timer :: rest => { q with pendingFunctors_ := rest }.cancelTimerInLoop timer

/-- `handleRead` up to the first callback. -/
def beginRead (now readAt : Int) : Except Fault TimerQueue := do
  let (expired, q) ← (q.readAlarmfd readAt).getExpired now
  return { q with
    cancelingTimers_ := ∅
    callingExpiredTimers_ := true
    phase := .calling now expired expired
    batches := q.batches + 1 }

/-- `entry.second->run()` for the next expired entry. -/
def runTimer : Except Fault TimerQueue :=
  match q.phase with
  | .calling now expired (e :: rest) => do
      let t ← q.deref e.second
      return { q with
        phase := .calling now expired rest
        runs := q.runs ++ [⟨e.second, q.batches, now, t.expiration_⟩] }
  | _ => .ok q

/-- One round of the loop in `reset`. -/
def resetOne (now : Int) (q : TimerQueue) (e : TimeEntry) : Except Fault TimerQueue := do
  let t ← q.deref e.second
  if t.repeat_ ∧ e.second ∉ q.cancelingTimers_ then
    let q := { q with timers := Function.update q.timers e.second (some (t.restart now)) }
    q.insert e.second
  else return q

/-- The end of `reset`: the alarm for the first entry, if its time is valid. -/
def rearm (now setAt : Int) : Except Fault TimerQueue :=
  match q.timerList_.begin? with
  | none => .ok q
  | some e => do
      let t ← q.deref e.second
      return if 0 < t.expiration_ then q.resetAlarmFd t.expiration_ now setAt else q

/-- `handleRead` behind the last callback; the alarm has a clock of its own. -/
def endRead (resetNow setAt : Int) : Except Fault TimerQueue :=
  match q.phase with
  | .calling now expired [] => do
      let q := { q with callingExpiredTimers_ := false, phase := .outside }
      let q ← expired.foldlM (resetOne now) q
      q.rearm resetNow setAt
  | _ => .ok q

end TimerQueue

/-- `inLoop` says whether the loop thread makes the call. If a step comes to
`resetAlarmFd`, `now` is the clock that `howMuchTimeFromNow` reads there, and
`setAt` the moment of `timerfd_settime`. -/
inductive TimerLabel where
  | addTimer (inLoop : Bool) (timer : TimerPtr) (when_ : Int) (interval : ℚ) (now setAt : Nat)
  | cancelTimer (inLoop : Bool) (timer : TimerPtr)
  | runFunctor (now setAt : Nat)
  | beginRead (now readAt : Nat)
  | runTimer
  | endRead (now setAt : Nat)

namespace TimerQueue

variable (q : TimerQueue)

def step : TimerLabel → Except Fault TimerQueue
  | .addTimer inLoop timer when_ interval now setAt =>
      q.addTimer inLoop timer when_ interval now setAt
  | .cancelTimer inLoop timer => q.cancelTimer inLoop timer
  | .runFunctor now setAt => q.runFunctor now setAt
  | .beginRead now readAt => q.beginRead now readAt
  | .runTimer => q.runTimer
  | .endRead now setAt => q.endRead now setAt

/-- User code can be running on the loop thread: outside of `handleRead`, or in
a callback. -/
def CanCall : Prop :=
  match q.phase with
  | .outside => True
  | .calling _ expired rest => rest.length < expired.length

/-- What can come next. `Timestamp::now()` is valid. -/
def Enabled : TimerLabel → Prop
  | .addTimer inLoop timer _ _ _ _ =>
      timer ≠ 0 ∧ q.timers timer = none ∧ (inLoop = true → q.CanCall)
  | .cancelTimer inLoop timer => q.timers timer ≠ none ∧ (inLoop = true → q.CanCall)
  | .runFunctor _ _ => q.phase = .outside ∧ q.pendingFunctors_ ≠ []
  | .beginRead now _ => q.phase = .outside ∧ 0 < now
  | .runTimer => ∃ now expired e rest, q.phase = .calling now expired (e :: rest)
  | .endRead _ _ => ∃ now expired, q.phase = .calling now expired []

end TimerQueue

/-- The timer queue with its loop and the threads that call it. -/
def timerQueue : System TimerQueue TimerLabel Fault where
  enabled := TimerQueue.Enabled
  step := TimerQueue.step

end Ham.Net
