import Ham.Lib.Run
import Ham.Net.Epoller

/-!
# `Connector` and `TcpClient`

The connector opens the socket of a client: a channel waits until the socket
can be written, `SO_ERROR` decides, and the descriptor goes to the client or
is closed. `removeAndResetChannel` leaves the channel in place until a functor
of the loop resets it, so `state_`, `connectChannel_`, the queued functor and
the retry timers move apart; each assertion of the source is about one
combination of them.

The calls of the client, the active event, the functors and the timers of the
loop are the labels of `client`. `connect` and `stop` may come from other threads
too: such a call stores to the two `connect_` and then goes through the loop's
queue, one step at a time (`ClientCall`), while `state_` is still what it was.
`sockets` is kept for the statements: what has happened to the descriptors the
connector has created.
-/

namespace Ham.Net

open Ham.Lib

namespace Connector

inductive State where
  | kDisconnected | kConnecting | kConnected
  deriving DecidableEq, Repr

/-- Milliseconds. -/
def kMaxRetryDelayMs : Nat := 30 * 1000

def kInitRetryDelayMs : Nat := 5000

end Connector

/-- `savedErrno` behind `::connect`, by the cases of the `switch`. -/
inductive ConnectErrno where
  | success | EISCONN | EINPROGRESS | EINTR
  | EAGAIN | EADDRINUSE | EADDRNOTAVAIL | ECONNREFUSED | ENETUNREACH
  | EACCES | EPERM | EAFNOSUPPORT | EALREADY | EBADF | EFAULT | ENOTSOCK
  | other (code : Nat)
  deriving DecidableEq, Repr

/-- What the system gives to `Connector::connect`: the descriptor of the new
socket, the result of `::connect`, and the address of a new channel. -/
structure ConnectResult where
  fd : Fd
  errno : ConnectErrno
  channel : ConnId
  deriving DecidableEq, Repr

/-- What happens to a descriptor of the connector. -/
inductive SocketUse where
  /-- Returned by `createNonblockingOrDie`. -/
  | created (fd : Fd)
  /-- Passed to `sockets::close`. -/
  | closed (fd : Fd)
  /-- Passed to `newConnCb_`. -/
  | handed (fd : Fd)
  deriving DecidableEq, Repr

/-- The functors a connector puts into the queue of its loop. -/
inductive ConnectorFunctor where
  | resetChannel
  | startInLoop
  | stopInLoop
  /-- `TimerQueue::cancelTimerInLoop` for the retry timer with this delay. -/
  | cancelTimerInLoop (delay : Nat)
  deriving DecidableEq, Repr

/-- `Connector`, with what it uses of its loop: the epoller, its functors among
the pending ones, and the timers that call `startInLoop`, by their delays. -/
structure Connector where
  /-- Whether a `shared_ptr` owns the connector; `TcpClient` keeps it in a `unique_ptr`. -/
  shared : Bool := false
  state_ : Connector.State := .kDisconnected
  connect_ : Bool := false
  connectChannel_ : Option Channel := none
  retryDelayMs_ : Nat := Connector.kInitRetryDelayMs
  /-- The last retry timer, by its delay. -/
  retryTimerId_ : Nat := 0
  validTimer_ : Bool := false
  epoller_ : Epoller := {}
  pendingFunctors_ : List ConnectorFunctor := []
  retryTimers : List Nat := []
  sockets : List SocketUse := []

namespace Connector

variable (q : Connector)

def log (use : SocketUse) : Connector := { q with sockets := q.sockets ++ [use] }

/-- `sockets::close`. -/
def close (fd : Fd) : Connector := q.log (.closed fd)

/-- `loop_->queueInLoop`. -/
def queueInLoop (f : ConnectorFunctor) : Connector :=
  { q with pendingFunctors_ := q.pendingFunctors_ ++ [f] }

def resetChannel : Connector := { q with connectChannel_ := none }

/-- `removeAndResetChannel`: the channel leaves the epoller now, and the
connector with the next functors. -/
def removeAndResetChannel : Except Fault (Fd × Connector) :=
  match q.connectChannel_ with
  | none => .error .nullPointer
  | some channel => do
      let fd := channel.fd_
      let (epoller, channel) ← channel.disableAll q.epoller_
      let (epoller, channel) ← epoller.removeChannel channel
      let q := { q with epoller_ := epoller, connectChannel_ := some channel }
      return (fd, q.queueInLoop .resetChannel)

/-- `establishConnection`; the state is set before the assertion. -/
def establishConnection (sockfd : Fd) (address : ConnId) : Except Fault Connector := do
  let q := { q with state_ := .kConnecting }
  assert (q.connectChannel_ = none) .establishConnection
  let channel : Channel := { self := address, fd_ := sockfd }
  let (epoller, channel) ← channel.enableWriting q.epoller_
  return { q with epoller_ := epoller, connectChannel_ := some channel }

def retry (sockfd : Fd) : Except Fault Connector := do
  assert (q.state_ = .kConnecting) .retry
  let q := q.close sockfd
  let q := { q with state_ := .kDisconnected }
  if q.connect_ then
    if q.shared then
      return { q with
        retryTimers := q.retryTimers ++ [q.retryDelayMs_]
        retryTimerId_ := q.retryDelayMs_
        validTimer_ := true
        retryDelayMs_ := min (q.retryDelayMs_ * 2) kMaxRetryDelayMs }
    else
      .error .badWeakPtr
  else
    return q

def connect (r : ConnectResult) : Except Fault Connector :=
  let q := q.log (.created r.fd)
  match r.errno with
  | .success | .EISCONN | .EINPROGRESS | .EINTR => q.establishConnection r.fd r.channel
  | .EAGAIN | .EADDRINUSE | .EADDRNOTAVAIL | .ECONNREFUSED | .ENETUNREACH => q.retry r.fd
  | .EACCES | .EPERM | .EAFNOSUPPORT | .EALREADY | .EBADF | .EFAULT | .ENOTSOCK =>
      .ok (q.close r.fd)
  | .other _ => .ok (q.close r.fd)

def startInLoop (r : ConnectResult) : Except Fault Connector := do
  assert (q.state_ = .kDisconnected) .startInLoop
  if q.connect_ then q.connect r else return q

def stopInLoop : Except Fault Connector :=
  if q.state_ = .kConnecting then do
    let q := { q with state_ := .kDisconnected }
    let (fd, q) ← q.removeAndResetChannel
    return q.close fd
  else
    return q

/-- `start`, called on the loop thread, where `runInLoop` runs at once. -/
def start (r : ConnectResult) : Except Fault Connector :=
  { q with connect_ := true }.startInLoop r

def restart (r : ConnectResult) : Except Fault Connector :=
  let q := { q with
    state_ := .kDisconnected, connect_ := true, retryDelayMs_ := kInitRetryDelayMs }
  q.startInLoop r

/-- `cancelTimerInLoop`. `cancelled`: the timer was still to come, and has been
taken out. -/
def cancelTimerInLoop (delay : Nat) (cancelled : Bool) : Connector :=
  if cancelled then { q with retryTimers := q.retryTimers.erase delay } else q

/-- `stop`, called on the loop thread. -/
def stop (cancelled : Bool) : Except Fault Connector := do
  let q ← { q with connect_ := false }.stopInLoop
  if q.validTimer_ then return q.cancelTimerInLoop q.retryTimerId_ cancelled else return q

/-- `handleWrite`, with `SO_ERROR` and the test for a self-connection as the
system answers them; returns the descriptor for `newConnCb_`, whose call is the
last thing the handler does. -/
def handleWrite (soError : Int) (selfConnect : Bool) : Except Fault (Connector × Option Fd) :=
  if q.state_ = .kConnecting then do
    let (socket_fd, q) ← q.removeAndResetChannel
    if soError ≠ 0 then
      return (← q.retry socket_fd, none)
    else if selfConnect then
      return (← q.retry socket_fd, none)
    else
      let q := { q with state_ := .kConnected }
      if q.connect_ then return (q.log (.handed socket_fd), some socket_fd)
      else return (q.close socket_fd, none)
  else do
    assert (q.state_ = .kDisconnected) .handleWrite
    return (q, none)

/-- `handleError`; `SO_ERROR` is only logged. -/
def handleError : Except Fault Connector := do
  assert (q.state_ = .kConnecting) .handleError
  let (socket_fd, q) ← q.removeAndResetChannel
  q.retry socket_fd

/-- `Channel::handleEventWithGuard` on the channel of the connector, which has
an error and a write callback. -/
def handleEvent (revent_ : Events) (soError : Int) (selfConnect : Bool) :
    Except Fault (Connector × Option Fd) := do
  let q ← (if revent_.epollerr then q.handleError else .ok q)
  if revent_.epollout then q.handleWrite soError selfConnect else return (q, none)

/-- `~Connector`. -/
def destructor (cancelled : Bool) : Except Fault Connector := do
  let q ← (if q.connectChannel_ ≠ none then q.stop cancelled else .ok q)
  assert (q.connectChannel_ = none) .connectorDestructor
  return q

/-- The channel is in the kernel's set. -/
def Registered : Prop :=
  ∃ channel, q.connectChannel_ = some channel ∧ channel.status_ = .kAdded ∧
    q.epoller_.kernel channel.fd_ = some (channel.event_, channel.self)

end Connector

/-- Where the loop of a client stands. -/
inductive ClientPhase where
  /-- Before `loop()`, or in `Epoller::wait`. -/
  | waiting
  /-- In the handlers of the active channels; `active` while the event of
  `connectChannel_` is still to come. -/
  | events (active : Option Events)
  /-- In `newConnection`, inside the user's `connectionCallback_`. -/
  | reporting (fd : Fd)
  /-- In `doPendingFunctors`, with the rest of the connector's functors in the
  swapped vector. -/
  | functors (batch : List ConnectorFunctor)
  deriving DecidableEq, Repr

/-- What a call of `connect` or `stop` on another thread has still to do. -/
inductive ClientCall where
  /-- `connector_->start()`, -/
  | start
  /-- and behind the store to the connector's `connect_`. -/
  | startInLoop
  /-- `connector_->stop()`, -/
  | stop
  /-- behind the store, -/
  | stopInLoop
  /-- behind `runInLoop(stopInLoop)`, -/
  | cancelTimer
  /-- and in `cancelTimer`, with the delay of the timer. -/
  | cancelTimerInLoop (delay : Nat)
  deriving DecidableEq, Repr

/-- `TcpClient` with its connector. A connection goes by its descriptor. -/
structure ConnectingClient where
  connector_ : Connector := {}
  retry_ : Bool := false
  connect_ : Bool := false
  establishedConnection_ : Option Fd := none
  /-- The connections made by `newConnection` that have not closed. -/
  connections : List Fd := []
  /-- The connections `disconnect` has called `shutdown` on. -/
  shutdowns : List Fd := []
  phase : ClientPhase := .waiting
  /-- The calls in progress on other threads. -/
  calls : List ClientCall := []
  alive : Bool := true

inductive ClientLabel where
  | poll (active : Option Events)
  | handleEvent (soError : Int) (selfConnect : Bool)
  /-- `connectionCallback_` returns, and `newConnection` with it. -/
  | reported
  | doPendingFunctors
  /-- The next functor, of each kind. -/
  | resetChannel
  | startInLoop (r : ConnectResult)
  | stopInLoop
  | cancelTimerInLoop (cancelled : Bool)
  | endFunctors
  /-- A retry timer with this delay calls `startInLoop`. -/
  | retryTimer (delay : Nat) (r : ConnectResult)
  | connect (r : ConnectResult)
  | stop (cancelled : Bool)
  /-- `connect` and `stop` on another thread, up to the call of the connector. -/
  | otherConnect
  | otherStop
  /-- The next step of such a call. -/
  | advance (i : Nat)
  | disconnect
  | setRetry (on : Bool)
  /-- The close callback of a connection. -/
  | removeConnection (fd : Fd) (r : ConnectResult)
  /-- The other channels of the loop change their registrations. -/
  | others (epoller : Epoller)
  /-- `~TcpClient`, and with it `~Connector`. -/
  | destroy (cancelled : Bool)

namespace ConnectingClient

variable (w : ConnectingClient)

/-- The functors of the connector in the round of functors. -/
def batch : List ConnectorFunctor :=
  match w.phase with
  | .functors batch => batch
  | _ => []

def connect (r : ConnectResult) : Except Fault ConnectingClient := do
  return { w with connect_ := true, connector_ := ← w.connector_.start r }

def disconnect : ConnectingClient :=
  { w with
    connect_ := false
    shutdowns := match w.establishedConnection_ with
      | some fd => w.shutdowns ++ [fd]
      | none => w.shutdowns }

def stop (cancelled : Bool) : Except Fault ConnectingClient := do
  return { w with connect_ := false, connector_ := ← w.connector_.stop cancelled }

/-- The next step of the `i`-th call on another thread. -/
def advance (i : Nat) : ConnectingClient :=
  match w.calls[i]? with
  | none => w
  | some .start => { w with
      connector_ := { w.connector_ with connect_ := true }
      calls := w.calls.set i .startInLoop }
  | some .startInLoop => { w with
      connector_ := w.connector_.queueInLoop .startInLoop
      calls := w.calls.eraseIdx i }
  | some .stop => { w with
      connector_ := { w.connector_ with connect_ := false }
      calls := w.calls.set i .stopInLoop }
  | some .stopInLoop => { w with
      connector_ := w.connector_.queueInLoop .stopInLoop
      calls := w.calls.set i .cancelTimer }
  | some .cancelTimer => { w with
      calls := if w.connector_.validTimer_ then
          w.calls.set i (.cancelTimerInLoop w.connector_.retryTimerId_)
        else w.calls.eraseIdx i }
  | some (.cancelTimerInLoop delay) => { w with
      connector_ := w.connector_.queueInLoop (.cancelTimerInLoop delay)
      calls := w.calls.eraseIdx i }

/-- The next functor leaves the batch. -/
def popFunctor : ConnectingClient := { w with phase := .functors w.batch.tail }

/-- `newConnection`, up to the user's callback. -/
def newConnection (fd : Fd) : ConnectingClient :=
  { w with connections := fd :: w.connections, phase := .reporting fd }

/-- The rest of `newConnection`. -/
def reported (fd : Fd) : ConnectingClient :=
  { w with establishedConnection_ := some fd, phase := .events none }

def removeConnection (fd : Fd) (r : ConnectResult) : Except Fault ConnectingClient := do
  let w := { w with establishedConnection_ := none, connections := w.connections.erase fd }
  if w.retry_ && w.connect_ then
    return { w with connector_ := ← w.connector_.restart r }
  else
    return w

/-- The event of `connectChannel_`; the epoller has the bare pointer. -/
def handleEvent (revent_ : Events) (soError : Int) (selfConnect : Bool) :
    Except Fault ConnectingClient :=
  match w.connector_.connectChannel_ with
  | none => .error .dangling
  | some _ => do
      let (connector, handed) ← w.connector_.handleEvent revent_ soError selfConnect
      let w := { w with connector_ := connector, phase := .events none }
      match handed with
      | some fd => return w.newConnection fd
      | none => return w

def startInLoop (r : ConnectResult) : Except Fault ConnectingClient := do
  return { w with connector_ := ← w.connector_.startInLoop r }

def stopInLoop : Except Fault ConnectingClient := do
  return { w with connector_ := ← w.connector_.stopInLoop }

def cancelTimerInLoop (cancelled : Bool) : ConnectingClient :=
  match w.batch with
  | .cancelTimerInLoop delay :: _ => { w.popFunctor with
      connector_ := w.connector_.cancelTimerInLoop delay cancelled }
  | _ => w

def retryTimer (delay : Nat) (r : ConnectResult) : Except Fault ConnectingClient :=
  let q := { w.connector_ with retryTimers := w.connector_.retryTimers.erase delay }
  { w with connector_ := q }.startInLoop r

/-- `~TcpClient`: the connector is stopped unless there is a connection, which
then gets another close callback. The members are destroyed after the body. -/
def destroy (cancelled : Bool) : Except Fault ConnectingClient := do
  let q ← (if w.establishedConnection_ = none then w.connector_.stop cancelled
    else .ok w.connector_)
  return { w with connector_ := ← q.destructor cancelled, alive := false, connections := [] }

def step : ClientLabel → Except Fault ConnectingClient
  | .poll active => .ok { w with phase := .events active }
  | .handleEvent soError selfConnect =>
      match w.phase with
      | .events (some revent_) => w.handleEvent revent_ soError selfConnect
      | _ => .ok w
  | .reported =>
      match w.phase with
      | .reporting fd => .ok (w.reported fd)
      | _ => .ok w
  | .doPendingFunctors =>
      .ok { w with
        phase := .functors w.connector_.pendingFunctors_
        connector_ := { w.connector_ with pendingFunctors_ := [] } }
  | .resetChannel => .ok { w.popFunctor with connector_ := w.connector_.resetChannel }
  | .startInLoop r => w.popFunctor.startInLoop r
  | .stopInLoop => w.popFunctor.stopInLoop
  | .cancelTimerInLoop cancelled => .ok (w.cancelTimerInLoop cancelled)
  | .endFunctors => .ok { w with phase := .waiting }
  | .retryTimer delay r => w.retryTimer delay r
  | .connect r => w.connect r
  | .stop cancelled => w.stop cancelled
  | .otherConnect => .ok { w with connect_ := true, calls := w.calls ++ [.start] }
  | .otherStop => .ok { w with connect_ := false, calls := w.calls ++ [.stop] }
  | .advance i => .ok (w.advance i)
  | .disconnect => .ok w.disconnect
  | .setRetry on => .ok { w with retry_ := on }
  | .removeConnection fd r => w.removeConnection fd r
  | .others epoller => .ok { w with connector_ := { w.connector_ with epoller_ := epoller } }
  | .destroy cancelled => w.destroy cancelled

/-- The user's callback is not on the stack. -/
def NotReporting : Prop := ∀ fd, w.phase ≠ .reporting fd

/-- What the loop and the system can do next. The kernel reports only a channel
in its set, with any mask. A pending timer keeps the connector alive. -/
def Admits : ClientLabel → Prop
  | .poll active => w.phase = .waiting ∧ (active ≠ none → w.connector_.Registered)
  | .handleEvent _ _ => ∃ revent_, w.phase = .events (some revent_)
  | .reported => ∃ fd, w.phase = .reporting fd
  | .doPendingFunctors => w.phase = .events none
  | .resetChannel => ∃ batch, w.phase = .functors (.resetChannel :: batch)
  | .startInLoop _ => ∃ batch, w.phase = .functors (.startInLoop :: batch)
  | .stopInLoop => ∃ batch, w.phase = .functors (.stopInLoop :: batch)
  | .cancelTimerInLoop _ =>
      ∃ delay batch, w.phase = .functors (.cancelTimerInLoop delay :: batch)
  | .endFunctors => w.phase = .functors []
  | .retryTimer delay _ =>
      (∃ active, w.phase = .events active) ∧ delay ∈ w.connector_.retryTimers
  | .connect _ | .stop _ | .otherConnect | .otherStop | .disconnect | .setRetry _ => True
  | .advance i => i < w.calls.length
  | .removeConnection fd _ => w.NotReporting ∧ fd ∈ w.connections
  | .others epoller =>
      -- a channel out of the epoller may share its number with a newer descriptor
      ∀ channel, w.connector_.connectChannel_ = some channel → channel.status_ ≠ .kNew →
        epoller.kernel channel.fd_ = w.connector_.epoller_.kernel channel.fd_ ∧
        epoller.channelMap_ channel.fd_ = w.connector_.epoller_.channelMap_ channel.fd_
  | .destroy _ => w.NotReporting ∧ w.connector_.retryTimers = []

/-- A new client on a loop with an epoller. -/
def init (shared : Bool) (epoller : Epoller) : ConnectingClient where
  connector_ := { shared := shared, epoller_ := epoller }

end ConnectingClient

/-- A client and its connector on one loop, under any calls: `connect` and `stop`
from any thread, the others from the loop's. -/
def client : System ConnectingClient ClientLabel Fault where
  enabled := fun w l => w.alive ∧ w.Admits l
  step := ConnectingClient.step

end Ham.Net
