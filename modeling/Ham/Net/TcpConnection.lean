import Ham.Net.Buffer
import Ham.Net.Epoller

/-!
# `TcpConnection`

The member functions of a connection, each on a `ConnRun`: the connection, the
epoller of its loop, the thread that executes the code, and the effects on the
rest of the program in the order they happen. Results of system calls are
arguments.

`Channel::handleEventWithGuard` calls the handlers of one event in sequence
and the user's `messageCallback_` runs in the middle of it, so it is cut in two
there: `handleEvent` up to the read, `handleEventWrite` behind it. The user's
callbacks that end a handler are not cut off from it: what they do comes after.
-/

namespace Ham.Net

/-- An event loop, named by its position: `0` is the base loop of the server. -/
abbrev LoopId := Nat

/-- The thread of a loop, or a thread without one. -/
abbrev Thread := Option LoopId

inductive State where
  | kDisconnected | kConnecting | kConnected | kDisconnecting
  deriving DecidableEq, Repr

/-- The functors that pass through a loop's queue. -/
inductive Functor where
  | establishConnection (c : ConnId)
  | destoryConnection (c : ConnId)
  | sendInLoop (c : ConnId) (msg : Bytes)
  | shutdownInLoop (c : ConnId)
  | forceCloseInLoop (c : ConnId)
  | writeCompleteCallback (c : ConnId)
  | highWaterMarkCallback (c : ConnId) (size : Nat)
  | removeConnectionInLoop (c : ConnId)
  deriving DecidableEq, Repr

/-- The values of `errno` behind a failed `write` that `sendInLoop` tells
apart. -/
inductive WriteErrno where
  | eWouldBlock | ePipe | eConnReset | other
  deriving DecidableEq, Repr

/-- The result of `sockets::write`. -/
inductive WriteResult where
  | wrote (n : Nat)
  | failed (errno : WriteErrno)
  deriving DecidableEq, Repr

/-- The result of `readFd`: bytes, end of stream, or an error. -/
inductive ReadResult where
  | data (bytes : Bytes)
  | eof
  | failed
  deriving DecidableEq, Repr

/-- What `closeCallback_` is bound to: `TcpServer::removeConnection`,
`TcpClient::removeConnection`, or `detail::removeConnection`, which
`~TcpClient` installs. -/
inductive CloseCallback where
  | server | client | detail
  deriving DecidableEq, Repr

/-- What a member function does to the program around the connection. -/
inductive Effect where
  /-- `loop_->queueInLoop(f)`. -/
  | queueInLoop (f : Functor)
  /-- A store to `state_` made by another thread after its test of `state_`,
  then `loop_->queueInLoop(f)`. -/
  | storeThenQueue (state : State) (f : Functor)
  /-- `closeCallback_(shared_from_this())`. -/
  | closeCallback
  /-- `TcpServer::removeConnectionInLoop`. -/
  | removeConnectionInLoop
  deriving DecidableEq, Repr

/-- What the outside has seen of a connection. -/
structure ConnLog where
  /-- The bytes the kernel accepted. -/
  accepted : Bytes := []
  /-- Calls of `socket_->shutdownWrite()`. -/
  shutdownWrites : Nat := 0
  /-- Calls of `connectionCallback_`, with `isConnected()` at the call. -/
  connectionCalls : List Bool := []
  /-- Calls of `closeCallback_`. -/
  closeCalls : Nat := 0
  /-- `destoryConnection` has run. -/
  destroyed : Bool := false

/-- `TcpConnection`. `connectionCallback_` and `messageCallback_` are set
before a connection is established; the other two callbacks may be empty. -/
structure TcpConnection where
  self : ConnId
  loop_ : LoopId
  name_ : Bytes
  state_ : State := .kConnecting
  channel_ : Channel
  inputBuffer_ : Buffer := Buffer.new
  outputBuffer_ : Buffer := Buffer.new
  highWaterMark_ : Nat := 64 * 1024 * 1024
  writeCompleteCallback_ : Bool := false
  highWaterMarkCallback_ : Bool := false
  closeCallback_ : CloseCallback
  log : ConnLog := {}

/-- A member function at work. -/
structure ConnRun where
  thread : Thread
  epoller : Epoller
  conn : TcpConnection
  effects : List Effect := []

namespace ConnRun

variable (x : ConnRun)

/-! ## Steps the functions are made of -/

def isInLoopThread : Bool := x.thread = some x.conn.loop_

def assertInLoopThread : Except Fault Unit :=
  if x.isInLoopThread then .ok () else .error .critical

def setState (state : State) : ConnRun := { x with conn := { x.conn with state_ := state } }

def emit (e : Effect) : ConnRun := { x with effects := x.effects ++ [e] }

def onLog (f : ConnLog → ConnLog) : ConnRun :=
  { x with conn := { x.conn with log := f x.conn.log } }

/-- An operation of the channel, which goes through to the epoller. -/
def onChannel (f : Channel → Epoller → Except Fault (Epoller × Channel)) :
    Except Fault ConnRun := do
  let (epoller, channel) ← f x.conn.channel_ x.epoller
  return { x with epoller := epoller, conn := { x.conn with channel_ := channel } }

/-- `connectionCallback_(shared_from_this())`. -/
def connectionCallback : ConnRun :=
  x.onLog fun log =>
    { log with connectionCalls := log.connectionCalls ++ [decide (x.conn.state_ = .kConnected)] }

/-- `write` took the first `n` bytes of `data`. -/
def accept (data : Bytes) (n : Nat) : ConnRun :=
  x.onLog fun log => { log with accepted := log.accepted ++ data.take n }

/-- `loop_->queueInLoop` of the user's `writeCompleteCallback_`, if any. -/
def queueWriteComplete : ConnRun :=
  if x.conn.writeCompleteCallback_ then
    x.emit (.queueInLoop (.writeCompleteCallback x.conn.self))
  else x

/-! ## The beginning and the end -/

/-- `establishConnection`. Its `assert(state_ = State::kConnecting)` assigns,
and the next line overwrites the value. -/
def establishConnection : Except Fault ConnRun := do
  x.assertInLoopThread
  let x ← (x.setState .kConnected).onChannel Channel.enableReading
  return x.connectionCallback

/-- The branch of `destoryConnection` for a connection the server closes by
itself. -/
def stopIfConnected : Except Fault ConnRun :=
  if x.conn.state_ = .kConnected then do
    let x ← (x.setState .kDisconnected).onChannel Channel.disableAll
    return x.connectionCallback
  else .ok x

def destoryConnection : Except Fault ConnRun := do
  x.assertInLoopThread
  let x ← x.stopIfConnected
  let x ← x.onChannel fun ch p => p.removeChannel ch
  return x.onLog fun log => { log with destroyed := true }

def handleClose : Except Fault ConnRun := do
  x.assertInLoopThread
  let x ← (x.setState .kDisconnected).onChannel Channel.disableAll
  return (x.onLog fun log => { log with closeCalls := log.closeCalls + 1 }).emit .closeCallback

def shutdownInLoop : Except Fault ConnRun := do
  x.assertInLoopThread
  if x.conn.channel_.isWriting then return x
  else
    return (x.setState .kDisconnected).onLog
      fun log => { log with shutdownWrites := log.shutdownWrites + 1 }

def forceCloseInLoop : Except Fault ConnRun := do
  x.assertInLoopThread
  if x.conn.state_ = .kConnected ∨ x.conn.state_ = .kDisconnecting then x.handleClose
  else return x

/-! ## Input and output -/

/-- `handleRead`; after data the user's `messageCallback_` takes over. -/
def handleRead (read : ReadResult) : Except Fault ConnRun := do
  x.assertInLoopThread
  match read with
  | .data bytes =>
      return { x with conn := { x.conn with inputBuffer_ := x.conn.inputBuffer_.readFd bytes } }
  | .eof => x.handleClose
  | .failed => return x

def handleWrite (write : WriteResult) : Except Fault ConnRun := do
  x.assertInLoopThread
  if x.conn.channel_.isWriting then
    match write with
    | .wrote n =>
        if 0 < n then do
          let x := x.accept x.conn.outputBuffer_.readable n
          let outputBuffer ← x.conn.outputBuffer_.retrieve n
          let x := { x with conn := { x.conn with outputBuffer_ := outputBuffer } }
          if outputBuffer.readableBytes = 0 then do
            let x ← x.onChannel Channel.disableWriting
            let x := x.queueWriteComplete
            if x.conn.state_ = .kDisconnecting then x.shutdownInLoop else pure x
          else pure x
        else return x
    | .failed _ => return x
  else return x

/-- The direct `write` of `sendInLoop`, with `n_wrote` and `faultError`. -/
def directWrite (data : Bytes) (write : WriteResult) : ConnRun × Nat × Bool :=
  match write with
  | .wrote n =>
      let x := x.accept data n
      (if data.length - n = 0 then x.queueWriteComplete else x, n, false)
  | .failed errno => (x, 0, decide (errno = WriteErrno.ePipe ∨ errno = WriteErrno.eConnReset))

/-- The end of `sendInLoop`, when `remaining` bytes could not be written. -/
def bufferRest (data : Bytes) (nWrote remaining : Nat) : Except Fault ConnRun := do
  let oldLen := x.conn.outputBuffer_.readableBytes
  let x :=
    if oldLen < x.conn.highWaterMark_ ∧ oldLen + remaining ≥ x.conn.highWaterMark_ ∧
        x.conn.highWaterMarkCallback_ then
      x.emit (.queueInLoop (.highWaterMarkCallback x.conn.self (oldLen + remaining)))
    else x
  let x := { x with conn := { x.conn with
    outputBuffer_ := x.conn.outputBuffer_.append ((data.drop nWrote).take remaining) } }
  if x.conn.channel_.isWriting then return x else x.onChannel Channel.enableWriting

/-- `sendInLoop(data, len)`. Everything happens under the test that nothing is
pending: with output pending the message is not looked at. -/
def sendInLoop (data : Bytes) (write : WriteResult) : Except Fault ConnRun := do
  x.assertInLoopThread
  if x.conn.channel_.isWriting = false ∧ x.conn.outputBuffer_.readableBytes = 0 then do
    let direct := x.directWrite data write
    let remaining := data.length - direct.2.1
    assert (remaining ≤ data.length) .sendRemaining
    if direct.2.2 = false ∧ 0 < remaining then
      direct.1.bufferRest data direct.2.1 remaining
    else return direct.1
  else return x

/-! ## The interface of the user -/

/-- `send(const std::string&)`. -/
def send (msg : Bytes) (write : WriteResult) : Except Fault ConnRun :=
  if x.conn.state_ = .kConnected then
    if x.isInLoopThread then x.sendInLoop msg write
    else .ok (x.emit (.queueInLoop (.sendInLoop x.conn.self msg)))
  else .ok x

/-- `send(Buffer&)`, with what it leaves in the buffer. -/
def sendBuffer (buffer : Buffer) (write : WriteResult) : Except Fault (ConnRun × Buffer) :=
  if x.conn.state_ = .kConnected then
    if x.isInLoopThread then do
      let x ← x.sendInLoop buffer.readable write
      return (x, buffer.retrieveAll)
    else
      let all := buffer.retrieveAllAsString
      .ok (x.emit (.queueInLoop (.sendInLoop x.conn.self all.1)), all.2)
  else .ok (x, buffer)

/-- `shutdown`. On another thread the store comes after the test, with room
for the loop's own stores between the two. -/
def shutdown : Except Fault ConnRun :=
  if x.conn.state_ = .kConnected then
    if x.isInLoopThread then (x.setState .kDisconnecting).shutdownInLoop
    else .ok (x.emit (.storeThenQueue .kDisconnecting (.shutdownInLoop x.conn.self)))
  else .ok x

/-- `forceClose`. -/
def forceClose : Except Fault ConnRun :=
  if x.conn.state_ = .kConnected ∨ x.conn.state_ = .kDisconnecting then
    if x.isInLoopThread then
      .ok ((x.setState .kDisconnecting).emit (.queueInLoop (.forceCloseInLoop x.conn.self)))
    else .ok (x.emit (.storeThenQueue .kDisconnecting (.forceCloseInLoop x.conn.self)))
  else .ok x

/-! ## Events -/

/-- The close callback of `handleEventWithGuard`. -/
def hangupEvent (revents : Events) : Except Fault ConnRun :=
  if revents.epollhup ∧ ¬ revents.epollin then x.handleClose else .ok x

/-- The read callback of `handleEventWithGuard`. -/
def readEvent (revents : Events) (read : ReadResult) : Except Fault ConnRun :=
  if revents.epollin ∨ revents.epollpri ∨ revents.epollrdhup then x.handleRead read else .ok x

/-- `handleEventWithGuard` up to and including the read callback. The error
callback, between the two, only logs. -/
def handleEvent (revents : Events) (read : ReadResult) : Except Fault ConnRun := do
  let x ← x.hangupEvent revents
  x.readEvent revents read

/-- The rest of `handleEventWithGuard`. -/
def handleEventWrite (revents : Events) (write : WriteResult) : Except Fault ConnRun :=
  if revents.epollout then x.handleWrite write else .ok x

end ConnRun

end Ham.Net
