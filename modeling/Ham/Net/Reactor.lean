import Ham.Lib.Run
import Ham.Net.TcpConnection

/-!
# The reactor

Event loops, a `TcpServer`, a `TcpClient`, and the connections they own, as one
labelled system. A label is what the scheduler and the kernel choose next; a
step first moves the queues and registries (`World.prepare`) and then runs one
member function on one connection (`World.action`, `World.onConn`).

* A loop goes through `EventLoop::loop`: `poll`, one `handleEvent` (cut in two
  behind the read) per active channel, then the swap and the functors of
  `doPendingFunctors`. Timers and other channels only add user code, so the
  user may call a connection at any point between two handlers and in the
  callbacks inside one.
* A call from another thread tests `state_` in one step and ends in
  `queueInLoop` in a later one; `Handover` is what it still has to do. Where
  the call also stores to `state_`, the store is a step between the two.
* `~TcpServer` destroys its connections one step at a time, because the
  callbacks in between belong to the user.
* The address of a connection is a `ConnId`, given out once; its descriptor
  is whatever the kernel hands out, and is free again after `release`.

Timers, the acceptor's own channel, the connector and the wakeup descriptor
are not part of a connection's life and are left out.
-/

namespace Ham.Net

open Ham.Lib

/-! ## State -/

/-- Where a loop stands in `EventLoop::loop`. -/
inductive Phase where
  /-- In `epoll_wait`. -/
  | waiting
  /-- Between two handlers, with the active channels still to come. -/
  | events (active : List (ConnId × Events))
  /-- In `handleEvent`, behind the read; `inMessage` while `messageCallback_`
  runs. -/
  | handling (c : ConnId) (revents : Events) (inMessage : Bool)
      (active : List (ConnId × Events))
  /-- In `doPendingFunctors`, with the rest of the swapped vector. -/
  | functors (batch : List Functor)

structure EventLoop where
  epoller_ : Epoller := {}
  pendingFunctors_ : List Functor := []
  phase : Phase := .waiting

/-- `TcpServer` with its thread pool: loop `0` is the base loop, loops `1` to
`numOfThreads_` are those of the pool. -/
structure TcpServer where
  hostPost_ : Bytes := []
  numOfThreads_ : Nat := 0
  nextLoopIdx_ : Nat := 0
  nextConnId_ : Int := 1
  connections_ : Std.ExtTreeMap Bytes ConnId compare := ∅
  writeCompleteCallback_ : Bool := false
  /-- `~TcpServer` at work, with the connections it has not reached yet. -/
  destroying : Option (List ConnId) := none
  alive : Bool := true

structure TcpClient where
  loop_ : LoopId := 0
  name_ : Bytes := []
  nextConnId_ : Int := 1
  writeCompleteCallback_ : Bool := false
  establishedConnection_ : Option ConnId := none
  /-- `newConnection` at work, in `establishConnection`. -/
  establishing : Option ConnId := none
  alive : Bool := true

/-- What a call on another thread has still to do. -/
inductive Handover where
  /-- Store to `state_`, then `queueInLoop`. -/
  | store (c : ConnId) (state : State) (loop : LoopId) (f : Functor)
  /-- `queueInLoop`. -/
  | queue (loop : LoopId) (f : Functor)
  deriving DecidableEq

structure World where
  conns : ConnId → Option TcpConnection := fun _ => none
  /-- The address of the next connection. -/
  nextConn : ConnId := 0
  loops : LoopId → EventLoop := fun _ => {}
  server : TcpServer := {}
  client : TcpClient := {}
  handovers : List Handover := []

/-! ## What runs on a connection -/

/-- One member function, with the results of its system calls. -/
inductive Action where
  | establishConnection
  /-- `loop->runInLoop(establishConnection)`. -/
  | runEstablish
  | destoryConnection
  | handleEvent (revents : Events) (read : ReadResult)
  /-- The rest of `handleEvent`; `left` is what the user's `messageCallback_`
  made of the input buffer. -/
  | handleEventWrite (revents : Events) (left : Option Buffer) (write : WriteResult)
  | sendInLoop (msg : Bytes) (write : WriteResult)
  | shutdownInLoop
  | forceCloseInLoop
  | removeConnectionInLoop
  | send (msg : Bytes) (write : WriteResult)
  | shutdown
  | forceClose
  /-- The store of another thread to `state_`. -/
  | store (state : State)
  /-- `~TcpClient` on its established connection: a new `closeCallback_`, and
  `forceClose` if nobody else holds the connection. -/
  | detach (unique : Bool)

namespace Action

def run (x : ConnRun) : Action → Except Fault ConnRun
  | .establishConnection => x.establishConnection
  | .runEstablish =>
      if x.isInLoopThread then x.establishConnection
      else .ok (x.emit (.queueInLoop (.establishConnection x.conn.self)))
  | .destoryConnection => x.destoryConnection
  | .handleEvent revents read => x.handleEvent revents read
  | .handleEventWrite revents left write =>
      let inputBuffer := left.getD x.conn.inputBuffer_
      ConnRun.handleEventWrite { x with conn := { x.conn with inputBuffer_ := inputBuffer } }
        revents write
  | .sendInLoop msg write => x.sendInLoop msg write
  | .shutdownInLoop => x.shutdownInLoop
  | .forceCloseInLoop => x.forceCloseInLoop
  | .removeConnectionInLoop => .ok (x.emit .removeConnectionInLoop)
  | .send msg write => x.send msg write
  | .shutdown => x.shutdown
  | .forceClose => x.forceClose
  | .store state => .ok (x.setState state)
  | .detach unique =>
      let x : ConnRun := { x with conn := { x.conn with closeCallback_ := .detail } }
      if unique then x.forceClose else .ok x

end Action

namespace Functor

/-- The connection a functor is about. -/
def conn : Functor → ConnId
  | .establishConnection c | .destoryConnection c | .sendInLoop c _ | .shutdownInLoop c
  | .forceCloseInLoop c | .writeCompleteCallback c | .highWaterMarkCallback c _
  | .removeConnectionInLoop c => c

/-- The functor holds a `shared_ptr`; the other two are bound to `this`. -/
def owning : Functor → Bool
  | .sendInLoop _ _ | .shutdownInLoop _ => false
  | _ => true

/-- The call of a functor. The two that run user code are the user's calls
that follow. -/
def action (write : WriteResult) : Functor → Option Action
  | .establishConnection _ => some .establishConnection
  | .destoryConnection _ => some .destoryConnection
  | .sendInLoop _ msg => some (.sendInLoop msg write)
  | .shutdownInLoop _ => some .shutdownInLoop
  | .forceCloseInLoop _ => some .forceCloseInLoop
  | .removeConnectionInLoop _ => some .removeConnectionInLoop
  | .writeCompleteCallback _ | .highWaterMarkCallback _ _ => none

/-- The bytes the functor offers to `write`. -/
def offered : Functor → Bytes
  | .sendInLoop _ msg => msg
  | _ => []

end Functor

/-! ## The steps of a loop -/

namespace EventLoop

/-- The critical section of `queueInLoop`. -/
def enqueue (f : Functor) (e : EventLoop) : EventLoop :=
  { e with pendingFunctors_ := e.pendingFunctors_ ++ [f] }

def setEpoller (epoller : Epoller) (e : EventLoop) : EventLoop := { e with epoller_ := epoller }

/-- The kernel drops a closed descriptor from the epoll set. -/
def closeFd (fd : Fd) (e : EventLoop) : EventLoop :=
  { e with epoller_ := { e.epoller_ with kernel := Function.update e.epoller_.kernel fd none } }

/-- `epoll_wait` returns with active channels. -/
def wake (active : List (ConnId × Events)) (e : EventLoop) : EventLoop :=
  { e with phase := .events active }

/-- The next active channel handles its event, up to the read. -/
def beginEvent (read : ReadResult) (e : EventLoop) : EventLoop :=
  match e.phase with
  | .events ((c, revents) :: active) =>
      let reads := revents.epollin || revents.epollpri || revents.epollrdhup
      let inMessage := reads && match read with | .data _ => true | _ => false
      { e with phase := .handling c revents inMessage active }
  | _ => e

/-- The event is handled. -/
def endEvent (e : EventLoop) : EventLoop :=
  match e.phase with
  | .handling _ _ _ active => { e with phase := .events active }
  | _ => e

/-- `Functors.swap(pendingFunctors_)`. -/
def swapFunctors (e : EventLoop) : EventLoop :=
  { e with phase := .functors e.pendingFunctors_, pendingFunctors_ := [] }

def popFunctor (e : EventLoop) : EventLoop :=
  match e.phase with
  | .functors (_ :: batch) => { e with phase := .functors batch }
  | _ => e

/-- Back to `epoll_wait`. -/
def wait (e : EventLoop) : EventLoop := { e with phase := .waiting }

end EventLoop

namespace World

/-! ## Effects on the rest of the program -/

def onLoop (w : World) (ℓ : LoopId) (f : EventLoop → EventLoop) : World :=
  { w with loops := Function.update w.loops ℓ (f (w.loops ℓ)) }

/-- `loop->queueInLoop(f)` on thread `t`. -/
def queueInLoop (w : World) (t : Thread) (ℓ : LoopId) (f : Functor) : World :=
  if t = some ℓ then w.onLoop ℓ (EventLoop.enqueue f)
  else { w with handovers := w.handovers ++ [.queue ℓ f] }

/-- `connections_.erase(name)`. -/
def eraseConnection (w : World) (name : Bytes) : World :=
  { w with server := { w.server with connections_ := w.server.connections_.erase name } }

/-- `TcpServer::removeConnectionInLoop`, bound to the server's `this`. -/
def removeConnectionInLoop (w : World) (t : Thread) (k : TcpConnection) : Except Fault World :=
  if ¬ w.server.alive then .error .dangling
  else if t ≠ some 0 then .error .critical
  else .ok ((w.eraseConnection k.name_).queueInLoop t k.loop_ (.destoryConnection k.self))

/-- `establishedConnection_.reset()`. -/
def resetEstablished (w : World) : World :=
  { w with client := { w.client with establishedConnection_ := none } }

/-- `closeCallback_(conn)`. The reconnection `TcpClient::removeConnection` may
start is the connector's business. -/
def closeCallback (w : World) (t : Thread) (k : TcpConnection) : Except Fault World :=
  match k.closeCallback_ with
  | .server =>
      if ¬ w.server.alive then .error .dangling
      else if t = some 0 then w.removeConnectionInLoop t k
      else .ok (w.queueInLoop t 0 (.removeConnectionInLoop k.self))
  | .client =>
      if ¬ w.client.alive then .error .dangling
      else if t ≠ some w.client.loop_ then .error .critical
      else .ok (w.resetEstablished.queueInLoop t k.loop_ (.destoryConnection k.self))
  | .detail => .ok (w.queueInLoop t k.loop_ (.destoryConnection k.self))

def effect (t : Thread) (k : TcpConnection) (w : World) : Effect → Except Fault World
  | .queueInLoop f => .ok (w.queueInLoop t k.loop_ f)
  | .storeThenQueue state f =>
      .ok { w with handovers := w.handovers ++ [.store k.self state k.loop_ f] }
  | .closeCallback => w.closeCallback t k
  | .removeConnectionInLoop => w.removeConnectionInLoop t k

/-- A member function of `c` on thread `t`, then its effects in order. -/
def onConn (w : World) (t : Thread) (c : ConnId) (a : Action) : Except Fault World :=
  match w.conns c with
  | none => .error .dangling
  | some k => do
      let y ← a.run ⟨t, (w.loops k.loop_).epoller_, k, []⟩
      let w := { w with conns := Function.update w.conns c (some y.conn) }
      let w := w.onLoop k.loop_ (EventLoop.setEpoller y.epoller)
      y.effects.foldlM (effect t y.conn) w

end World

/-! ## Labels -/

inductive Label where
  | poll (ℓ : LoopId) (active : List (ConnId × Events))
  | handleEvent (ℓ : LoopId) (read : ReadResult)
  | handleEventWrite (ℓ : LoopId) (left : Option Buffer) (write : WriteResult)
  | beginFunctors (ℓ : LoopId)
  | runFunctor (ℓ : LoopId) (write : WriteResult)
  | endFunctors (ℓ : LoopId)
  /-- `TcpServer::newConnectionCallback`. -/
  | accept (fd : Fd)
  /-- `TcpClient::newConnection`, into and out of `establishConnection`. -/
  | newConnection (fd : Fd) (peer : Bytes)
  | newConnectionReturn
  | send (t : Thread) (c : ConnId) (msg : Bytes) (write : WriteResult)
  | shutdown (t : Thread) (c : ConnId)
  | forceClose (t : Thread) (c : ConnId)
  /-- The next step of a call on another thread. -/
  | advance (i : Nat)
  /-- `~TcpServer`: its start, one `destoryConnection`, its end. -/
  | destroyServer
  | destroyNext
  | destroyServerEnd
  /-- `~TcpClient`, with the value of `establishedConnection_.unique()`. -/
  | destroyClient (unique : Bool)
  /-- The last `shared_ptr` to a connection goes, and with it its socket. -/
  | release (c : ConnId)

/-- `std::to_string` of an `int`. -/
def decimalInt (n : Int) : Bytes :=
  if n < 0 then ascii ['-'] ++ decimal n.natAbs else decimal n.natAbs

/-- `n++` on a 32-bit `int`, wrapping. -/
def nextInt (n : Int) : Int := (n + 1).bmod (2 ^ 32)

namespace TcpServer

/-- `EventLoopThreadPool::getNextLoop`. -/
def getNextLoop (s : TcpServer) : LoopId × TcpServer :=
  if s.numOfThreads_ = 0 then (0, s)
  else
    let next := s.nextLoopIdx_ + 1
    (s.nextLoopIdx_ + 1, { s with nextLoopIdx_ := if next ≥ s.numOfThreads_ then 0 else next })

/-- The name of the next connection. -/
def nextName (s : TcpServer) : Bytes := s.hostPost_ ++ ascii ['#'] ++ decimalInt s.nextConnId_

end TcpServer

namespace World

/-- A new connection at the next address. -/
def alloc (w : World) (k : TcpConnection) : World :=
  { w with conns := Function.update w.conns w.nextConn (some k), nextConn := w.nextConn + 1 }

/-- The constructor of `TcpConnection` and the callbacks its owner sets. -/
def newTcpConnection (w : World) (ℓ : LoopId) (name : Bytes) (fd : Fd) (closeCb : CloseCallback)
    (writeCompleteCb : Bool) : TcpConnection where
  self := w.nextConn
  loop_ := ℓ
  name_ := name
  channel_ := { self := w.nextConn, fd_ := fd }
  closeCallback_ := closeCb
  writeCompleteCallback_ := writeCompleteCb

/-- The part of `newConnectionCallback` before `runInLoop`. -/
def newConnectionCallback (w : World) (fd : Fd) : World :=
  let next := w.server.getNextLoop
  let name := w.server.nextName
  let k := w.newTcpConnection next.1 name fd .server w.server.writeCompleteCallback_
  { w.alloc k with
    server := { next.2 with
      nextConnId_ := nextInt w.server.nextConnId_
      connections_ := w.server.connections_.insert name w.nextConn } }

/-- The part of `TcpClient::newConnection` before `establishConnection`. -/
def clientNewConnection (w : World) (fd : Fd) (peer : Bytes) : World :=
  let name := w.client.name_ ++ ascii [':'] ++ peer ++ ascii ['#'] ++
    decimalInt w.client.nextConnId_
  let k := w.newTcpConnection w.client.loop_ name fd .client w.client.writeCompleteCallback_
  { w.alloc k with
    client := { w.client with
      nextConnId_ := nextInt w.client.nextConnId_
      establishing := some w.nextConn } }

/-- The next step of the `i`-th call on another thread, but for the store. -/
def advance (w : World) (i : Nat) : World :=
  match w.handovers[i]? with
  | none => w
  | some (.store _ _ ℓ f) => { w with handovers := w.handovers.set i (.queue ℓ f) }
  | some (.queue ℓ f) =>
      { w with handovers := w.handovers.eraseIdx i }.onLoop ℓ (EventLoop.enqueue f)

/-- What a step does to the queues and registries. -/
def prepare (w : World) : Label → World
  | .poll ℓ active => w.onLoop ℓ (EventLoop.wake active)
  | .handleEvent ℓ read => w.onLoop ℓ (EventLoop.beginEvent read)
  | .handleEventWrite ℓ _ _ => w.onLoop ℓ EventLoop.endEvent
  | .beginFunctors ℓ => w.onLoop ℓ EventLoop.swapFunctors
  | .runFunctor ℓ _ => w.onLoop ℓ EventLoop.popFunctor
  | .endFunctors ℓ => w.onLoop ℓ EventLoop.wait
  | .accept fd => w.newConnectionCallback fd
  | .newConnection fd peer => w.clientNewConnection fd peer
  | .newConnectionReturn => { w with
      client := { w.client with
        establishedConnection_ := w.client.establishing, establishing := none } }
  | .send _ _ _ _ | .shutdown _ _ | .forceClose _ _ => w
  | .advance i => w.advance i
  | .destroyServer => { w with
      server := { w.server with
        destroying := some (w.server.connections_.toList.map (·.2)) } }
  | .destroyNext => { w with
      server := { w.server with destroying := w.server.destroying.map List.tail } }
  | .destroyServerEnd => { w with
      server := { w.server with destroying := none, connections_ := ∅, alive := false } }
  | .destroyClient _ => { w with
      client := { w.client with establishedConnection_ := none, alive := false } }
  | .release c =>
      match w.conns c with
      | none => w
      | some k =>
          { w with conns := Function.update w.conns c none }.onLoop k.loop_
            (EventLoop.closeFd k.channel_.fd_)

/-- The code a step runs on a connection, and the thread it runs on. -/
def action (w : World) : Label → Option (Thread × ConnId × Action)
  | .handleEvent ℓ read =>
      match (w.loops ℓ).phase with
      | .events ((c, revents) :: _) => some (some ℓ, c, .handleEvent revents read)
      | _ => none
  | .handleEventWrite ℓ left write =>
      match (w.loops ℓ).phase with
      | .handling c revents _ _ => some (some ℓ, c, .handleEventWrite revents left write)
      | _ => none
  | .runFunctor ℓ write =>
      match (w.loops ℓ).phase with
      | .functors (f :: _) => (f.action write).map fun a => (some ℓ, f.conn, a)
      | _ => none
  | .accept _ => some (some 0, w.nextConn, .runEstablish)
  | .newConnection _ _ => some (some w.client.loop_, w.nextConn, .establishConnection)
  | .send t c msg write => some (t, c, .send msg write)
  | .shutdown t c => some (t, c, .shutdown)
  | .forceClose t c => some (t, c, .forceClose)
  | .advance i =>
      match w.handovers[i]? with
      | some (.store c state _ _) => some (none, c, .store state)
      | _ => none
  | .destroyNext =>
      match w.server.destroying with
      | some (c :: _) => some (some 0, c, .destoryConnection)
      | _ => none
  | .destroyClient unique =>
      w.client.establishedConnection_.map fun c => (some w.client.loop_, c, .detach unique)
  | .poll _ _ | .beginFunctors _ | .endFunctors _ | .newConnectionReturn | .destroyServer
  | .destroyServerEnd | .release _ => none

def step (w : World) (l : Label) : Except Fault World :=
  match w.action l with
  | none => .ok (w.prepare l)
  | some (t, c, a) => (w.prepare l).onConn t c a

end World

/-! ## When a label can happen -/

/-- `write` takes no more than it is offered. -/
def WriteResult.Within (len : Nat) : WriteResult → Prop
  | .wrote n => n ≤ len
  | .failed _ => True

/-- The rest of the functors `doPendingFunctors` has swapped out. -/
def EventLoop.batch (e : EventLoop) : List Functor :=
  match e.phase with
  | .functors batch => batch
  | _ => []

namespace Handover

def loop : Handover → LoopId
  | .store _ _ ℓ _ | .queue ℓ _ => ℓ

def functor : Handover → Functor
  | .store _ _ _ f | .queue _ f => f

end Handover

namespace World

/-- The functors a loop has still to run, those about to be queued included. -/
def queued (w : World) (ℓ : LoopId) : List Functor :=
  (w.loops ℓ).batch ++ (w.loops ℓ).pendingFunctors_ ++
    (w.handovers.filter (·.loop = ℓ)).map Handover.functor

/-- The thread of the loop is inside a destructor or inside
`TcpClient::newConnection`. -/
def Busy (w : World) (ℓ : LoopId) : Prop :=
  (ℓ = 0 ∧ w.server.destroying ≠ none) ∨ (ℓ = w.client.loop_ ∧ w.client.establishing ≠ none)

/-- User code can be running on the thread. -/
def CanCall (w : World) : Thread → Prop
  | none => True
  | some ℓ => ∀ c revents active, (w.loops ℓ).phase ≠ .handling c revents false active

/-- No connection has the descriptor. -/
def FreshFd (w : World) (fd : Fd) : Prop :=
  ∀ c k, w.conns c = some k → k.channel_.fd_ ≠ fd

/-- A functor, a call on another thread or an event in progress holds the
connection. -/
def HeldByLoop (w : World) (c : ConnId) : Prop :=
  (∃ ℓ, ∃ f ∈ (w.loops ℓ).batch ++ (w.loops ℓ).pendingFunctors_, f.owning = true ∧ f.conn = c) ∨
  (∃ h ∈ w.handovers, h.functor.conn = c) ∨
  ∃ ℓ revents inMessage active, (w.loops ℓ).phase = .handling c revents inMessage active

/-- Somebody holds the connection. -/
def Held (w : World) (c : ConnId) : Prop :=
  (∃ name : Bytes, w.server.connections_[name]? = some c) ∨
  w.client.establishedConnection_ = some c ∨ w.client.establishing = some c ∨ w.HeldByLoop c

/-- The labels the scheduler, the kernel and the user can choose from. -/
def Enabled (w : World) : Label → Prop
  | .poll ℓ active =>
      (w.loops ℓ).phase = .waiting ∧ ¬ w.Busy ℓ ∧ (active.map (·.1)).Nodup ∧
      ∀ a ∈ active, ∃ k e, w.conns a.1 = some k ∧
        (w.loops ℓ).epoller_.kernel k.channel_.fd_ = some (e, a.1)
  | .handleEvent ℓ read =>
      (∃ a active, (w.loops ℓ).phase = .events (a :: active)) ∧ ¬ w.Busy ℓ ∧ read ≠ .data []
  | .handleEventWrite ℓ left write =>
      ∃ c revents inMessage active k,
        (w.loops ℓ).phase = .handling c revents inMessage active ∧ ¬ w.Busy ℓ ∧
        (left = none ∨ inMessage = true) ∧ w.conns c = some k ∧
        write.Within k.outputBuffer_.readable.length
  | .beginFunctors ℓ => (w.loops ℓ).phase = .events [] ∧ ¬ w.Busy ℓ
  | .runFunctor ℓ write =>
      ∃ f batch, (w.loops ℓ).phase = .functors (f :: batch) ∧ ¬ w.Busy ℓ ∧
        write.Within f.offered.length
  | .endFunctors ℓ => (w.loops ℓ).phase = .functors [] ∧ ¬ w.Busy ℓ
  | .accept fd =>
      w.server.alive = true ∧ (∃ active, (w.loops 0).phase = .events active) ∧ ¬ w.Busy 0 ∧
      w.FreshFd fd
  | .newConnection fd _ =>
      w.client.alive = true ∧ (∃ active, (w.loops w.client.loop_).phase = .events active) ∧
      ¬ w.Busy w.client.loop_ ∧ w.FreshFd fd
  | .newConnectionReturn => w.client.establishing ≠ none
  | .send t c msg write => w.CanCall t ∧ w.conns c ≠ none ∧ write.Within msg.length
  | .shutdown t c | .forceClose t c => w.CanCall t ∧ w.conns c ≠ none
  | .advance i => i < w.handovers.length
  | .destroyServer => w.server.alive = true ∧ w.server.destroying = none ∧ w.CanCall (some 0)
  | .destroyNext => ∃ c rest, w.server.destroying = some (c :: rest)
  | .destroyServerEnd => w.server.destroying = some []
  | .destroyClient unique =>
      w.client.alive = true ∧ w.client.establishing = none ∧ w.CanCall (some w.client.loop_) ∧
      (unique = true → ∀ c, w.client.establishedConnection_ = some c → ¬ w.HeldByLoop c)
  | .release c => ¬ w.Held c

end World

/-- The program, from a server with so many IO threads and a client on some
loop. -/
def reactor : System World Label Fault where
  enabled := World.Enabled
  step := World.step

/-- Nothing accepted, nothing queued, every loop in `epoll_wait`. -/
def World.init (server : TcpServer) (client : TcpClient) : World where
  server := { server with connections_ := ∅, destroying := none, alive := true }
  client := { client with establishedConnection_ := none, establishing := none, alive := true }

end Ham.Net
