import Ham.Base.Types
import Ham.Lib.Descriptors
import Ham.Lib.Run

/-!
# `Acceptor`

`Acceptor::handleRead`, `Socket::accept` and `sockets::accept`, over the table
of the process's descriptors and the queue of the listening socket. Each system
call is a step of its own: between any two of them other threads may open and
close descriptors of their own.

`arrived`, `delivered` and the other lists of connections are kept for the
statements. What logging does to `errno` is left out.
-/

namespace Ham.Net

open Ham.Lib

variable {Conn : Type}

/-- `errno` behind a failed call, by the cases of the `switch` in
`sockets::accept`. -/
inductive AcceptErrno where
  | EAGAIN | ECONNABORTED | EINTR | EPROTO | EPERM | EMFILE
  | EBADF | EFAULT | EINVAL | ENFILE | ENOBUFS | ENOMEM | ENOTSOCK | EOPNOTSUPP
  | unknown (code : Int)
  deriving DecidableEq, Repr

/-- The first group of the `switch`. The others end in `CRITICAL`. -/
def AcceptErrno.expected : AcceptErrno → Bool
  | .EAGAIN | .ECONNABORTED | .EINTR | .EPROTO | .EPERM | .EMFILE => true
  | _ => false

/-- What a descriptor refers to. -/
inductive OpenFile (Conn : Type) where
  /-- Anything of the rest of the program, connections handed to it included. -/
  | program
  | acceptSocket
  /-- `/dev/null`, opened as the reserve. -/
  | devNull
  /-- A connection that has been accepted and handed to nobody yet. -/
  | accepted (c : Conn)
  deriving DecidableEq, Repr

/-- The next system call of `handleRead`. -/
inductive AcceptPhase (Conn : Type) where
  /-- None: `handleRead` is not running. -/
  | idle
  /-- `sockets::close(connfd)`, where there is no `newConnCallback_`. -/
  | rejecting (connfd : Nat) (c : Conn)
  /-- The first `sockets::close(idleFd_)`. -/
  | dropping
  /-- `::accept`. -/
  | draining
  /-- The second `sockets::close(idleFd_)`. -/
  | shedding (c : Option Conn)
  /-- `::open`. -/
  | reopening
  deriving DecidableEq, Repr

structure Acceptor (Conn : Type) where
  /-- `none` for `-1`. -/
  idleFd_ : Option Nat
  acceptSocket_ : Nat
  /-- There is a `newConnCallback_`. -/
  newConnCallback_ : Bool
  errno : Option AcceptErrno := none
  phase : AcceptPhase Conn := .idle
  files : Descriptors (OpenFile Conn)
  /-- The established connections that wait at the listening socket. -/
  backlog : List Conn := []
  arrived : List Conn := []
  /-- Handed to `newConnCallback_`. -/
  delivered : List Conn := []
  /-- Closed for want of a callback. -/
  rejected : List Conn := []
  /-- Closed for want of descriptors. -/
  shed : List Conn := []
  /-- Accepted as descriptor `0`, and taken for a failure. -/
  leaked : List Conn := []
  /-- Gone with `ECONNABORTED`. -/
  aborted : List Conn := []

/-- The outcome of a system call is part of its label: `none`, or the `errno`. -/
inductive AcceptorLabel (Conn : Type) where
  | arrive (c : Conn)
  /-- The listening socket is readable: `handleRead`, up to its next call. -/
  | accept (failure : Option AcceptErrno)
  | reject
  | closeIdle
  | acceptIdle (failure : Option AcceptErrno)
  | closeAccepted
  | reopen (failure : Option AcceptErrno)
  /-- Other code opens a descriptor, closes one of its own, or sets `errno`. -/
  | openOther
  | closeOther (fd : Nat)
  | setErrno (errno : Option AcceptErrno)

namespace Acceptor

variable (w : Acceptor Conn)

/-- `accept` of the kernel gives the oldest connection the lowest descriptor. -/
def next : Option (Nat × Conn) :=
  match w.files.lowest, w.backlog with
  | some fd, c :: _ => some (fd, c)
  | _, _ => none

/-- A failed `accept` of the kernel: an aborted connection is gone. -/
def failAccept (e : AcceptErrno) : Acceptor Conn :=
  if e = .ECONNABORTED then
    { w with errno := some e, backlog := w.backlog.tail, aborted := w.aborted ++ w.backlog.head?.toList }
  else { w with errno := some e }

/-- `sockets::close`: of `-1` it only fails. -/
def close : Option Nat → Acceptor Conn
  | some fd => { w with files := w.files.close fd }
  | none => { w with errno := some .EBADF }

/-- `handleRead`, up to the next system call. -/
def handleRead (failure : Option AcceptErrno) : Except Fault (Acceptor Conn) :=
  match failure, w.next with
  | none, some (connfd, c) =>
      let w := { w with backlog := w.backlog.tail }
      if 0 < connfd then
        if w.newConnCallback_ then
          .ok { w with files := w.files.install connfd .program, delivered := w.delivered ++ [c] }
        else .ok { w with
          files := w.files.install connfd (.accepted c), phase := .rejecting connfd c }
      else
        -- the descriptor is kept by nobody, and `errno` is a stale one
        .ok { w with
          files := w.files.install connfd (.accepted c)
          leaked := w.leaked ++ [c]
          phase := if w.errno = some .EMFILE then .dropping else .idle }
  | none, none => .ok w
  | some e, _ =>
      if e.expected then
        .ok { w.failAccept e with phase := if e = .EMFILE then .dropping else .idle }
      else .error .critical

/-- `idleFd_ = ::accept(...)`. -/
def acceptIdle (failure : Option AcceptErrno) : Acceptor Conn :=
  match failure, w.next with
  | none, some (fd, c) => { w with
      idleFd_ := some fd
      files := w.files.install fd (.accepted c)
      backlog := w.backlog.tail
      phase := .shedding (some c) }
  | none, none => w
  | some e, _ => { w.failAccept e with idleFd_ := none, phase := .shedding none }

/-- `idleFd_ = ::open("/dev/null", ...)`. -/
def reopen (failure : Option AcceptErrno) : Acceptor Conn :=
  match failure, w.files.lowest with
  | none, some fd => { w with
      idleFd_ := some fd, files := w.files.install fd .devNull, phase := .idle }
  | none, none => w
  | some e, _ => { w with idleFd_ := none, errno := some e, phase := .idle }

def step : AcceptorLabel Conn → Except Fault (Acceptor Conn)
  | .arrive c => .ok { w with backlog := w.backlog ++ [c], arrived := w.arrived ++ [c] }
  | .accept failure => w.handleRead failure
  | .reject =>
      match w.phase with
      | .rejecting connfd c =>
          .ok { w.close (some connfd) with rejected := w.rejected ++ [c], phase := .idle }
      | _ => .ok w
  | .closeIdle => .ok { w.close w.idleFd_ with phase := .draining }
  | .acceptIdle failure => .ok (w.acceptIdle failure)
  | .closeAccepted =>
      match w.phase with
      | .shedding c =>
          .ok { w.close w.idleFd_ with shed := w.shed ++ c.toList, phase := .reopening }
      | _ => .ok w
  | .reopen failure => .ok (w.reopen failure)
  | .openOther =>
      match w.files.lowest with
      | some fd => .ok { w with files := w.files.install fd .program }
      | none => .ok w
  | .closeOther fd => .ok { w with files := w.files.close fd }
  | .setErrno errno => .ok { w with errno := errno }

/-- A call of `accept` can end so: it fails with `EMFILE` exactly when there is
no free descriptor. -/
def CanFail : Option AcceptErrno → Prop
  | none => w.next.isSome = true
  | some e => (e = .EMFILE ↔ w.files.lowest = none) ∧ (e = .ECONNABORTED → w.backlog ≠ [])

def Enabled : AcceptorLabel Conn → Prop
  | .arrive _ => True
  | .accept failure => w.phase = .idle ∧ w.CanFail failure
  | .reject => ∃ connfd c, w.phase = .rejecting connfd c
  | .closeIdle => w.phase = .dropping
  | .acceptIdle failure => w.phase = .draining ∧ w.CanFail failure
  | .closeAccepted => ∃ c, w.phase = .shedding c
  | .reopen failure => w.phase = .reopening ∧ (failure = none → w.files.lowest ≠ none)
  | .openOther => w.files.lowest ≠ none
  | .closeOther fd => w.files.entry fd = some .program
  | .setErrno _ => w.phase = .idle

end Acceptor

def acceptor : System (Acceptor Conn) (AcceptorLabel Conn) Fault where
  enabled := Acceptor.Enabled
  step := Acceptor.step

namespace Acceptor

/-- Behind the constructor, in a process with other descriptors. -/
structure Constructed (w : Acceptor Conn) : Prop where
  idle : ∃ fd, w.idleFd_ = some fd ∧ 0 < fd
  phase : w.phase = .idle
  devNull : ∀ fd, w.files.entry fd = some .devNull ↔ w.idleFd_ = some fd
  socket : w.files.entry w.acceptSocket_ = some .acceptSocket
  accepted : ∀ fd c, w.files.entry fd ≠ some (.accepted c)
  backlog : w.backlog = w.arrived
  lists : w.delivered = [] ∧ w.rejected = [] ∧ w.shed = [] ∧ w.leaked = [] ∧ w.aborted = []

end Acceptor

end Ham.Net
