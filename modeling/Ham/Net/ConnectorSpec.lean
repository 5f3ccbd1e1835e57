import Ham.Lib.Ledger
import Ham.Net.Connector
import Ham.Net.Registration

/-!
# What the connector's calls do

Between two steps the connector stands at one of three stages: no channel, a
channel that waits for its socket, or a channel that has left the epoller and
whose reset is queued. `At` says what each stage means for the fields and for
the log of descriptors; one lemma per call says to which stage it leads, and
`reachable_standing` carries the stage through every run of a client.
`sockets_linear` is what the stages say about the descriptors: each is disposed
of once at most, and only a connecting one is outstanding.
-/

namespace Ham.Net

open Ham.Lib

/-- An entry of the ledger of descriptors. -/
def SocketUse.entry : SocketUse → Entry Fd
  | .created fd => .acquire fd
  | .closed fd => .release fd
  | .handed fd => .release fd

inductive ConnectStage where
  /-- No channel. -/
  | clear
  /-- The channel waits for this socket. -/
  | connecting (fd : Fd)
  /-- The channel is out of the epoller, its reset queued. -/
  | leaving
  deriving DecidableEq, Repr

namespace ConnectStage

/-- The descriptors the connector has to dispose of. -/
def fds : ConnectStage → List Fd
  | .connecting fd => [fd]
  | _ => []

/-- The calls of `resetChannel` still to come. -/
def resets : ConnectStage → Nat
  | .leaving => 1
  | _ => 0

def Channel (p : Epoller) (channel : Option Net.Channel) : ConnectStage → Prop
  | .clear => channel = none
  | .connecting fd => ∃ ch, channel = some ch ∧ ch.fd_ = fd ∧ ch.status_ = .kAdded ∧ p.Holds ch
  | .leaving => ∃ ch, channel = some ch ∧ ch.status_ = .kNew

end ConnectStage

namespace Connector

/-- The log of descriptors, as a ledger. -/
def ledger (q : Connector) : List (Entry Fd) := q.sockets.map SocketUse.entry

@[simp] theorem ledger_log (q : Connector) (use : SocketUse) :
    (q.log use).ledger = q.ledger ++ [use.entry] := by
  simp [ledger, log]

@[simp] theorem ledger_close (q : Connector) (fd : Fd) :
    (q.close fd).ledger = q.ledger ++ [.release fd] :=
  q.ledger_log (.closed fd)

/-- The calls of `resetChannel` among the pending functors. -/
def resets (q : Connector) : Nat := q.pendingFunctors_.count .resetChannel

/-- The connector stands at a stage, with `batch` resets in the round of
functors. -/
structure At (q : Connector) (batch : Nat) (s : ConnectStage) : Prop where
  state : q.state_ = .kConnecting ↔ s.fds ≠ []
  channel : s.Channel q.epoller_ q.connectChannel_
  resets : q.resets + batch = s.resets
  exclusive : Ledger.Exclusive q.ledger
  held : Ledger.held q.ledger = some s.fds

variable {q q' t : Connector} {batch : Nat} {s : ConnectStage} {fd : Fd} {r : ConnectResult}

theorem At.of_connecting (h : q.At batch s) (hstate : q.state_ = .kConnecting) :
    ∃ fd, s = .connecting fd := by
  have hfds := h.state.mp hstate
  cases s with
  | clear => exact absurd rfl hfds
  | connecting fd => exact ⟨fd, rfl⟩
  | leaving => exact absurd rfl hfds

theorem At.fds_nil (h : q.At batch s) (hstate : q.state_ ≠ .kConnecting) : s.fds = [] := by
  by_contra hfds
  exact hstate (h.state.mpr hfds)

theorem At.channel_ne_none (h : q.At batch s) : q.connectChannel_ ≠ none ↔ s ≠ .clear := by
  have hch := h.channel
  cases s with
  | clear =>
      have hch : q.connectChannel_ = none := hch
      simp [hch]
  | connecting fd =>
      obtain ⟨ch, hch, -⟩ := hch
      simp [hch]
  | leaving =>
      obtain ⟨ch, hch, -⟩ := hch
      simp [hch]

/-- What a stage depends on. -/
theorem At.congr (h : q.At batch s) (hstate : q'.state_ = .kConnecting ↔ q.state_ = .kConnecting)
    (hepoller : q'.epoller_ = q.epoller_) (hchannel : q'.connectChannel_ = q.connectChannel_)
    (hresets : q'.resets = q.resets) (hsockets : q'.sockets = q.sockets) : q'.At batch s where
  state := hstate.trans h.state
  channel := by
    rw [hepoller, hchannel]
    exact h.channel
  resets := by rw [hresets, h.resets]
  exclusive := by
    unfold ledger
    rw [hsockets]
    exact h.exclusive
  held := by
    unfold ledger
    rw [hsockets]
    exact h.held

/-- The channel of a connecting socket leaves the epoller. -/
theorem removeAndResetChannel_eq {ch : Channel} (hch : q.connectChannel_ = some ch)
    (hadded : ch.status_ = .kAdded) (hholds : q.epoller_.Holds ch) :
    ∃ p ch', q.removeAndResetChannel = .ok (ch.fd_,
        { q with epoller_ := p, connectChannel_ := some ch' }.queueInLoop .resetChannel) ∧
      ch'.status_ = .kNew := by
  -- `disableAll` takes the channel out of the kernel's set, `remove` out of the map
  obtain ⟨p, hupdate, hholds', -⟩ := hholds.updateChannel Channel.kNoneEvent_
  have hnone : ch.setNone.isNoneEvent = true := by simp [Channel.isNoneEvent, Channel.setNone]
  have hstatus : Epoller.nextStatus { ch with event_ := Channel.kNoneEvent_ } = .kDismissed := by
    exact if_pos ⟨hadded, hnone⟩
  rw [hstatus] at hupdate hholds'
  obtain ⟨p', hremove, -⟩ := hholds'.removeChannel hnone (by simp)
  refine ⟨p', { ch with event_ := Channel.kNoneEvent_, status_ := .kNew }, ?_, rfl⟩
  simp only [removeAndResetChannel, hch, Channel.disableAll, Channel.setNone, hupdate, ok_bind,
    hremove, pure_eq_ok]

/-- A functor more in the queue. -/
theorem resets_queueInLoop (q : Connector) (f : ConnectorFunctor) :
    (q.queueInLoop f).resets = q.resets + if f = .resetChannel then 1 else 0 := by
  simp [resets, queueInLoop, List.count_append, List.count_singleton]

/-- A connecting socket is disposed of, its channel out of the epoller. -/
theorem At.dispose (h : q.At batch (.connecting fd)) (hstate : t.state_ ≠ .kConnecting)
    (hchannel : ∃ ch, t.connectChannel_ = some ch ∧ ch.status_ = .kNew)
    (hresets : t.resets = q.resets + 1) (hledger : t.ledger = q.ledger ++ [.release fd]) :
    t.At batch .leaving := by
  have hheld : Ledger.held t.ledger = some [] := by
    rw [hledger]
    exact Ledger.held_release h.held
  refine ⟨?_, hchannel, ?_, ?_, hheld⟩
  · simp [ConnectStage.fds, hstate]
  · have hbefore : q.resets + batch = 0 := h.resets
    show t.resets + batch = 1
    omega
  · rw [hledger] at hheld ⊢
    exact h.exclusive.concat hheld (Nat.zero_le 1)

/-- `establishConnection`, when it returns. -/
theorem establishConnection_ok {address : ConnId}
    (h : q.establishConnection fd address = .ok q') :
    q.connectChannel_ = none ∧ ∃ p ch, ch.fd_ = fd ∧ ch.status_ = .kAdded ∧ p.Holds ch ∧
      q' = { q with state_ := .kConnecting, epoller_ := p, connectChannel_ := some ch } := by
  simp only [establishConnection, bind_eq_ok, assert_eq_ok, pure_eq_ok, Except.ok.injEq] at h
  obtain ⟨-, hnone, ⟨p, ch⟩, hupdate, rfl⟩ := h
  obtain ⟨rfl, hmap, hkernel, -⟩ := Epoller.updateChannel_ok hupdate
  have hstatus : Epoller.nextStatus (Channel.setWriting { self := address, fd_ := fd } true) =
      .kAdded := rfl
  rw [hstatus] at hkernel ⊢
  refine ⟨hnone, p, _, rfl, rfl, ⟨?_, ?_⟩, rfl⟩
  · rw [hkernel]
    simp [Channel.setWriting]
  · rw [hmap]
    simp [Channel.setWriting]

/-- `retry`, when it returns. -/
theorem retry_ok (h : q.retry fd = .ok q') :
    q.state_ = .kConnecting ∧ q'.state_ = .kDisconnected ∧ q'.epoller_ = q.epoller_ ∧
    q'.connectChannel_ = q.connectChannel_ ∧ q'.pendingFunctors_ = q.pendingFunctors_ ∧
    q'.ledger = q.ledger ++ [.release fd] := by
  simp only [retry, bind_eq_ok, assert_eq_ok] at h
  obtain ⟨-, hstate, h⟩ := h
  have hledger := q.ledger_close fd
  split at h
  · split at h
    · cases h
      exact ⟨hstate, rfl, rfl, rfl, rfl, hledger⟩
    · cases h
  · cases h
    exact ⟨hstate, rfl, rfl, rfl, rfl, hledger⟩

/-- A socket is created where there is none. -/
theorem At.created (h : q.At batch s) (hidle : q.state_ ≠ .kConnecting) (fd : Fd) :
    Ledger.held (q.log (.created fd)).ledger = some [fd] ∧
    Ledger.Exclusive (q.log (.created fd)).ledger := by
  rw [ledger_log]
  have hheld : Ledger.held (q.ledger ++ [.acquire fd]) = some [fd] :=
    Ledger.held_acquire (h.fds_nil hidle ▸ h.held) fd
  exact ⟨hheld, h.exclusive.concat hheld (Nat.le_refl 1)⟩

/-- The new socket is kept by a channel. -/
theorem At.establishConnection (h : q.At batch s) (hidle : q.state_ ≠ .kConnecting)
    {address : ConnId} (hok : (q.log (.created fd)).establishConnection fd address = .ok q') :
    q'.At batch (.connecting fd) ∧ q'.state_ = .kConnecting := by
  obtain ⟨hheld, hexclusive⟩ := h.created hidle fd
  obtain ⟨hnone, p, ch, hfd, hadded, hholds, rfl⟩ := establishConnection_ok hok
  have hclear : s = .clear := by
    by_contra hs
    exact h.channel_ne_none.mpr hs hnone
  subst hclear
  refine ⟨⟨?_, ⟨ch, rfl, hfd, hadded, hholds⟩, h.resets, hexclusive, hheld⟩, rfl⟩
  simp [ConnectStage.fds]

/-- The new socket is closed at once. -/
theorem At.closed (h : q.At batch s) (hidle : q.state_ ≠ .kConnecting) (fd : Fd) :
    ((q.log (.created fd)).close fd).At batch s := by
  obtain ⟨hheld, hexclusive⟩ := h.created hidle fd
  have hclosed : Ledger.held ((q.log (.created fd)).close fd).ledger = some [] := by
    rw [ledger_close]
    exact Ledger.held_release hheld
  refine ⟨h.state, h.channel, h.resets, ?_, (h.fds_nil hidle).symm ▸ hclosed⟩
  rw [ledger_close] at hclosed ⊢
  exact hexclusive.concat hclosed (Nat.zero_le 1)

/-- `connect` from a connector without a socket, when it returns. -/
theorem At.connect (h : q.At batch s) (hstate : q.state_ = .kDisconnected)
    (hok : q.connect r = .ok q') :
    (q'.At batch (.connecting r.fd) ∨ q'.At batch s) ∧ q'.state_ ≠ .kConnected := by
  have hidle : q.state_ ≠ .kConnecting := by simp [hstate]
  unfold Connector.connect at hok
  cases herrno : r.errno with
  | success | EISCONN | EINPROGRESS | EINTR =>
      simp only [herrno] at hok
      obtain ⟨hat, hconnecting⟩ := h.establishConnection hidle hok
      exact ⟨.inl hat, by simp [hconnecting]⟩
  | EAGAIN | EADDRINUSE | EADDRNOTAVAIL | ECONNREFUSED | ENETUNREACH =>
      -- `retry` asserts that there is a channel already
      simp only [herrno] at hok
      exact absurd (retry_ok hok).1 hidle
  | EACCES | EPERM | EAFNOSUPPORT | EALREADY | EBADF | EFAULT | ENOTSOCK | other code =>
      simp only [herrno, Except.ok.injEq] at hok
      subst hok
      refine ⟨.inr (h.closed hidle r.fd), ?_⟩
      show q.state_ ≠ .kConnected
      simp [hstate]

/-- A call leaves the connector at a stage, keeps a channel that was there, and
makes no connection. -/
structure Call (q : Connector) (batch : Nat) (s : ConnectStage) (q' : Connector) : Prop where
  stage : ∃ s', q'.At batch s' ∧ (s ≠ .clear → s' ≠ .clear)
  connected : q'.state_ = .kConnected → q.state_ = .kConnected

theorem At.startInLoop (h : q.At batch s) (hok : q.startInLoop r = .ok q') :
    q.state_ = .kDisconnected ∧ q.Call batch s q' := by
  simp only [Connector.startInLoop, bind_eq_ok, assert_eq_ok] at hok
  obtain ⟨-, hstate, hok⟩ := hok
  refine ⟨hstate, ?_⟩
  split at hok
  · obtain ⟨hat | hat, hnot⟩ := h.connect hstate hok
    · exact ⟨⟨_, hat, fun _ => by simp⟩, fun hc => absurd hc hnot⟩
    · exact ⟨⟨_, hat, id⟩, fun hc => absurd hc hnot⟩
  · cases hok
    exact ⟨⟨s, h, id⟩, id⟩

theorem At.stopInLoop (h : q.At batch s) :
    ∃ q' s', q.stopInLoop = .ok q' ∧ q'.At batch s' ∧ (s ≠ .clear ↔ s' ≠ .clear) ∧
      (q'.state_ = .kConnected ↔ q.state_ = .kConnected) := by
  unfold Connector.stopInLoop
  by_cases hstate : q.state_ = .kConnecting
  · obtain ⟨fd, rfl⟩ := h.of_connecting hstate
    obtain ⟨ch, hch, rfl, hadded, hholds⟩ := h.channel
    obtain ⟨p, ch', hremove, hnew⟩ :=
      removeAndResetChannel_eq (q := { q with state_ := .kDisconnected }) hch hadded hholds
    rw [if_pos hstate]
    simp only [hremove, ok_bind, pure_eq_ok]
    refine ⟨_, .leaving, rfl, ?_, by simp, by simp [hstate, close, log, queueInLoop]⟩
    exact h.dispose (by simp [close, log, queueInLoop]) ⟨ch', rfl, hnew⟩
      (resets_queueInLoop _ _) (ledger_close _ _)
  · rw [if_neg hstate]
    exact ⟨q, s, rfl, h, Iff.rfl, Iff.rfl⟩

/-- A cancel touches the timers alone. -/
theorem cancelTimerInLoop_eq (q : Connector) (delay : Nat) (cancelled : Bool) :
    ∃ timers, q.cancelTimerInLoop delay cancelled = { q with retryTimers := timers } := by
  unfold cancelTimerInLoop
  split <;> exact ⟨_, rfl⟩

/-- `stop` returns; a channel stays where it is until its reset. -/
theorem At.stop (h : q.At batch s) (cancelled : Bool) :
    ∃ q' s', q.stop cancelled = .ok q' ∧ q'.At batch s' ∧ (s ≠ .clear ↔ s' ≠ .clear) ∧
      (q'.state_ = .kConnected ↔ q.state_ = .kConnected) := by
  have hpre : { q with connect_ := false }.At batch s := h.congr Iff.rfl rfl rfl rfl rfl
  obtain ⟨q', s', hstop, hat, hclear, hconnected⟩ := hpre.stopInLoop
  unfold Connector.stop
  rw [hstop, ok_bind]
  split
  · obtain ⟨timers, hcancel⟩ := q'.cancelTimerInLoop_eq q'.retryTimerId_ cancelled
    rw [hcancel]
    exact ⟨_, s', rfl, hat.congr Iff.rfl rfl rfl rfl rfl, hclear, hconnected⟩
  · exact ⟨q', s', rfl, hat, hclear, hconnected⟩

/-- The head of both handlers, and `retry` behind it. -/
theorem At.removeAndRetry (h : q.At batch (.connecting fd)) :
    ∃ q₁, q.removeAndResetChannel = .ok (fd, q₁) ∧ q₁.state_ = q.state_ ∧
      (∀ t : Connector, t.state_ ≠ .kConnecting → t.connectChannel_ = q₁.connectChannel_ →
        t.resets = q₁.resets → t.ledger = q₁.ledger ++ [.release fd] → t.At batch .leaving) ∧
      ∀ q', q₁.retry fd = .ok q' → q'.At batch .leaving ∧ q'.state_ = .kDisconnected := by
  obtain ⟨ch, hch, rfl, hadded, hholds⟩ := h.channel
  obtain ⟨p, ch', hremove, hnew⟩ := removeAndResetChannel_eq hch hadded hholds
  have hdispose : ∀ t : Connector, t.state_ ≠ .kConnecting → t.connectChannel_ = some ch' →
      t.resets = (q.queueInLoop .resetChannel).resets → t.ledger = q.ledger ++ [.release ch.fd_] →
      t.At batch .leaving := by
    intro t hstate hchannel hresets hledger
    exact h.dispose hstate ⟨ch', hchannel, hnew⟩
      (hresets.trans (q.resets_queueInLoop .resetChannel)) hledger
  refine ⟨_, hremove, rfl, hdispose, ?_⟩
  intro q' hretry
  obtain ⟨-, hstate, -, hchannel, hpending, hledger⟩ := retry_ok hretry
  refine ⟨hdispose q' (by simp [hstate]) hchannel ?_ hledger, hstate⟩
  show q'.pendingFunctors_.count _ = _
  rw [hpending]
  rfl

theorem At.handleError (h : q.At batch s) (hok : q.handleError = .ok q') :
    q'.At batch .leaving ∧ q'.state_ = .kDisconnected := by
  simp only [Connector.handleError, bind_eq_ok, assert_eq_ok] at hok
  obtain ⟨-, hstate, ⟨fd', q₂⟩, hremove, hretry⟩ := hok
  obtain ⟨fd, rfl⟩ := h.of_connecting hstate
  obtain ⟨q₁, hremove', -, -, hretry'⟩ := h.removeAndRetry
  rw [hremove'] at hremove
  cases hremove
  exact hretry' q' hretry

/-- `handleWrite` disposes of the socket, and reports a connection in state
`kConnected` only. -/
theorem At.handleWrite (h : q.At batch s) {soError : Int} {selfConnect : Bool}
    {handed : Option Fd} (hok : q.handleWrite soError selfConnect = .ok (q', handed)) :
    ∃ s', q'.At batch s' ∧
      (handed ≠ none → q.state_ = .kConnecting ∧ q'.state_ = .kConnected) := by
  unfold Connector.handleWrite at hok
  by_cases hstate : q.state_ = .kConnecting
  · obtain ⟨fd, rfl⟩ := h.of_connecting hstate
    obtain ⟨q₁, hremove, -, hdispose, hretry⟩ := h.removeAndRetry
    simp only [if_pos hstate, hremove, ok_bind] at hok
    refine ⟨.leaving, ?_⟩
    split at hok
    · obtain ⟨q₂, hq₂, hok⟩ := bind_eq_ok.mp hok
      cases hok
      exact ⟨(hretry _ hq₂).1, fun hne => absurd rfl hne⟩
    · split at hok
      · obtain ⟨q₂, hq₂, hok⟩ := bind_eq_ok.mp hok
        cases hok
        exact ⟨(hretry _ hq₂).1, fun hne => absurd rfl hne⟩
      · split at hok
        · cases hok
          exact ⟨hdispose _ (by simp [log]) rfl rfl (ledger_log _ _), fun _ => ⟨hstate, rfl⟩⟩
        · cases hok
          exact ⟨hdispose _ (by simp [close, log]) rfl rfl (ledger_close _ _),
            fun hne => absurd rfl hne⟩
  · simp only [if_neg hstate, bind_eq_ok, assert_eq_ok] at hok
    obtain ⟨-, -, hok⟩ := hok
    cases hok
    exact ⟨s, h, fun hne => absurd rfl hne⟩

theorem At.handleEvent (h : q.At batch s) {revent_ : Events} {soError : Int} {selfConnect : Bool}
    {handed : Option Fd} (hok : q.handleEvent revent_ soError selfConnect = .ok (q', handed)) :
    ∃ s', q'.At batch s' ∧
      (handed ≠ none → q.state_ = .kConnecting ∧ q'.state_ = .kConnected) := by
  unfold Connector.handleEvent at hok
  obtain ⟨q₁, hq₁, hok⟩ := bind_eq_ok.mp hok
  -- behind `handleError` the state is no longer `kConnecting`
  have herror : ∃ s₁, q₁.At batch s₁ ∧ (q₁.state_ = .kConnecting → q.state_ = .kConnecting) := by
    split at hq₁
    · obtain ⟨hat, hstate⟩ := h.handleError hq₁
      exact ⟨_, hat, fun hc => by simp [hstate] at hc⟩
    · cases hq₁
      exact ⟨s, h, id⟩
  obtain ⟨s₁, hat, hconnecting⟩ := herror
  split at hok
  · obtain ⟨s', hat', hhanded⟩ := hat.handleWrite hok
    refine ⟨s', hat', fun hne => ?_⟩
    obtain ⟨hstate, hconnected⟩ := hhanded hne
    exact ⟨hconnecting hstate, hconnected⟩
  · cases hok
    exact ⟨s₁, hat, fun hne => absurd rfl hne⟩

/-- `~Connector` returns only without a channel. -/
theorem At.destructor (h : q.At batch s) {cancelled : Bool}
    (hok : q.destructor cancelled = .ok q') : s = .clear ∧ q' = q := by
  unfold Connector.destructor at hok
  obtain ⟨q₁, hq₁, hok⟩ := bind_eq_ok.mp hok
  obtain ⟨_, hassert, hok⟩ := bind_eq_ok.mp hok
  cases hok
  have hnone := assert_eq_ok.mp hassert
  by_cases hclear : s = .clear
  · have hchannel : q.connectChannel_ = none := by
      by_contra hne
      exact h.channel_ne_none.mp hne hclear
    rw [if_neg (not_not.mpr hchannel)] at hq₁
    cases hq₁
    exact ⟨hclear, rfl⟩
  · -- `stop` leaves the channel in place, and the assertion does not hold
    rw [if_pos (h.channel_ne_none.mpr hclear)] at hq₁
    obtain ⟨q₂, s₂, hstop, hat, hstays, -⟩ := h.stop cancelled
    rw [hstop] at hq₁
    cases hq₁
    exact absurd hnone (hat.channel_ne_none.mpr (hstays.mp hclear))

end Connector

namespace ConnectingClient

/-- The calls of `resetChannel` in the round of functors. -/
def resets (w : ConnectingClient) : Nat := w.batch.count .resetChannel

/-- Between two steps of a client: its connector stands at a stage, an open
connection is the only one and means `kConnected`, and the channel of an active
event is still there. -/
structure Standing (w : ConnectingClient) (s : ConnectStage) : Prop where
  connector : w.connector_.At w.resets s
  connections : w.connections = [] ∨
    ∃ fd, w.connections = [fd] ∧ w.connector_.state_ = .kConnected
  active : ∀ revent_, w.phase = .events (some revent_) →
    s ≠ .clear ∧ w.connector_.state_ ≠ .kConnected

variable {w w' : ConnectingClient} {s : ConnectStage} {l : ClientLabel}

theorem standing_init (shared : Bool) (epoller : Epoller) :
    (init shared epoller).Standing .clear where
  connector := ⟨by simp [init, ConnectStage.fds], rfl, rfl, Ledger.exclusive_nil, rfl⟩
  connections := .inl rfl
  active := nofun

/-- No connection is open while the connector is not in `kConnected`. -/
theorem Standing.connections_nil (h : w.Standing s)
    (hstate : w.connector_.state_ ≠ .kConnected) : w.connections = [] := by
  rcases h.connections with hnil | ⟨fd, -, hconnected⟩
  · exact hnil
  · exact absurd hconnected hstate

/-- Outside `doPendingFunctors` all resets are pending. -/
theorem Standing.at_zero (h : w.Standing s) (hbatch : w.batch = []) : w.connector_.At 0 s := by
  have hresets : w.resets = 0 := by simp [resets, hbatch]
  rw [← hresets]
  exact h.connector

/-- What it depends on: of the connector, not `connect_`, the timers and the
functors that reset nothing. -/
theorem Standing.congr (h : w.Standing s) (hphase : w'.phase = w.phase)
    (hconnections : w'.connections = w.connections)
    (hstate : w'.connector_.state_ = w.connector_.state_)
    (hepoller : w'.connector_.epoller_ = w.connector_.epoller_)
    (hchannel : w'.connector_.connectChannel_ = w.connector_.connectChannel_)
    (hresets : w'.connector_.resets = w.connector_.resets)
    (hsockets : w'.connector_.sockets = w.connector_.sockets) : w'.Standing s where
  connector := by
    have hround : w'.resets = w.resets := by simp only [resets, batch, hphase]
    rw [hround]
    exact h.connector.congr (by rw [hstate]) hepoller hchannel hresets hsockets
  connections := by
    rw [hconnections, hstate]
    exact h.connections
  active := by
    rw [hphase, hstate]
    exact h.active

/-- `startInLoop`, from `connect`, a timer or the queue. -/
theorem Standing.startInLoop (h : w.Standing s) {r : ConnectResult}
    (hok : w.startInLoop r = .ok w') : ∃ s', w'.Standing s' := by
  obtain ⟨q, hq, hok⟩ := bind_eq_ok.mp hok
  cases hok
  obtain ⟨hstate, hcall⟩ := h.connector.startInLoop hq
  obtain ⟨s', hat, hclear⟩ := hcall.stage
  have hidle : w.connector_.state_ ≠ .kConnected := by simp [hstate]
  refine ⟨s', hat, .inl (h.connections_nil hidle), ?_⟩
  intro revent_ hactive
  obtain ⟨hs, -⟩ := h.active revent_ hactive
  exact ⟨hclear hs, fun hc => hidle (hcall.connected hc)⟩

theorem Standing.connect (h : w.Standing s) {r : ConnectResult} (hok : w.connect r = .ok w') :
    ∃ s', w'.Standing s' := by
  have hpre : { w with
      connect_ := true, connector_ := { w.connector_ with connect_ := true } }.Standing s :=
    h.congr rfl rfl rfl rfl rfl rfl rfl
  exact hpre.startInLoop hok

theorem Standing.retryTimer (h : w.Standing s) {delay : Nat} {r : ConnectResult}
    (hok : w.retryTimer delay r = .ok w') : ∃ s', w'.Standing s' := by
  have hpre : { w with connector_ := { w.connector_ with
      retryTimers := w.connector_.retryTimers.erase delay } }.Standing s :=
    h.congr rfl rfl rfl rfl rfl rfl rfl
  exact hpre.startInLoop hok

/-- The connector has been stopped, as a whole or by the functor. -/
theorem Standing.stopped (h : w.Standing s) {q : Connector} {s' : ConnectStage}
    (hat : q.At w.resets s') (hclear : s ≠ .clear ↔ s' ≠ .clear)
    (hconnected : q.state_ = .kConnected ↔ w.connector_.state_ = .kConnected)
    (hconnector : w'.connector_ = q) (hphase : w'.phase = w.phase)
    (hconnections : w'.connections = w.connections) : w'.Standing s' where
  connector := by
    have hround : w'.resets = w.resets := by simp only [resets, batch, hphase]
    rw [hround, hconnector]
    exact hat
  connections := by
    rw [hconnections, hconnector, hconnected]
    exact h.connections
  active := by
    intro revent_ hactive
    obtain ⟨hs, hstate⟩ := h.active revent_ (hphase ▸ hactive)
    rw [hconnector]
    exact ⟨hclear.mp hs, fun hc => hstate (hconnected.mp hc)⟩

theorem Standing.stop (h : w.Standing s) {cancelled : Bool} (hok : w.stop cancelled = .ok w') :
    ∃ s', w'.Standing s' := by
  obtain ⟨q, hq, hok⟩ := bind_eq_ok.mp hok
  cases hok
  obtain ⟨q', s', hstop, hat, hclear, hconnected⟩ := h.connector.stop cancelled
  rw [hstop] at hq
  cases hq
  exact ⟨s', h.stopped hat hclear hconnected rfl rfl rfl⟩

theorem Standing.stopInLoop (h : w.Standing s) (hok : w.stopInLoop = .ok w') :
    ∃ s', w'.Standing s' := by
  obtain ⟨q, hq, hok⟩ := bind_eq_ok.mp hok
  cases hok
  obtain ⟨q', s', hstop, hat, hclear, hconnected⟩ := h.connector.stopInLoop
  rw [hstop] at hq
  cases hq
  exact ⟨s', h.stopped hat hclear hconnected rfl rfl rfl⟩

/-- A step of a call on another thread: a store to `connect_`, or a functor that
resets nothing. -/
theorem Standing.advance (h : w.Standing s) (i : Nat) : (w.advance i).Standing s := by
  have hqueue : ∀ f, f ≠ .resetChannel →
      (w.connector_.queueInLoop f).resets = w.connector_.resets := by
    intro f hf
    rw [Connector.resets_queueInLoop, if_neg hf, Nat.add_zero]
  unfold ConnectingClient.advance
  split
  · exact h
  · exact h.congr rfl rfl rfl rfl rfl rfl rfl
  · exact h.congr rfl rfl rfl rfl rfl (hqueue _ (by simp)) rfl
  · exact h.congr rfl rfl rfl rfl rfl rfl rfl
  · exact h.congr rfl rfl rfl rfl rfl (hqueue _ (by simp)) rfl
  · exact h.congr rfl rfl rfl rfl rfl rfl rfl
  · exact h.congr rfl rfl rfl rfl rfl (hqueue _ (by simp)) rfl

/-- A functor that resets nothing leaves the round. -/
theorem Standing.popFunctor (h : w.Standing s) {f : ConnectorFunctor}
    {batch : List ConnectorFunctor} (hphase : w.phase = .functors (f :: batch))
    (hf : f ≠ .resetChannel) : w.popFunctor.Standing s := by
  have hbatch : w.batch = f :: batch := by simp [ConnectingClient.batch, hphase]
  refine ⟨?_, h.connections, by simp [ConnectingClient.popFunctor]⟩
  have hround : w.popFunctor.resets = w.resets := by
    show w.batch.tail.count _ = w.batch.count _
    rw [hbatch, List.tail_cons, List.count_cons_of_ne hf]
  rw [hround]
  exact h.connector

/-- The close callback runs with no event of the connector outstanding. -/
theorem Standing.removeConnection (h : w.Standing s) {fd : Fd} {r : ConnectResult}
    (hfd : fd ∈ w.connections) (hok : w.removeConnection fd r = .ok w') :
    ∃ s', w'.Standing s' := by
  have hopen : w.connections = [fd] ∧ w.connector_.state_ = .kConnected := by
    rcases h.connections with hnil | ⟨fd', hone, hstate⟩
    · simp [hnil] at hfd
    · rw [hone, List.mem_singleton] at hfd
      exact ⟨hfd ▸ hone, hstate⟩
  obtain ⟨hone, hconnected⟩ := hopen
  have hquiet : ∀ revent_, w.phase ≠ .events (some revent_) :=
    fun revent_ hactive => (h.active revent_ hactive).2 hconnected
  have hnone : w.connections.erase fd = [] := by simp [hone]
  unfold ConnectingClient.removeConnection at hok
  dsimp only at hok
  split at hok
  · -- `restart` forgets the state and nothing else
    obtain ⟨q, hq, hok⟩ := bind_eq_ok.mp hok
    cases hok
    have hpre : { w.connector_ with
        state_ := .kDisconnected, connect_ := true,
        retryDelayMs_ := Connector.kInitRetryDelayMs }.At w.resets s :=
      h.connector.congr (by simp [hconnected]) rfl rfl rfl rfl
    obtain ⟨-, hcall⟩ := hpre.startInLoop hq
    obtain ⟨s', hat, -⟩ := hcall.stage
    exact ⟨s', hat, .inl hnone, fun revent_ hactive => absurd hactive (hquiet revent_)⟩
  · cases hok
    exact ⟨s, h.connector, .inl hnone, fun revent_ hactive => absurd hactive (hquiet revent_)⟩

theorem Standing.handleEvent (h : w.Standing s) {revent_ : Events} {soError : Int}
    {selfConnect : Bool} (hphase : w.phase = .events (some revent_))
    (hok : w.handleEvent revent_ soError selfConnect = .ok w') : ∃ s', w'.Standing s' := by
  have hnil := h.connections_nil (h.active revent_ hphase).2
  have hat := h.at_zero (by simp [ConnectingClient.batch, hphase])
  unfold ConnectingClient.handleEvent at hok
  split at hok
  · cases hok
  · obtain ⟨⟨q, handed⟩, hq, hok⟩ := bind_eq_ok.mp hok
    obtain ⟨s', hat', hhanded⟩ := hat.handleEvent hq
    cases handed with
    | none =>
        cases hok
        exact ⟨s', hat', .inl hnil, nofun⟩
    | some fd =>
        -- the first connection, as none is open while the socket connects
        cases hok
        refine ⟨s', hat', .inr ⟨fd, ?_, (hhanded nofun).2⟩, nofun⟩
        simp [newConnection, hnil]

/-- The other channels of the loop leave the entries of a registered channel. -/
theorem Standing.others (h : w.Standing s) {epoller : Epoller}
    (hothers : w.Admits (.others epoller)) :
    { w with connector_ := { w.connector_ with epoller_ := epoller } }.Standing s := by
  refine ⟨⟨h.connector.state, ?_, h.connector.resets, h.connector.exclusive, h.connector.held⟩,
    h.connections, h.active⟩
  have hchannel := h.connector.channel
  cases s with
  | clear => exact hchannel
  | leaving => exact hchannel
  | connecting fd =>
      obtain ⟨ch, hch, hfd, hadded, hholds⟩ := hchannel
      obtain ⟨hkernel, hmap⟩ := hothers ch hch (by simp [hadded])
      exact ⟨ch, hch, hfd, hadded, hkernel.trans hholds.kernel, hmap.trans hholds.map⟩

/-- The functor of a cancel touches the timers alone. -/
theorem cancelTimerInLoop_eq {delay : Nat} {batch : List ConnectorFunctor}
    (hphase : w.phase = .functors (.cancelTimerInLoop delay :: batch)) (cancelled : Bool) :
    ∃ timers, w.cancelTimerInLoop cancelled = { w.popFunctor with
      connector_ := { w.connector_ with retryTimers := timers } } := by
  have hbatch : w.batch = .cancelTimerInLoop delay :: batch := by
    simp [ConnectingClient.batch, hphase]
  obtain ⟨timers, hcancel⟩ := w.connector_.cancelTimerInLoop_eq delay cancelled
  refine ⟨timers, ?_⟩
  rw [← hcancel]
  simp only [ConnectingClient.cancelTimerInLoop, hbatch]

/-- The only reset there is takes the channel away. -/
theorem Standing.resetChannel (h : w.Standing s) {batch : List ConnectorFunctor}
    (hphase : w.phase = .functors (.resetChannel :: batch)) :
    { w.popFunctor with connector_ := w.connector_.resetChannel }.Standing .clear := by
  have hbatch : w.batch = .resetChannel :: batch := by simp [ConnectingClient.batch, hphase]
  have hround : w.resets = batch.count .resetChannel + 1 := by
    rw [resets, hbatch, List.count_cons_self]
  have hresets := h.connector.resets
  rw [hround] at hresets
  have hone : s.resets = 1 := by
    cases s with
    | leaving => rfl
    | clear =>
        simp only [ConnectStage.resets] at hresets
        omega
    | connecting fd =>
        simp only [ConnectStage.resets] at hresets
        omega
  have hleaving : s = .leaving := by
    cases s with
    | leaving => rfl
    | _ => cases hone
  subst hleaving
  refine ⟨⟨h.connector.state, rfl, ?_, h.connector.exclusive, h.connector.held⟩,
    h.connections, by simp [ConnectingClient.popFunctor]⟩
  show w.connector_.resets + w.batch.tail.count _ = 0
  rw [hbatch, List.tail_cons]
  omega

/-- The kernel reports a channel that waits for its socket. -/
theorem Standing.poll (h : w.Standing s) {active : Option Events}
    (hadmits : w.Admits (.poll active)) : { w with phase := .events active }.Standing s := by
  obtain ⟨hphase, hregistered⟩ := hadmits
  have hbatch : w.batch = [] := by simp [ConnectingClient.batch, hphase]
  refine ⟨h.at_zero hbatch, h.connections, ?_⟩
  rintro revent_ ⟨⟩
  obtain ⟨ch, hch, hadded, -⟩ := hregistered nofun
  have hchannel := h.connector.channel
  cases s with
  | clear =>
      have hnone : w.connector_.connectChannel_ = none := hchannel
      simp [hnone] at hch
  | leaving =>
      obtain ⟨ch', hch', hnew⟩ := hchannel
      rw [hch] at hch'
      cases hch'
      simp [hadded] at hnew
  | connecting fd =>
      have hstate : w.connector_.state_ = .kConnecting :=
        h.connector.state.mpr (by simp [ConnectStage.fds])
      exact ⟨nofun, by simp [hstate]⟩

theorem Standing.destroy (h : w.Standing s) {cancelled : Bool}
    (hok : w.destroy cancelled = .ok w') : ∃ s', w'.Standing s' := by
  unfold ConnectingClient.destroy at hok
  obtain ⟨q, hq, hok⟩ := bind_eq_ok.mp hok
  obtain ⟨q', hdestructor, hok⟩ := bind_eq_ok.mp hok
  cases hok
  have hstop : ∃ s₁, q.At w.resets s₁ ∧ (s ≠ .clear → s₁ ≠ .clear) := by
    split at hq
    · obtain ⟨q₁, s₁, hstop, hat, hclear, -⟩ := h.connector.stop cancelled
      rw [hstop] at hq
      cases hq
      exact ⟨s₁, hat, hclear.mp⟩
    · cases hq
      exact ⟨s, h.connector, id⟩
  obtain ⟨s₁, hat, hclear⟩ := hstop
  -- an active event has a channel, with which the destructor does not return
  obtain ⟨rfl, rfl⟩ := hat.destructor hdestructor
  refine ⟨.clear, hat, .inl rfl, ?_⟩
  intro revent_ hactive
  exact absurd rfl (hclear (h.active revent_ hactive).1)

/-- Every step leaves the client standing. -/
theorem Standing.step (h : w.Standing s) (hstep : client.Step w l w') :
    ∃ s', w'.Standing s' := by
  obtain ⟨⟨-, hadmits⟩, hok⟩ := hstep
  have hok : w.step l = .ok w' := hok
  cases l with
  | poll active =>
      cases hok
      exact ⟨s, h.poll hadmits⟩
  | handleEvent soError selfConnect =>
      obtain ⟨revent_, hphase⟩ := hadmits
      simp only [ConnectingClient.step, hphase] at hok
      exact h.handleEvent hphase hok
  | reported =>
      obtain ⟨fd, hphase⟩ := hadmits
      simp only [ConnectingClient.step, hphase] at hok
      cases hok
      have hbatch : w.batch = [] := by simp [ConnectingClient.batch, hphase]
      exact ⟨s, h.at_zero hbatch, h.connections, nofun⟩
  | doPendingFunctors =>
      cases hok
      have hphase : w.phase = .events none := hadmits
      have hbatch : w.batch = [] := by simp [ConnectingClient.batch, hphase]
      refine ⟨s, ⟨h.connector.state, h.connector.channel, ?_, h.connector.exclusive,
        h.connector.held⟩, h.connections, nofun⟩
      -- the resets have only moved to the round
      exact (Nat.zero_add _).trans (h.at_zero hbatch).resets
  | resetChannel =>
      obtain ⟨batch, hphase⟩ := hadmits
      cases hok
      exact ⟨.clear, h.resetChannel hphase⟩
  | startInLoop r =>
      obtain ⟨batch, hphase⟩ := hadmits
      exact (h.popFunctor hphase (by simp)).startInLoop hok
  | stopInLoop =>
      obtain ⟨batch, hphase⟩ := hadmits
      exact (h.popFunctor hphase (by simp)).stopInLoop hok
  | cancelTimerInLoop cancelled =>
      obtain ⟨delay, batch, hphase⟩ := hadmits
      cases hok
      obtain ⟨timers, hcancel⟩ := cancelTimerInLoop_eq hphase cancelled
      rw [hcancel]
      exact ⟨s, (h.popFunctor hphase (by simp)).congr rfl rfl rfl rfl rfl rfl rfl⟩
  | endFunctors =>
      cases hok
      have hphase : w.phase = .functors [] := hadmits
      have hbatch : w.batch = [] := by simp [ConnectingClient.batch, hphase]
      exact ⟨s, h.at_zero hbatch, h.connections, nofun⟩
  | retryTimer delay r => exact h.retryTimer hok
  | connect r => exact h.connect hok
  | stop cancelled => exact h.stop hok
  | advance i =>
      cases hok
      exact ⟨s, h.advance i⟩
  | otherConnect | otherStop | disconnect | setRetry on =>
      cases hok
      exact ⟨s, h.congr rfl rfl rfl rfl rfl rfl rfl⟩
  | removeConnection fd r => exact h.removeConnection hadmits.2 hok
  | others epoller =>
      cases hok
      exact ⟨s, h.others hadmits⟩
  | destroy cancelled => exact h.destroy hok

theorem reachable_standing {shared : Bool} {epoller : Epoller} {ls : List ClientLabel}
    (hrun : client.Run (.init shared epoller) ls w) : ∃ s, w.Standing s := by
  refine hrun.invariant (I := fun w => ∃ s, w.Standing s) ⟨_, standing_init shared epoller⟩ ?_
  rintro w l w' ⟨s, hs⟩ hstep
  exact hs.step hstep

end ConnectingClient

/-- In every run, the ledger of the descriptors the connector has created
replays at every moment, with at most one of them undisposed; between steps it
is the descriptor of the channel in state `kConnecting`, and there is none in
the other states. -/
theorem sockets_linear {shared : Bool} {epoller : Epoller} {ls : List ClientLabel}
    {w : ConnectingClient} (hrun : client.Run (.init shared epoller) ls w) :
    Ledger.Exclusive w.connector_.ledger ∧
    (w.connector_.state_ = .kConnecting → ∃ channel,
      w.connector_.connectChannel_ = some channel ∧
      Ledger.held w.connector_.ledger = some [channel.fd_]) ∧
    (w.connector_.state_ ≠ .kConnecting → Ledger.held w.connector_.ledger = some []) := by
  obtain ⟨s, hs⟩ := ConnectingClient.reachable_standing hrun
  refine ⟨hs.connector.exclusive, ?_, ?_⟩
  · intro hstate
    obtain ⟨fd, rfl⟩ := hs.connector.of_connecting hstate
    obtain ⟨channel, hchannel, rfl, -⟩ := hs.connector.channel
    exact ⟨channel, hchannel, hs.connector.held⟩
  · intro hstate
    rw [hs.connector.held, hs.connector.fds_nil hstate]

/-- An event with `EPOLLERR` and `EPOLLOUT` closes the socket once and starts a
timer; the next socket has the same number, and connects while another thread is
in `stop`: `handleWrite` closes it. -/
theorem sockets_linear_retry : ∃ w, client.Run (.init true {})
      [.connect ⟨7, .EINPROGRESS, 0⟩, .poll (some { epollerr := true, epollout := true }),
        .handleEvent 111 false, .doPendingFunctors, .resetChannel, .endFunctors, .poll none,
        .retryTimer 5000 ⟨7, .EINPROGRESS, 1⟩, .doPendingFunctors, .endFunctors,
        .poll (some { epollout := true }), .otherStop, .advance 0, .handleEvent 0 false] w ∧
    w.connector_.sockets = [.created 7, .closed 7, .created 7, .closed 7] ∧
    Ledger.held w.connector_.ledger = some [] := by
  have hrun : ∃ w, client.Run (.init true {})
      [.connect ⟨7, .EINPROGRESS, 0⟩, .poll (some { epollerr := true, epollout := true }),
        .handleEvent 111 false, .doPendingFunctors, .resetChannel, .endFunctors, .poll none,
        .retryTimer 5000 ⟨7, .EINPROGRESS, 1⟩, .doPendingFunctors, .endFunctors,
        .poll (some { epollout := true }), .otherStop, .advance 0, .handleEvent 0 false] w ∧
      w.connector_.sockets = [.created 7, .closed 7, .created 7, .closed 7] ∧
      w.connector_.state_ = .kConnected := by
    refine ⟨_, .cons ⟨⟨rfl, trivial⟩, rfl⟩ (.cons ⟨⟨rfl, rfl, fun _ => ⟨_, rfl, rfl, rfl⟩⟩, rfl⟩
      (.cons ⟨⟨rfl, _, rfl⟩, rfl⟩ (.cons ⟨⟨rfl, rfl⟩, rfl⟩ (.cons ⟨⟨rfl, _, rfl⟩, rfl⟩
      (.cons ⟨⟨rfl, rfl⟩, rfl⟩ (.cons ⟨⟨rfl, rfl, fun h => absurd rfl h⟩, rfl⟩
      (.cons ⟨⟨rfl, ⟨_, rfl⟩, by decide⟩, rfl⟩ (.cons ⟨⟨rfl, rfl⟩, rfl⟩
      (.cons ⟨⟨rfl, rfl⟩, rfl⟩ (.cons ⟨⟨rfl, rfl, fun _ => ⟨_, rfl, rfl, rfl⟩⟩, rfl⟩
      (.cons ⟨⟨rfl, trivial⟩, rfl⟩ (.cons ⟨⟨rfl, Nat.one_pos⟩, rfl⟩
      (.cons ⟨⟨rfl, _, rfl⟩, rfl⟩ (.nil _)))))))))))))), rfl, rfl⟩
  obtain ⟨w, hrun, hsockets, hstate⟩ := hrun
  exact ⟨w, hrun, hsockets, (sockets_linear hrun).2.2 (by simp [hstate])⟩

end Ham.Net
