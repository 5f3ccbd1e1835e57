import Ham.Net.ConnectorSpec

/-!
# The assertions of the connector

Every call of the connector stops at one of its own assertions in exactly one
kind of situation, which `Clash` names by the state before the step and by what
the system answers:

* a start in another state than `kDisconnected`: a second `connect()`, a
  `connect()` after the connection was closed, a retry timer behind a
  `connect()`, and the same from another thread, when the loop comes to it;
* an immediate soft error of `::connect`: `connect` calls `retry`, which asserts
  `kConnecting`, a state that only `establishConnection` sets;
* a new socket while the old channel waits for its reset;
* `EPOLLERR` for a channel whose socket was given up in the same round;
* the destruction with a channel, which `stop` leaves in place.

`assertions_fail_iff` says that these are all.
-/

namespace Ham.Net

open Ham.Lib

/-- The assertions of `Connector.cc`. -/
def Connector.Asserts : Fault → Prop
  | .assertion .startInLoop | .assertion .establishConnection | .assertion .retry
  | .assertion .handleWrite | .assertion .handleError | .assertion .connectorDestructor => True
  | _ => False

namespace ConnectErrno

/-- The socket is connected or on its way. -/
def pending : ConnectErrno → Bool
  | .success | .EISCONN | .EINPROGRESS | .EINTR => true
  | _ => false

/-- A soft error. -/
def retriable : ConnectErrno → Bool
  | .EAGAIN | .EADDRINUSE | .EADDRNOTAVAIL | .ECONNREFUSED | .ENETUNREACH => true
  | _ => false

end ConnectErrno

/-- `::connect` answers with a soft error, or with a socket for which there is
no room. -/
def Connector.ConnectClash (q : Connector) (r : ConnectResult) : Prop :=
  r.errno.retriable = true ∨ (r.errno.pending = true ∧ q.connectChannel_ ≠ none)

/-- The situations in which an assertion fails. -/
def ConnectingClient.Clash (w : ConnectingClient) : ClientLabel → Prop
  | .connect r => w.connector_.state_ ≠ .kDisconnected ∨ w.connector_.ConnectClash r
  | .retryTimer _ r | .startInLoop r =>
      w.connector_.state_ ≠ .kDisconnected ∨
      (w.connector_.connect_ = true ∧ w.connector_.ConnectClash r)
  | .removeConnection _ r =>
      w.retry_ = true ∧ w.connect_ = true ∧ w.connector_.ConnectClash r
  | .handleEvent _ _ =>
      (∃ revent_, w.phase = .events (some revent_) ∧ revent_.epollerr = true) ∧
      w.connector_.state_ ≠ .kConnecting
  | .destroy _ => w.connector_.connectChannel_ ≠ none
  | _ => False

namespace Connector

variable {q q' : Connector} {fd : Fd} {r : ConnectResult}

/-- The epoller has assertions of its own. -/
theorem not_stops_update {p : Epoller} {op : EpollOp} {ch : Channel} :
    ¬ Stops Asserts (p.update op ch) := by
  unfold Epoller.update
  split <;> simp [Asserts]

theorem not_stops_updateChannel {p : Epoller} {ch : Channel} :
    ¬ Stops Asserts (p.updateChannel ch) := by
  have hbind : ∀ {op : EpollOp} {p : Epoller} {ch ch' : Channel}, ¬ Stops Asserts
      (do let p ← p.update op ch; return (p, ch') : Except Fault (Epoller × Channel)) := by
    intro op p ch ch'
    simp [stops_bind, not_stops_update]
  unfold Epoller.updateChannel
  split
  · simp only [stops_bind, stops_assert, Asserts, and_false, false_or, hbind, not_exists]
    tauto
  · simp only [stops_bind, stops_assert, Asserts, and_false, false_or, hbind, not_exists, not_and]
    tauto
  · simp only [stops_bind, stops_assert, Asserts, and_false, false_or, not_exists, not_and]
    intros
    split
    · exact hbind
    · exact hbind

theorem not_stops_removeChannel {p : Epoller} {ch : Channel} :
    ¬ Stops Asserts (p.removeChannel ch) := by
  unfold Epoller.removeChannel
  simp only [stops_bind, stops_assert, Asserts, and_false, false_or, not_exists, not_and]
  intros
  split
  · simp [stops_bind, not_stops_update]
  · simp

theorem not_stops_removeAndResetChannel : ¬ Stops Asserts q.removeAndResetChannel := by
  unfold removeAndResetChannel
  split
  · simp [Asserts]
  · simp [stops_bind, Channel.disableAll, not_stops_updateChannel, not_stops_removeChannel]

/-- `removeAndResetChannel` leaves the state. -/
theorem removeAndResetChannel_state (h : q.removeAndResetChannel = .ok (fd, q')) :
    q'.state_ = q.state_ := by
  unfold removeAndResetChannel at h
  split at h
  · cases h
  · obtain ⟨⟨p, ch⟩, -, h⟩ := bind_eq_ok.mp h
    obtain ⟨⟨p', ch'⟩, -, h⟩ := bind_eq_ok.mp h
    cases h
    rfl

theorem retry_stops : Stops Asserts (q.retry fd) ↔ q.state_ ≠ .kConnecting := by
  unfold retry
  by_cases hstate : q.state_ = .kConnecting
  · rw [assert_pos hstate, ok_bind]
    refine iff_of_false ?_ (not_not.mpr hstate)
    dsimp only
    split
    · split <;> simp [Asserts]
    · simp
  · rw [assert_neg hstate, error_bind]
    exact iff_of_true ((stops_error _).mpr trivial) hstate

theorem establishConnection_stops {address : ConnId} :
    Stops Asserts (q.establishConnection fd address) ↔ q.connectChannel_ ≠ none := by
  unfold establishConnection
  dsimp only
  by_cases hnone : q.connectChannel_ = none
  · rw [assert_pos hnone, ok_bind]
    refine iff_of_false ?_ (not_not.mpr hnone)
    simp [stops_bind, Channel.enableWriting, not_stops_updateChannel]
  · rw [assert_neg hnone, error_bind]
    exact iff_of_true ((stops_error _).mpr trivial) hnone

/-- From `kDisconnected` every soft error ends in the assertion of `retry`. -/
theorem connect_stops (hstate : q.state_ = .kDisconnected) :
    Stops Asserts (q.connect r) ↔ q.ConnectClash r := by
  have hidle : (q.log (.created r.fd)).state_ ≠ .kConnecting := by
    show q.state_ ≠ .kConnecting
    simp [hstate]
  have hroom : Stops Asserts ((q.log (.created r.fd)).establishConnection r.fd r.channel) ↔
      q.connectChannel_ ≠ none := establishConnection_stops
  unfold connect ConnectClash
  cases herrno : r.errno with
  | success | EISCONN | EINPROGRESS | EINTR =>
      simpa [ConnectErrno.retriable, ConnectErrno.pending] using hroom
  | EAGAIN | EADDRINUSE | EADDRNOTAVAIL | ECONNREFUSED | ENETUNREACH =>
      simpa [ConnectErrno.retriable] using retry_stops.mpr hidle
  | EACCES | EPERM | EAFNOSUPPORT | EALREADY | EBADF | EFAULT | ENOTSOCK =>
      simp [ConnectErrno.retriable, ConnectErrno.pending]
  | other code => simp [ConnectErrno.retriable, ConnectErrno.pending]

theorem startInLoop_stops :
    Stops Asserts (q.startInLoop r) ↔
      q.state_ ≠ .kDisconnected ∨ (q.connect_ = true ∧ q.ConnectClash r) := by
  unfold startInLoop
  by_cases hstate : q.state_ = .kDisconnected
  · rw [assert_pos hstate, ok_bind]
    split
    · rename_i hconnect
      rw [connect_stops hstate]
      simp [hstate, hconnect]
    · rename_i hconnect
      simp [hstate, hconnect]
  · rw [assert_neg hstate, error_bind]
    exact iff_of_true ((stops_error _).mpr trivial) (.inl hstate)

/-- Behind `removeAndResetChannel` the state is still `kConnecting`. -/
theorem handleError_stops : Stops Asserts q.handleError ↔ q.state_ ≠ .kConnecting := by
  unfold handleError
  by_cases hstate : q.state_ = .kConnecting
  · rw [assert_pos hstate, ok_bind]
    refine iff_of_false ?_ (not_not.mpr hstate)
    rw [stops_bind]
    rintro (hremove | ⟨⟨fd, q'⟩, hremove, hretry⟩)
    · exact not_stops_removeAndResetChannel hremove
    · exact retry_stops.mp hretry ((removeAndResetChannel_state hremove).trans hstate)
  · rw [assert_neg hstate, error_bind]
    exact iff_of_true ((stops_error _).mpr trivial) hstate

theorem handleError_state (h : q.handleError = .ok q') : q'.state_ = .kDisconnected := by
  obtain ⟨_, -, h⟩ := bind_eq_ok.mp h
  obtain ⟨⟨fd, q₁⟩, -, hretry⟩ := bind_eq_ok.mp h
  exact (retry_ok hretry).2.1

theorem handleWrite_stops {soError : Int} {selfConnect : Bool} :
    Stops Asserts (q.handleWrite soError selfConnect) ↔ q.state_ = .kConnected := by
  unfold handleWrite
  by_cases hstate : q.state_ = .kConnecting
  · rw [if_pos hstate]
    refine iff_of_false ?_ (by simp [hstate])
    rw [stops_bind]
    rintro (hremove | ⟨⟨fd, q'⟩, hremove, hrest⟩)
    · exact not_stops_removeAndResetChannel hremove
    · -- `retry` still finds `kConnecting`
      have hretry : ¬ Stops Asserts (q'.retry fd) := by
        rw [retry_stops, removeAndResetChannel_state hremove]
        exact not_not.mpr hstate
      revert hrest
      dsimp only
      split
      · simp [stops_bind, hretry]
      · split
        · simp [stops_bind, hretry]
        · split <;> simp
  · rw [if_neg hstate, stops_bind, stops_assert]
    cases hs : q.state_ with
    | kDisconnected => simp
    | kConnecting => exact absurd hs hstate
    | kConnected => simp [Asserts]

/-- `EPOLLERR` is dispatched first, and leaves `kDisconnected` to the handler of
`EPOLLOUT`. -/
theorem handleEvent_stops {revent_ : Events} {soError : Int} {selfConnect : Bool}
    (hstate : q.state_ ≠ .kConnected) :
    Stops Asserts (q.handleEvent revent_ soError selfConnect) ↔
      revent_.epollerr = true ∧ q.state_ ≠ .kConnecting := by
  unfold handleEvent
  rw [stops_bind]
  by_cases herr : revent_.epollerr = true
  · rw [if_pos herr, handleError_stops]
    have hrest : ¬ ∃ q', q.handleError = .ok q' ∧ Stops Asserts
        (if revent_.epollout then q'.handleWrite soError selfConnect else return (q', none)) := by
      rintro ⟨q', hq', hstops⟩
      split at hstops
      · have hconnected := handleWrite_stops.mp hstops
        rw [handleError_state hq'] at hconnected
        cases hconnected
      · simp at hstops
    simp only [herr, true_and]
    exact or_iff_left hrest
  · rw [if_neg herr]
    refine iff_of_false ?_ (fun h => herr h.1)
    rintro (hok | ⟨q', hok, hstops⟩)
    · simp at hok
    · cases hok
      split at hstops
      · exact hstate (handleWrite_stops.mp hstops)
      · simp at hstops

theorem not_stops_stop {batch : Nat} {s : ConnectStage} (h : q.At batch s) {cancelled : Bool} :
    ¬ Stops Asserts (q.stop cancelled) := by
  obtain ⟨q', s', hstop, -⟩ := h.stop cancelled
  simp [hstop]

/-- `~Connector` fails for every channel: `stop` only queues the reset. -/
theorem destructor_stops {batch : Nat} {s : ConnectStage} (h : q.At batch s) {cancelled : Bool} :
    Stops Asserts (q.destructor cancelled) ↔ s ≠ .clear := by
  unfold destructor
  by_cases hchannel : q.connectChannel_ = none
  · rw [if_neg (not_not.mpr hchannel), ok_bind, assert_pos hchannel, ok_bind]
    refine iff_of_false (by simp) fun hs => ?_
    exact h.channel_ne_none.mpr hs hchannel
  · have hs := h.channel_ne_none.mp hchannel
    obtain ⟨q', s', hstop, hat, hstays, -⟩ := h.stop cancelled
    have hthere := hat.channel_ne_none.mpr (hstays.mp hs)
    rw [if_pos hchannel, hstop, ok_bind, assert_neg hthere, error_bind]
    exact iff_of_true ((stops_error _).mpr trivial) hs

end Connector

namespace ConnectingClient

variable {w : ConnectingClient} {s : ConnectStage}

/-- What a call of the client does behind the connector does not stop. -/
theorem stops_connector {x : Except Fault Connector} {f : Connector → ConnectingClient} :
    Stops Connector.Asserts (do return f (← x)) ↔ Stops Connector.Asserts x := by
  rw [stops_bind]
  refine or_iff_left ?_
  rintro ⟨q, -, hstops⟩
  simp at hstops

theorem removeConnection_stops {fd : Fd} {r : ConnectResult} :
    Stops Connector.Asserts (w.removeConnection fd r) ↔
      w.retry_ = true ∧ w.connect_ = true ∧ w.connector_.ConnectClash r := by
  unfold removeConnection
  dsimp only
  split
  · rename_i hretry
    rw [Bool.and_eq_true] at hretry
    rw [stops_connector, Connector.restart, Connector.startInLoop_stops]
    simp [hretry, Connector.ConnectClash]
  · rename_i hretry
    rw [Bool.and_eq_true] at hretry
    refine iff_of_false (by simp) ?_
    rintro ⟨hon, hconnect, -⟩
    exact hretry ⟨hon, hconnect⟩

theorem Standing.handleEvent_stops (h : w.Standing s) {revent_ : Events} {soError : Int}
    {selfConnect : Bool} (hphase : w.phase = .events (some revent_)) :
    Stops Connector.Asserts (w.handleEvent revent_ soError selfConnect) ↔
      revent_.epollerr = true ∧ w.connector_.state_ ≠ .kConnecting := by
  obtain ⟨hs, hstate⟩ := h.active revent_ hphase
  obtain ⟨ch, hch⟩ := Option.ne_none_iff_exists'.mp (h.connector.channel_ne_none.mpr hs)
  unfold ConnectingClient.handleEvent
  rw [hch]
  dsimp only
  rw [stops_bind, Connector.handleEvent_stops hstate]
  refine or_iff_left ?_
  rintro ⟨⟨q, handed⟩, -, hstops⟩
  cases handed <;> simp at hstops

/-- `~TcpClient` may stop the connector; the channel stays. -/
theorem Standing.destroy_stops (h : w.Standing s) {cancelled : Bool} :
    Stops Connector.Asserts (w.destroy cancelled) ↔ w.connector_.connectChannel_ ≠ none := by
  rw [h.connector.channel_ne_none]
  unfold ConnectingClient.destroy
  by_cases hnone : w.establishedConnection_ = none
  · obtain ⟨q, s', hstop, hat, hclear, -⟩ := h.connector.stop cancelled
    rw [if_pos hnone, hstop, ok_bind, stops_connector, Connector.destructor_stops hat, hclear]
  · rw [if_neg hnone, ok_bind, stops_connector, Connector.destructor_stops h.connector]

end ConnectingClient

/-- In every run of a client and its connector, the next step fails an assertion
of the connector exactly in the situations of `Clash`. -/
theorem assertions_fail_iff {shared : Bool} {epoller : Epoller} {ls : List ClientLabel}
    {w : ConnectingClient} {l : ClientLabel} (hrun : client.Run (.init shared epoller) ls w)
    (hen : client.enabled w l) :
    Stops Connector.Asserts (client.step w l) ↔ w.Clash l := by
  obtain ⟨s, hs⟩ := ConnectingClient.reachable_standing hrun
  obtain ⟨-, hadmits⟩ := hen
  show Stops Connector.Asserts (w.step l) ↔ w.Clash l
  cases l with
  -- the ways to `startInLoop`
  | connect r =>
      show Stops Connector.Asserts (w.connect r) ↔ _
      rw [ConnectingClient.connect, ConnectingClient.stops_connector, Connector.start,
        Connector.startInLoop_stops]
      simp [ConnectingClient.Clash, Connector.ConnectClash]
  | retryTimer delay r =>
      show Stops Connector.Asserts (w.retryTimer delay r) ↔ _
      rw [ConnectingClient.retryTimer, ConnectingClient.startInLoop,
        ConnectingClient.stops_connector, Connector.startInLoop_stops]
      exact Iff.rfl
  | startInLoop r =>
      show Stops Connector.Asserts (w.popFunctor.startInLoop r) ↔ _
      rw [ConnectingClient.startInLoop, ConnectingClient.stops_connector,
        Connector.startInLoop_stops]
      exact Iff.rfl
  | removeConnection fd r => exact ConnectingClient.removeConnection_stops
  -- the handlers, the destructor, and `stop`, which has no assertion
  | handleEvent soError selfConnect =>
      obtain ⟨revent_, hphase⟩ := hadmits
      simp only [ConnectingClient.step, ConnectingClient.Clash, hphase]
      rw [hs.handleEvent_stops hphase]
      simp
  | destroy cancelled => exact hs.destroy_stops
  | stop cancelled =>
      refine iff_of_false ?_ id
      show ¬ Stops Connector.Asserts (w.stop cancelled)
      rw [ConnectingClient.stop, ConnectingClient.stops_connector]
      exact Connector.not_stops_stop hs.connector
  | stopInLoop =>
      refine iff_of_false ?_ id
      show ¬ Stops Connector.Asserts (w.popFunctor.stopInLoop)
      rw [ConnectingClient.stopInLoop, ConnectingClient.stops_connector]
      obtain ⟨q', s', hstop, -⟩ := hs.connector.stopInLoop
      rw [show w.popFunctor.connector_ = w.connector_ from rfl, hstop]
      exact stops_ok _
  -- nothing of the connector runs
  | reported =>
      obtain ⟨fd, hphase⟩ := hadmits
      refine iff_of_false ?_ id
      simp [ConnectingClient.step, hphase]
  | poll active => exact iff_of_false (stops_ok _) id
  | doPendingFunctors => exact iff_of_false (stops_ok _) id
  | resetChannel => exact iff_of_false (stops_ok _) id
  | cancelTimerInLoop cancelled => exact iff_of_false (stops_ok _) id
  | otherConnect => exact iff_of_false (stops_ok _) id
  | otherStop => exact iff_of_false (stops_ok _) id
  | advance i => exact iff_of_false (stops_ok _) id
  | endFunctors => exact iff_of_false (stops_ok _) id
  | disconnect => exact iff_of_false (stops_ok _) id
  | setRetry on => exact iff_of_false (stops_ok _) id
  | others epoller => exact iff_of_false (stops_ok _) id

/-- The client is destroyed while its socket connects. -/
theorem assertions_fail_iff_destroy : ∃ w, client.Run (.init false {})
      [.connect ⟨7, .EINPROGRESS, 0⟩] w ∧
    Stops Connector.Asserts (client.step w (.destroy false)) := by
  have hrun : ∃ w, client.Run (.init false {}) [.connect ⟨7, .EINPROGRESS, 0⟩] w ∧
      client.enabled w (.destroy false) ∧ w.Clash (.destroy false) :=
    ⟨_, .cons ⟨⟨rfl, trivial⟩, rfl⟩ (.nil _), ⟨rfl, nofun, rfl⟩, nofun⟩
  obtain ⟨w, hrun, hen, hclash⟩ := hrun
  exact ⟨w, hrun, (assertions_fail_iff hrun hen).mpr hclash⟩

/-- The first `connect()`, refused at once: `retry` asserts `kConnecting`. -/
theorem not_assertions_hold : ¬ ∀ (shared : Bool) (epoller : Epoller) (ls : List ClientLabel)
    (w : ConnectingClient) (l : ClientLabel), client.Run (.init shared epoller) ls w →
    client.enabled w l → ¬ Stops Connector.Asserts (client.step w l) := by
  intro h
  refine h false {} [] _ (.connect ⟨7, .ECONNREFUSED, 0⟩) (.nil _) ⟨rfl, trivial⟩ ?_
  exact ⟨.assertion .retry, rfl, trivial⟩

end Ham.Net
