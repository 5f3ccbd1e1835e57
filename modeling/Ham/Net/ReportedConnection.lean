import Ham.Net.ConnectorSpec

/-!
# The connection a client reports

`newConnection` calls `establishConnection`, and with it the user's
`connectionCallback_`, before it sets `establishedConnection_`. So `getConnection`
gives the open connection at every point but those inside of the callback, and a
`disconnect` from there shuts nothing down (`client_exposes_connection`): behind
the callback the connection is set, and stays open.

That nothing is connected again behind a `disconnect` holds at every point:
`connect_` is cleared, and a connector in `kConnected` starts nothing by itself.
-/

namespace Ham.Net

open Ham.Lib

/-- The label is a call of `connect`, on any thread. -/
def ClientLabel.Connects : ClientLabel → Prop
  | .connect _ | .otherConnect => True
  | _ => False

namespace ConnectingClient

/-- `getConnection`. -/
def getConnection (w : ConnectingClient) : Option Fd := w.establishedConnection_

/-- `establishedConnection_` is the open connection, but for the callback. -/
structure Exposed (w : ConnectingClient) : Prop where
  reporting : ∀ fd, w.phase = .reporting fd →
    w.connections = [fd] ∧ w.establishedConnection_ = none
  returned : w.alive = true → w.NotReporting → w.establishedConnection_ = w.connections.head?
  destroyed : w.alive = false → w.connections = []

variable {w w' w₀ : ConnectingClient} {s : ConnectStage} {l : ClientLabel} {fd : Fd}

theorem exposed_init (shared : Bool) (epoller : Epoller) : (init shared epoller).Exposed where
  reporting := by simp [init]
  returned := fun _ _ => rfl
  destroyed := fun _ => rfl

theorem notReporting_of_eq {phase : ClientPhase} (h : w.phase = phase)
    (hphase : ∀ fd, phase ≠ .reporting fd) : w.NotReporting :=
  fun fd => h ▸ hphase fd

/-- A step within a phase, that leaves the connections. -/
theorem Exposed.congr (h : w.Exposed) (hphase : w'.phase = w.phase)
    (hconnections : w'.connections = w.connections)
    (hestablished : w'.establishedConnection_ = w.establishedConnection_)
    (halive : w'.alive = w.alive) : w'.Exposed where
  reporting := by
    rw [hphase, hconnections, hestablished]
    exact h.reporting
  returned := by
    unfold NotReporting
    rw [hphase, hconnections, hestablished, halive]
    exact h.returned
  destroyed := by
    rw [halive, hconnections]
    exact h.destroyed

/-- A step from one phase to another, with no callback in either. -/
theorem Exposed.moves (h : w.Exposed) (hfrom : w.NotReporting) (hto : w'.NotReporting)
    (hconnections : w'.connections = w.connections)
    (hestablished : w'.establishedConnection_ = w.establishedConnection_)
    (halive : w'.alive = w.alive) : w'.Exposed where
  reporting := fun fd hphase => absurd hphase (hto fd)
  returned := by
    intro halive' _
    rw [hconnections, hestablished]
    exact h.returned (halive ▸ halive') hfrom
  destroyed := by
    rw [halive, hconnections]
    exact h.destroyed

/-- A functor leaves the round. -/
theorem Exposed.popFunctor (h : w.Exposed) {f : ConnectorFunctor} {batch : List ConnectorFunctor}
    (hphase : w.phase = .functors (f :: batch)) : w.popFunctor.Exposed :=
  have hpopped : w.popFunctor.phase = .functors w.batch.tail := rfl
  h.moves (notReporting_of_eq hphase (by simp)) (notReporting_of_eq hpopped (by simp)) rfl rfl rfl

/-- A step of a call on another thread leaves the connector's state and sockets. -/
theorem advance_eq (w : ConnectingClient) (i : Nat) : ∃ q calls,
    w.advance i = { w with connector_ := q, calls := calls } ∧
    q.state_ = w.connector_.state_ ∧ q.sockets = w.connector_.sockets := by
  unfold advance
  split <;> exact ⟨_, _, rfl, rfl, rfl⟩

/-- The callback is entered with the first connection, which is not set yet. -/
theorem Exposed.handleEvent (h : w.Exposed) (hs : w.Standing s) (halive : w.alive = true)
    {revent_ : Events} {soError : Int} {selfConnect : Bool}
    (hphase : w.phase = .events (some revent_))
    (hok : w.handleEvent revent_ soError selfConnect = .ok w') : w'.Exposed := by
  have hnil := hs.connections_nil (hs.active revent_ hphase).2
  have hfrom : w.NotReporting := notReporting_of_eq hphase (by simp)
  have hnone : w.establishedConnection_ = none := by
    rw [h.returned halive hfrom, hnil]
    rfl
  unfold ConnectingClient.handleEvent at hok
  split at hok
  · cases hok
  · obtain ⟨⟨q, handed⟩, -, hok⟩ := bind_eq_ok.mp hok
    cases handed with
    | none =>
        cases hok
        exact h.moves hfrom (notReporting_of_eq rfl (by simp)) rfl rfl rfl
    | some fd =>
        cases hok
        refine ⟨?_, fun _ hno => absurd rfl (hno fd), ?_⟩
        · rintro fd' ⟨⟩
          exact ⟨by simp [newConnection, hnil], hnone⟩
        · intro hgone
          cases halive.symm.trans hgone

/-- The close callback takes the only connection away. -/
theorem Exposed.removeConnection (hs : w.Standing s) (hnot : w.NotReporting)
    {r : ConnectResult} (hfd : fd ∈ w.connections) (hok : w.removeConnection fd r = .ok w') :
    w'.Exposed := by
  have hnone : w.connections.erase fd = [] := by
    rcases hs.connections with hnil | ⟨fd', hone, -⟩
    · simp [hnil]
    · rw [hone, List.mem_singleton] at hfd
      simp [hone, hfd]
  have hgone : ∀ q : Connector, { w with
      establishedConnection_ := none, connections := w.connections.erase fd,
      connector_ := q }.Exposed := by
    intro q
    refine ⟨fun fd hphase => absurd hphase (hnot fd), fun _ _ => ?_, fun _ => hnone⟩
    rw [hnone]
    rfl
  unfold ConnectingClient.removeConnection at hok
  dsimp only at hok
  split at hok
  · obtain ⟨q, -, hok⟩ := bind_eq_ok.mp hok
    cases hok
    exact hgone q
  · cases hok
    exact hgone w.connector_

theorem Exposed.destroy (hnot : w.NotReporting) {cancelled : Bool}
    (hok : w.destroy cancelled = .ok w') : w'.Exposed := by
  obtain ⟨q, -, hok⟩ := bind_eq_ok.mp hok
  obtain ⟨q', -, hok⟩ := bind_eq_ok.mp hok
  cases hok
  exact ⟨fun fd hphase => absurd hphase (hnot fd), fun halive => absurd halive (by simp),
    fun _ => rfl⟩

theorem Exposed.step (h : w.Exposed) (hs : w.Standing s) (hstep : client.Step w l w') :
    w'.Exposed := by
  obtain ⟨⟨halive, hadmits⟩, hok⟩ := hstep
  have hok : w.step l = .ok w' := hok
  cases l with
  | poll active =>
      cases hok
      have hphase : w.phase = .waiting := hadmits.1
      exact h.moves (notReporting_of_eq hphase (by simp)) (notReporting_of_eq rfl (by simp))
        rfl rfl rfl
  | handleEvent soError selfConnect =>
      obtain ⟨revent_, hphase⟩ := hadmits
      simp only [ConnectingClient.step, hphase] at hok
      exact h.handleEvent hs halive hphase hok
  | reported =>
      obtain ⟨fd, hphase⟩ := hadmits
      simp only [ConnectingClient.step, hphase] at hok
      cases hok
      -- `newConnection` sets the connection it has made
      refine ⟨by simp [ConnectingClient.reported], fun _ _ => ?_, h.destroyed⟩
      show some fd = w.connections.head?
      rw [(h.reporting fd hphase).1]
      rfl
  | doPendingFunctors =>
      cases hok
      have hphase : w.phase = .events none := hadmits
      exact h.moves (notReporting_of_eq hphase (by simp)) (notReporting_of_eq rfl (by simp))
        rfl rfl rfl
  | resetChannel =>
      obtain ⟨batch, hphase⟩ := hadmits
      cases hok
      exact (h.popFunctor hphase).congr rfl rfl rfl rfl
  | startInLoop r =>
      obtain ⟨batch, hphase⟩ := hadmits
      obtain ⟨q, -, hok⟩ := bind_eq_ok.mp hok
      cases hok
      exact (h.popFunctor hphase).congr rfl rfl rfl rfl
  | stopInLoop =>
      obtain ⟨batch, hphase⟩ := hadmits
      obtain ⟨q, -, hok⟩ := bind_eq_ok.mp hok
      cases hok
      exact (h.popFunctor hphase).congr rfl rfl rfl rfl
  | cancelTimerInLoop cancelled =>
      obtain ⟨delay, batch, hphase⟩ := hadmits
      cases hok
      obtain ⟨timers, hcancel⟩ := cancelTimerInLoop_eq hphase cancelled
      rw [hcancel]
      exact (h.popFunctor hphase).congr rfl rfl rfl rfl
  | endFunctors =>
      cases hok
      have hphase : w.phase = .functors [] := hadmits
      exact h.moves (notReporting_of_eq hphase (by simp)) (notReporting_of_eq rfl (by simp))
        rfl rfl rfl
  | retryTimer delay r =>
      obtain ⟨q, -, hok⟩ := bind_eq_ok.mp hok
      cases hok
      exact h.congr rfl rfl rfl rfl
  | connect r =>
      obtain ⟨q, -, hok⟩ := bind_eq_ok.mp hok
      cases hok
      exact h.congr rfl rfl rfl rfl
  | stop cancelled =>
      obtain ⟨q, -, hok⟩ := bind_eq_ok.mp hok
      cases hok
      exact h.congr rfl rfl rfl rfl
  | otherConnect | otherStop | disconnect | setRetry on =>
      cases hok
      exact h.congr rfl rfl rfl rfl
  | advance i =>
      cases hok
      obtain ⟨q, calls, hadvance, -⟩ := w.advance_eq i
      rw [hadvance]
      exact h.congr rfl rfl rfl rfl
  | removeConnection fd r => exact Exposed.removeConnection hs hadmits.1 hadmits.2 hok
  | others epoller =>
      cases hok
      exact h.congr rfl rfl rfl rfl
  | destroy cancelled => exact Exposed.destroy hadmits.1 hok

theorem reachable_exposed {shared : Bool} {epoller : Epoller} {ls : List ClientLabel}
    (hrun : client.Run (.init shared epoller) ls w) : (∃ s, w.Standing s) ∧ w.Exposed := by
  refine hrun.invariant (I := fun w => (∃ s, w.Standing s) ∧ w.Exposed)
    ⟨⟨_, standing_init shared epoller⟩, exposed_init shared epoller⟩ ?_
  rintro w l w' ⟨⟨s, hs⟩, h⟩ hstep
  exact ⟨hs.step hstep, h.step hs hstep⟩

/-- With an open connection: the callback has returned and the connection is set,
or neither. -/
theorem Exposed.established (h : w.Exposed) (hs : w.Standing s) (hfd : fd ∈ w.connections) :
    (w.NotReporting ∧ w.establishedConnection_ = some fd) ∨
    (¬ w.NotReporting ∧ w.establishedConnection_ = none) := by
  have halive : w.alive = true := by
    by_contra hgone
    rw [h.destroyed (by simpa using hgone)] at hfd
    cases hfd
  by_cases hnot : w.NotReporting
  · refine .inl ⟨hnot, ?_⟩
    rcases hs.connections with hnil | ⟨fd', hone, -⟩
    · rw [hnil] at hfd
      cases hfd
    · obtain rfl : fd = fd' := by simpa [hone] using hfd
      rw [h.returned halive hnot, hone]
      rfl
  · obtain ⟨fd', hphase⟩ : ∃ fd', w.phase = .reporting fd' := by
      simpa [NotReporting] using hnot
    exact .inr ⟨hnot, (h.reporting fd' hphase).2⟩

/-! ## Behind `disconnect` -/

/-- Nothing has been connected since a state with a connection, and nothing will
be without a call of `connect`. -/
structure Quiet (w₀ w : ConnectingClient) : Prop where
  connect : w.connect_ = false
  connected : w.connector_.state_ = .kConnected
  sockets : w.connector_.sockets = w₀.connector_.sockets
  connections : w.connections ⊆ w₀.connections

end ConnectingClient

namespace Connector

variable {q q' : Connector}

/-- `stop` finds nothing to do behind a connection. -/
theorem stop_connected (h : q.state_ = .kConnected) {cancelled : Bool}
    (hok : q.stop cancelled = .ok q') :
    q'.state_ = .kConnected ∧ q'.sockets = q.sockets := by
  have hidle : ¬ q.state_ = .kConnecting := by simp [h]
  simp only [Connector.stop, Connector.stopInLoop, if_neg hidle, pure_eq_ok, ok_bind] at hok
  split at hok
  · obtain ⟨timers, hcancel⟩ := Connector.cancelTimerInLoop_eq
      { q with connect_ := false } q.retryTimerId_ cancelled
    rw [hcancel] at hok
    cases hok
    exact ⟨h, rfl⟩
  · cases hok
    exact ⟨h, rfl⟩

theorem stopInLoop_connected (h : q.state_ = .kConnected) : q.stopInLoop = .ok q := by
  rw [Connector.stopInLoop, if_neg (by simp [h])]
  rfl

theorem destructor_connected (h : q.state_ = .kConnected) {cancelled : Bool}
    (hok : q.destructor cancelled = .ok q') :
    q'.state_ = .kConnected ∧ q'.sockets = q.sockets := by
  unfold Connector.destructor at hok
  obtain ⟨q₁, hq₁, hok⟩ := bind_eq_ok.mp hok
  obtain ⟨-, -, hok⟩ := bind_eq_ok.mp hok
  cases hok
  split at hq₁
  · exact stop_connected h hq₁
  · cases hq₁
    exact ⟨h, rfl⟩

/-- Nor does a timer or a call start anything. -/
theorem startInLoop_connected (h : q.state_ = .kConnected) (r : ConnectResult) :
    q.startInLoop r = .error (.assertion .startInLoop) := by
  rw [Connector.startInLoop, assert_neg (by simp [h]), error_bind]

end Connector

namespace ConnectingClient

variable {w w' w₀ : ConnectingClient} {s : ConnectStage} {l : ClientLabel} {fd : Fd}

theorem Quiet.step (h : Quiet w₀ w) (hs : w.Standing s) (hl : ¬ l.Connects)
    (hstep : client.Step w l w') : Quiet w₀ w' := by
  obtain ⟨⟨-, hadmits⟩, hok⟩ := hstep
  have hok : w.step l = .ok w' := hok
  -- the connector is left alone, or does nothing
  have hsame : w'.connector_.state_ = .kConnected ∧
      w'.connector_.sockets = w.connector_.sockets → w'.connect_ = false →
      w'.connections ⊆ w.connections → Quiet w₀ w' := by
    rintro ⟨hstate, hsockets⟩ hconnect hconnections
    exact ⟨hconnect, hstate, hsockets.trans h.sockets,
      List.Subset.trans hconnections h.connections⟩
  cases l with
  | handleEvent soError selfConnect =>
      obtain ⟨revent_, hphase⟩ := hadmits
      exact absurd h.connected (hs.active revent_ hphase).2
  | reported =>
      obtain ⟨fd, hphase⟩ := hadmits
      simp only [ConnectingClient.step, hphase] at hok
      cases hok
      exact hsame ⟨h.connected, rfl⟩ h.connect (List.Subset.refl _)
  | connect r => exact absurd trivial hl
  | otherConnect => exact absurd trivial hl
  | startInLoop r =>
      obtain ⟨q, hq, -⟩ := bind_eq_ok.mp hok
      cases hq.symm.trans (Connector.startInLoop_connected h.connected r)
  | stopInLoop =>
      obtain ⟨q, hq, hok⟩ := bind_eq_ok.mp hok
      cases hok
      cases hq.symm.trans (Connector.stopInLoop_connected h.connected)
      exact hsame ⟨h.connected, rfl⟩ h.connect (List.Subset.refl _)
  | cancelTimerInLoop cancelled =>
      obtain ⟨delay, batch, hphase⟩ := hadmits
      cases hok
      obtain ⟨timers, hcancel⟩ := cancelTimerInLoop_eq hphase cancelled
      rw [hcancel] at hsame ⊢
      exact hsame ⟨h.connected, rfl⟩ h.connect (List.Subset.refl _)
  | advance i =>
      cases hok
      obtain ⟨q, calls, hadvance, hstate, hsockets⟩ := w.advance_eq i
      rw [hadvance] at hsame ⊢
      exact hsame ⟨hstate.trans h.connected, hsockets⟩ h.connect (List.Subset.refl _)
  | retryTimer delay r =>
      obtain ⟨q, hq, -⟩ := bind_eq_ok.mp hok
      have hfault := Connector.startInLoop_connected (q := { w.connector_ with
        retryTimers := w.connector_.retryTimers.erase delay }) h.connected r
      cases hq.symm.trans hfault
  | stop cancelled =>
      obtain ⟨q, hq, hok⟩ := bind_eq_ok.mp hok
      cases hok
      exact hsame (Connector.stop_connected h.connected hq) rfl (List.Subset.refl _)
  | removeConnection fd r =>
      have hoff : ¬ (w.retry_ && w.connect_) = true := by simp [h.connect]
      simp only [ConnectingClient.step, ConnectingClient.removeConnection, if_neg hoff] at hok
      cases hok
      exact hsame ⟨h.connected, rfl⟩ h.connect List.erase_subset
  | destroy cancelled =>
      obtain ⟨q, hq, hok⟩ := bind_eq_ok.mp hok
      obtain ⟨q', hq', hok⟩ := bind_eq_ok.mp hok
      cases hok
      have hstop : q.state_ = .kConnected ∧ q.sockets = w.connector_.sockets := by
        split at hq
        · exact Connector.stop_connected h.connected hq
        · cases hq
          exact ⟨h.connected, rfl⟩
      obtain ⟨hstate, hsockets⟩ := Connector.destructor_connected hstop.1 hq'
      exact hsame ⟨hstate, hsockets.trans hstop.2⟩ h.connect (List.nil_subset _)
  | disconnect | otherStop =>
      cases hok
      exact hsame ⟨h.connected, rfl⟩ rfl (List.Subset.refl _)
  | _ =>
      cases hok
      exact hsame ⟨h.connected, rfl⟩ h.connect (List.Subset.refl _)

/-- Behind a `disconnect` of a client with a connection nothing is connected. -/
theorem quiet_disconnect (hs : w.Standing s) (hfd : fd ∈ w.connections)
    {ls : List ClientLabel} (hrun : client.Run w.disconnect ls w')
    (hls : ∀ l ∈ ls, ¬ l.Connects) : Quiet w w' := by
  have hconnected : w.connector_.state_ = .kConnected := by
    by_contra hstate
    rw [hs.connections_nil hstate] at hfd
    cases hfd
  have hpre : w.disconnect.Standing s := ⟨hs.connector, hs.connections, hs.active⟩
  have hrun := System.run_restrict_labels.mpr ⟨hrun, hls⟩
  have hkeep := hrun.invariant (I := fun w₁ => (∃ s, w₁.Standing s) ∧ Quiet w w₁)
    ⟨⟨s, hpre⟩, rfl, hconnected, rfl, List.Subset.refl _⟩ <| by
      rintro w₁ l w₂ ⟨⟨s₁, hs₁⟩, hquiet⟩ hstep
      obtain ⟨hstep, hl⟩ := System.restrict_step.mp hstep
      exact ⟨hs₁.step hstep, hquiet.step hs₁ hl hstep⟩
  exact hkeep.2

end ConnectingClient

/-- At every point of a run with an open connection, `getConnection` gives it, and
`disconnect` shuts it down, if and only if the callback of `newConnection` has
returned. Behind a `disconnect` nothing is connected again until `connect` is
called, by any thread, at any point. -/
theorem client_exposes_connection {shared : Bool} {epoller : Epoller} {ls : List ClientLabel}
    {w : ConnectingClient} (hrun : client.Run (.init shared epoller) ls w) {fd : Fd}
    (hfd : fd ∈ w.connections) :
    (w.getConnection = some fd ↔ w.NotReporting) ∧
    (w.disconnect.shutdowns = w.shutdowns ++ [fd] ↔ w.NotReporting) ∧
    ∀ ls' w', client.Run w.disconnect ls' w' → (∀ l ∈ ls', ¬ l.Connects) →
      w'.connector_.sockets = w.connector_.sockets ∧
      ∀ fd' ∈ w'.connections, fd' ∈ w.connections := by
  obtain ⟨⟨s, hs⟩, hexposed⟩ := ConnectingClient.reachable_exposed hrun
  have hdisconnect : ∀ ls' w', client.Run w.disconnect ls' w' → (∀ l ∈ ls', ¬ l.Connects) →
      w'.connector_.sockets = w.connector_.sockets ∧
      ∀ fd' ∈ w'.connections, fd' ∈ w.connections := by
    intro ls' w' hrun' hls'
    have hquiet := ConnectingClient.quiet_disconnect hs hfd hrun' hls'
    exact ⟨hquiet.sockets, fun _ hfd' => hquiet.connections hfd'⟩
  rcases hexposed.established hs hfd with ⟨hnot, hset⟩ | ⟨hnot, hset⟩
  · -- the callback has returned
    exact ⟨iff_of_true hset hnot,
      iff_of_true (by simp [ConnectingClient.disconnect, hset]) hnot, hdisconnect⟩
  · refine ⟨iff_of_false ?_ hnot, iff_of_false ?_ hnot, hdisconnect⟩
    · simp [ConnectingClient.getConnection, hset]
    · simp [ConnectingClient.disconnect, hset]

/-- A client whose socket connects at once, behind the callback. -/
theorem client_exposes_connection_reported : ∃ w, client.Run (.init false {})
      [.connect ⟨7, .EINPROGRESS, 0⟩, .poll (some { epollout := true }), .handleEvent 0 false,
        .reported] w ∧
    w.connections = [7] ∧ w.getConnection = some 7 := by
  have hrun : ∃ w, client.Run (.init false {})
      [.connect ⟨7, .EINPROGRESS, 0⟩, .poll (some { epollout := true }), .handleEvent 0 false,
        .reported] w ∧ w.connections = [7] ∧ w.phase = .events none := by
    refine ⟨_, .cons ⟨⟨rfl, trivial⟩, rfl⟩ (.cons ⟨⟨rfl, rfl, fun _ => ⟨_, rfl, rfl, rfl⟩⟩, rfl⟩
      (.cons ⟨⟨rfl, _, rfl⟩, rfl⟩ (.cons ⟨⟨rfl, _, rfl⟩, rfl⟩ (.nil _)))), rfl, rfl⟩
  obtain ⟨w, hrun, hconnections, hphase⟩ := hrun
  have hnot : w.NotReporting := ConnectingClient.notReporting_of_eq hphase (by simp)
  exact ⟨w, hrun, hconnections,
    (client_exposes_connection hrun (by simp [hconnections])).1.mpr hnot⟩

/-- `disconnect`, called by the callback, finds no connection: the connection is
set behind it, and open. -/
theorem callback_disconnect_lost : ∃ w w', client.Run (.init false {})
      [.connect ⟨7, .EINPROGRESS, 0⟩, .poll (some { epollout := true }),
        .handleEvent 0 false] w ∧
    w.connections = [7] ∧ w.getConnection = none ∧
    client.Run w [.disconnect, .reported] w' ∧
    w'.shutdowns = [] ∧ w'.connections = [7] ∧ w'.getConnection = some 7 := by
  exact ⟨_, _, .cons ⟨⟨rfl, trivial⟩, rfl⟩ (.cons ⟨⟨rfl, rfl, fun _ => ⟨_, rfl, rfl, rfl⟩⟩, rfl⟩
    (.cons ⟨⟨rfl, _, rfl⟩, rfl⟩ (.nil _))), rfl, rfl,
    .cons ⟨⟨rfl, trivial⟩, rfl⟩ (.cons ⟨⟨rfl, _, rfl⟩, rfl⟩ (.nil _)), rfl, rfl, rfl⟩

end Ham.Net
