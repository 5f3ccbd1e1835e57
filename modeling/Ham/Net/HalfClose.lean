import Ham.Net.ReactorInvariant

/-!
# Half-close waits for the output

`shutdown` while bytes are pending only sets `state_`; the `handleWrite` that
drains the buffer finds `kDisconnecting` there and calls `shutdownInLoop`. What
makes this right is that `channel_->isWriting()` says whether bytes are pending,
in every state of every run up to the first `handleClose` or
`destoryConnection`, whatever `write` returns (`Settled`).

`Pours` lists what an action can do to the output; `Deferred` is a connection
with a shutdown on hold, and `Deferred.step` says how it can be given up.
-/

namespace Ham.Net

open Ham.Lib

/-! ## What an action does to the output -/

/-- What an action can do to the output of a connection. -/
inductive Pours (a : Action) (k k' : TcpConnection) : Prop
  | kept (writing : k'.channel_.isWriting = k.channel_.isWriting)
      (output : k'.outputBuffer_ = k.outputBuffer_)
      (halfCloses : k'.log.shutdownWrites = k.log.shutdownWrites)
      (state : k'.state_ = k.state_ ∨ k'.state_ = .kDisconnecting ∨ a = .store k'.state_ ∨
        ((a = .establishConnection ∨ a = .runEstablish) ∧ k'.state_ = .kConnected))
  | pending (writing : k'.channel_.isWriting = true) (output : k'.outputBuffer_.readable ≠ [])
      (halfCloses : k'.log.shutdownWrites = k.log.shutdownWrites) (state : k'.state_ = k.state_)
  | drained (revents : Events) (left : Option Buffer) (write : WriteResult)
      (by_ : a = .handleEventWrite revents left write)
      (writing : k'.channel_.isWriting = false) (output : k'.outputBuffer_.readable = [])
      (halfCloses : k'.log.shutdownWrites = k.log.shutdownWrites +
        if k.state_ = .kDisconnecting then 1 else 0)
      (state : k'.state_ = if k.state_ = .kDisconnecting then .kDisconnected else k.state_)
  | halfClosed (idle : k.channel_.isWriting = false) (writing : k'.channel_.isWriting = false)
      (output : k'.outputBuffer_ = k.outputBuffer_)
      (halfCloses : k'.log.shutdownWrites = k.log.shutdownWrites + 1)
  | ended (end_ : 0 < k'.log.closeCalls ∨ k'.log.destroyed = true)
      (halfCloses : k'.log.shutdownWrites = k.log.shutdownWrites)

/-- The rest of the connection has no part in it. -/
theorem Pours.of_same {a : Action} {k k₀ k' : TcpConnection} (h : Pours a k k')
    (hchannel : k.channel_ = k₀.channel_) (houtput : k.outputBuffer_ = k₀.outputBuffer_)
    (hlog : k.log = k₀.log) (hstate : k.state_ = k₀.state_) : Pours a k₀ k' := by
  cases h with
  | kept writing output halfCloses state =>
      rw [hchannel] at writing
      rw [houtput] at output
      rw [hlog] at halfCloses
      rw [hstate] at state
      exact .kept writing output halfCloses state
  | pending writing output halfCloses state =>
      rw [hlog] at halfCloses
      rw [hstate] at state
      exact .pending writing output halfCloses state
  | drained revents left write by_ writing output halfCloses state =>
      rw [hlog, hstate] at halfCloses
      rw [hstate] at state
      exact .drained revents left write by_ writing output halfCloses state
  | halfClosed idle writing output halfCloses =>
      rw [hchannel] at idle
      rw [houtput] at output
      rw [hlog] at halfCloses
      exact .halfClosed idle writing output halfCloses
  | ended end_ halfCloses =>
      rw [hlog] at halfCloses
      exact .ended end_ halfCloses

namespace ConnRun

variable {a : Action} {x y : ConnRun}

theorem sendInLoop_pours {msg : Bytes} {write : WriteResult} (h : x.sendInLoop msg write = .ok y) :
    Pours a x.conn y.conn := by
  obtain ⟨-, -, hlife, hhalf, ⟨hchannel, hbuffer⟩ | ⟨-, hchannel, hpending⟩⟩ := sendInLoop_ok h
  · exact .kept (by rw [hchannel]) hbuffer hhalf (.inl hlife.state)
  · exact .pending (by rw [hchannel]; rfl) hpending hhalf hlife.state

theorem handleWrite_pours {revents : Events} {left : Option Buffer} {write : WriteResult}
    (ha : a = .handleEventWrite revents left write) (h : x.handleWrite write = .ok y) :
    Pours a x.conn y.conn := by
  obtain ⟨-, -, ⟨hlife, hchannel, hstill⟩ | ⟨-, hchannel, -, hstate, hempty, hhalf⟩⟩ :=
    handleWrite_ok h
  · rcases hstill.output with hbuffer | ⟨hwriting, hpending⟩
    · exact .kept (by rw [hchannel]) hbuffer hstill.shutdownWrites (.inl hlife.state)
    · exact .pending (by rw [hchannel, hwriting]) hpending hstill.shutdownWrites hlife.state
  · exact .drained revents left write ha (by rw [hchannel]; rfl) hempty hhalf hstate

theorem handleClose_pours (h : x.handleClose = .ok y) : Pours a x.conn y.conn := by
  obtain ⟨-, -, -, hconn⟩ := handleClose_ok h
  rw [hconn]
  exact .ended (.inl (Nat.succ_pos _)) rfl

theorem shutdownInLoop_pours (h : x.shutdownInLoop = .ok y) : Pours a x.conn y.conn := by
  obtain ⟨-, -, -, hspec⟩ := shutdownInLoop_ok h
  split at hspec
  · rw [hspec]
    exact .kept rfl rfl rfl (.inl rfl)
  · rename_i hidle
    rw [hspec]
    exact .halfClosed (eq_false_of_ne_true hidle) (eq_false_of_ne_true hidle) rfl rfl

theorem establishConnection_pours (h : x.establishConnection = .ok y)
    (ha : a = .establishConnection ∨ a = .runEstablish) : Pours a x.conn y.conn := by
  obtain ⟨-, -, -, hconn⟩ := establishConnection_ok h
  rw [hconn]
  exact .kept rfl rfl rfl (.inr (.inr (.inr ⟨ha, rfl⟩)))

theorem destoryConnection_pours (h : x.destoryConnection = .ok y) : Pours a x.conn y.conn := by
  obtain ⟨-, -, -, hspec⟩ := destoryConnection_ok h
  split at hspec
  · rw [hspec]
    exact .ended (.inr rfl) rfl
  · rw [hspec]
    exact .ended (.inr rfl) rfl

theorem handleEvent_pours {revents : Events} {read : ReadResult}
    (h : x.handleEvent revents read = .ok y) : Pours a x.conn y.conn := by
  simp only [handleEvent, bind_eq_ok, hangupEvent, readEvent] at h
  obtain ⟨z, hz, h⟩ := h
  -- the read leaves the output alone or closes
  have hread : Pours a z.conn y.conn ∧ z.conn.log.closeCalls ≤ y.conn.log.closeCalls ∧
      y.conn.log.shutdownWrites = z.conn.log.shutdownWrites := by
    split at h
    · obtain ⟨-, hspec⟩ := handleRead_ok h
      split at hspec
      · obtain ⟨-, -, -, hconn⟩ := handleClose_ok hspec
        refine ⟨handleClose_pours hspec, ?_, ?_⟩
        · rw [hconn]
          exact Nat.le_succ _
        · rw [hconn]
      · obtain ⟨-, -, hlife, hchannel, hbuffer, hhalf⟩ := hspec
        exact ⟨.kept (by rw [hchannel]) hbuffer hhalf (.inl hlife.state),
          hlife.closeCalls.ge, hhalf⟩
    · cases h
      exact ⟨.kept rfl rfl rfl (.inl rfl), Nat.le_refl _, rfl⟩
  split at hz
  · obtain ⟨-, -, -, hconn⟩ := handleClose_ok hz
    have hone : 0 < z.conn.log.closeCalls := by
      rw [hconn]
      exact Nat.succ_pos _
    refine .ended (.inl (Nat.lt_of_lt_of_le hone hread.2.1)) ?_
    rw [hread.2.2, hconn]
  · cases hz
    exact hread.1

theorem shutdown_pours (h : x.shutdown = .ok y) : Pours a x.conn y.conn := by
  unfold shutdown at h
  split at h
  · split at h
    · obtain ⟨-, -, -, hspec⟩ := shutdownInLoop_ok h
      split at hspec
      · rw [hspec]
        exact .kept rfl rfl rfl (.inr (.inl rfl))
      · rename_i hidle
        rw [hspec]
        exact .halfClosed (eq_false_of_ne_true hidle) (eq_false_of_ne_true hidle) rfl rfl
    · cases h
      exact .kept rfl rfl rfl (.inl rfl)
  · cases h
    exact .kept rfl rfl rfl (.inl rfl)

theorem forceClose_pours (h : x.forceClose = .ok y) : Pours a x.conn y.conn := by
  unfold forceClose at h
  split at h
  · split at h
    · cases h
      exact .kept rfl rfl rfl (.inr (.inl rfl))
    · cases h
      exact .kept rfl rfl rfl (.inl rfl)
  · cases h
    exact .kept rfl rfl rfl (.inl rfl)

end ConnRun

open ConnRun in
/-- Every action that returns has done one of the things on the list. -/
theorem Action.run_pours {a : Action} {x y : ConnRun} (h : a.run x = .ok y) :
    Pours a x.conn y.conn := by
  cases a with
  | establishConnection => exact establishConnection_pours h (.inl rfl)
  | runEstablish =>
      simp only [Action.run] at h
      split at h
      · exact establishConnection_pours h (.inr rfl)
      · cases h
        exact .kept rfl rfl rfl (.inl rfl)
  | destoryConnection => exact destoryConnection_pours h
  | handleEvent revents read => exact handleEvent_pours h
  | handleEventWrite revents left write =>
      simp only [Action.run, ConnRun.handleEventWrite] at h
      split at h
      · exact (handleWrite_pours rfl h).of_same rfl rfl rfl rfl
      · cases h
        exact .kept rfl rfl rfl (.inl rfl)
  | sendInLoop msg write => exact sendInLoop_pours h
  | shutdownInLoop => exact shutdownInLoop_pours h
  | forceCloseInLoop =>
      obtain ⟨-, hspec⟩ := forceCloseInLoop_ok h
      split at hspec
      · exact handleClose_pours hspec
      · subst hspec
        exact .kept rfl rfl rfl (.inl rfl)
  | removeConnectionInLoop =>
      cases h
      exact .kept rfl rfl rfl (.inl rfl)
  | send msg write =>
      simp only [Action.run, ConnRun.send] at h
      split at h
      · split at h
        · exact sendInLoop_pours h
        · cases h
          exact .kept rfl rfl rfl (.inl rfl)
      · cases h
        exact .kept rfl rfl rfl (.inl rfl)
  | shutdown => exact shutdown_pours h
  | forceClose => exact forceClose_pours h
  | store state =>
      cases h
      exact .kept rfl rfl rfl (.inr (.inr (.inl rfl)))
  | detach unique =>
      simp only [Action.run] at h
      split at h
      · exact (forceClose_pours h).of_same rfl rfl rfl rfl
      · cases h
        exact .kept rfl rfl rfl (.inl rfl)

/-! ## Connections that watch for what they hold -/

namespace TcpConnection

/-- Between `establishConnection` and the first `handleClose` or
`destoryConnection`. -/
structure Serving (k : TcpConnection) : Prop where
  established : k.log.connectionCalls ≠ []
  notClosed : k.log.closeCalls = 0
  notDestroyed : k.log.destroyed = false

/-- Before the first `handleClose` or `destoryConnection`: the channel watches
for writability exactly while bytes are pending, and a connection that is
disconnected has been half-closed. -/
structure Settled (k : TcpConnection) : Prop where
  writing : k.channel_.isWriting = true ↔ k.outputBuffer_.readable ≠ []
  halfClosed : k.state_ = .kDisconnected → 0 < k.log.shutdownWrites
  state : k.log.connectionCalls ≠ [] → k.state_ ≠ .kConnecting

end TcpConnection

section

variable {a : Action} {k k' : TcpConnection}

/-- Nothing brings a connection back to `kConnecting`. -/
theorem Moves.not_connecting (h : Moves a k k')
    (hk : k.log.connectionCalls ≠ [] → k.state_ ≠ .kConnecting)
    (hstore : ∀ value, a = .store value → value = .kDisconnecting) :
    k'.log.connectionCalls ≠ [] → k'.state_ ≠ .kConnecting := by
  intro hcalls
  cases h with
  | idle life channel =>
      rw [life.state]
      exact hk (life.connectionCalls ▸ hcalls)
  | rearm data write by_ rearms life channel =>
      rw [life.state]
      exact hk (life.connectionCalls ▸ hcalls)
  | drain revents left write by_ out drains log channel state =>
      rw [state]
      split
      · decide
      · exact hk (log.connectionCalls ▸ hcalls)
  | store value by_ state log channel =>
      rw [state, hstore value by_]
      decide
  | remove by_ before state channel connectionCalls closeCalls destroyed =>
      rw [state]
      exact hk (connectionCalls ▸ hcalls)
  | close n by_ pos state =>
      rw [state]
      decide
  | halfClose by_ idle state =>
      rw [state]
      decide
  | disconnecting by_ before state =>
      rw [state]
      decide
  | establish by_ state =>
      rw [state]
      decide
  | stop by_ before state =>
      rw [state]
      decide

theorem Pours.settled (h : Pours a k k') (hmoves : Moves a k k') (hk : k.Settled)
    (hstore : ∀ value, a = .store value → value = .kDisconnecting)
    (hclosed : k'.log.closeCalls = 0) (hdestroyed : k'.log.destroyed = false) : k'.Settled := by
  refine ⟨?_, ?_, hmoves.not_connecting hk.state hstore⟩
  -- the watch follows the buffer
  · cases h with
    | kept writing output halfCloses state =>
        rw [writing, output]
        exact hk.writing
    | pending writing output halfCloses state => exact iff_of_true writing output
    | drained revents left write by_ writing output halfCloses state =>
        rw [writing, output]
        simp
    | halfClosed idle writing output halfCloses =>
        rw [writing, output, ← idle]
        exact hk.writing
    | ended end_ halfCloses =>
        rw [hclosed, hdestroyed] at end_
        simp at end_
  -- `kDisconnected` comes with a half-close, at once or behind the last byte
  · intro hstate
    cases h with
    | kept writing output halfCloses state =>
        rw [halfCloses]
        rcases state with hsame | hdis | hst | ⟨-, hconnected⟩
        · exact hk.halfClosed (hsame ▸ hstate)
        · rw [hstate] at hdis
          cases hdis
        · have hdis := hstore _ hst
          rw [hstate] at hdis
          cases hdis
        · rw [hstate] at hconnected
          cases hconnected
    | pending writing output halfCloses state =>
        rw [halfCloses]
        exact hk.halfClosed (state ▸ hstate)
    | drained revents left write by_ writing output halfCloses state =>
        rw [halfCloses]
        split
        · exact Nat.succ_pos _
        · rename_i hnot
          rw [if_neg hnot] at state
          exact hk.halfClosed (state ▸ hstate)
    | halfClosed idle writing output halfCloses =>
        rw [halfCloses]
        exact Nat.succ_pos _
    | ended end_ halfCloses =>
        rw [hclosed, hdestroyed] at end_
        simp at end_

end

namespace World

variable {w w' : World} {t : Thread} {c : ConnId} {a : Action} {k : TcpConnection} {y : ConnRun}
  {l : Label}

/-- An action does not take back a close or a destruction. -/
theorem Acted.not_ended (h : Acted w t c a w' k y) (hclosed : y.conn.log.closeCalls = 0)
    (hdestroyed : y.conn.log.destroyed = false) :
    k.log.closeCalls = 0 ∧ k.log.destroyed = false := by
  obtain ⟨es, -, -, hcalls⟩ := h.ran.effects
  have hcalls : y.conn.log.closeCalls = k.log.closeCalls + es.count .closeCallback := hcalls
  refine ⟨by omega, ?_⟩
  rcases h.ran.moves.destroyed with hsame | ⟨-, htrue⟩
  · exact hsame ▸ hdestroyed
  · rw [htrue] at hdestroyed
    cases hdestroyed

/-- Every connection that has not ended is settled. -/
def Watched (w : World) : Prop :=
  ∀ c k, w.conns c = some k → k.log.closeCalls = 0 → k.log.destroyed = false → k.Settled

theorem Watched.prepare (h : Watched w) : Watched (w.prepare l) := by
  intro c k hk hclosed hdestroyed
  rcases prepare_conns hk with hk | ⟨-, ℓ, name, fd, cb, wc, rfl, -⟩
  · exact h c k hk hclosed hdestroyed
  · refine ⟨?_, ?_, ?_⟩
    · simp [newTcpConnection, Channel.isWriting, Channel.kNoneEvent_]
    · intro hstate
      cases hstate
    · intro hcalls
      exact absurd rfl hcalls

theorem Watched.step (h : Watched w) (hann : Announced w) (hstep : reactor.Step w l w') :
    Watched w' := by
  rcases step_cases hstep.2 with rfl | ⟨t, d, a, k₀, y, haction, hact⟩
  · exact h.prepare
  · intro c k hk hclosed hdestroyed
    rcases hact.cases hk with ⟨rfl, rfl⟩ | ⟨-, hk⟩
    · obtain ⟨hclosed₀, hdestroyed₀⟩ := hact.not_ended hclosed hdestroyed
      refine (Action.run_pours hact.returned).settled hact.ran.moves
        (h.prepare c k₀ hact.before hclosed₀ hdestroyed₀) (fun value ha => ?_) hclosed hdestroyed
      exact hann.store_value (ha ▸ action_runs haction)
    · exact h.prepare c k hk hclosed hdestroyed

theorem reachable_watched {server : TcpServer} {client : TcpClient} {ls : List Label}
    (hrun : reactor.Run (World.init server client) ls w) : Watched w :=
  (hrun.invariant (I := fun w => (Sound w ∧ Announced w) ∧ Watched w)
    ⟨⟨sound_init server client, announced_init server client⟩, fun _ _ h => by cases h⟩
    fun _ _ _ h hstep => ⟨⟨h.1.1.step hstep, h.1.2.step h.1.1 hstep⟩, h.2.step h.1.2 hstep⟩).2

/-! ## A shutdown on hold -/

/-- The connection has been closed or destroyed, or is gone. -/
structure Ended (w : World) (c : ConnId) : Prop where
  old : c < w.nextConn
  ended : ∀ k, w.conns c = some k → 0 < k.log.closeCalls ∨ k.log.destroyed = true

theorem Ended.prepare (h : Ended w c) : Ended (w.prepare l) c where
  old := Nat.lt_of_lt_of_le h.old (prepare_nextConn w l)
  ended := by
    intro k hk
    rcases prepare_conns hk with hk | ⟨rfl, -⟩
    · exact h.ended k hk
    · exact absurd h.old (Nat.lt_irrefl _)

theorem Ended.step (h : Ended w c) (hstep : reactor.Step w l w') : Ended w' c := by
  rcases step_cases hstep.2 with rfl | ⟨t, d, a, k₀, y, haction, hact⟩
  · exact h.prepare
  · have hpre : Ended (w.prepare l) c := h.prepare
    refine ⟨hact.nextConn ▸ hpre.old, ?_⟩
    intro k hk
    rcases hact.cases hk with ⟨rfl, rfl⟩ | ⟨-, hk⟩
    · by_contra hnot
      obtain ⟨hcalls, hdestroyed⟩ := not_or.mp hnot
      obtain ⟨hcalls₀, hdestroyed₀⟩ := hact.not_ended (Nat.eq_zero_of_not_pos hcalls)
        (eq_false_of_ne_true hdestroyed)
      have hend := hpre.ended k₀ hact.before
      rw [hcalls₀, hdestroyed₀] at hend
      simp at hend
    · exact hpre.ended k hk

/-- A shutdown waits for the bytes of connection `c`; `n` have been issued. -/
structure Deferred (w : World) (c : ConnId) (n : Nat) (k : TcpConnection) : Prop where
  conn : w.conns c = some k
  up : k.Serving
  state : k.state_ = .kDisconnecting
  pending : k.outputBuffer_.readable ≠ []
  halfCloses : k.log.shutdownWrites = n

variable {n : Nat}

/-- An action on a connection with a shutdown on hold. -/
theorem Deferred.acted (h : Deferred w c n k) (hact : Acted w t c a w' k y) (hk : k.Settled)
    (hest : a ≠ .establishConnection ∧ a ≠ .runEstablish)
    (hstore : ∀ value, a = .store value → value = .kDisconnecting) :
    Deferred w' c n y.conn ∨
    (∃ revents left write, a = .handleEventWrite revents left write ∧
      y.conn.outputBuffer_.readable = [] ∧ y.conn.log.shutdownWrites = n + 1) ∨
    (0 < y.conn.log.closeCalls ∨ y.conn.log.destroyed = true) := by
  by_cases hend : 0 < y.conn.log.closeCalls ∨ y.conn.log.destroyed = true
  · exact .inr (.inr hend)
  obtain ⟨hcalls, hdestroyed⟩ := not_or.mp hend
  have hup : y.conn.Serving := by
    refine ⟨?_, Nat.eq_zero_of_not_pos hcalls, eq_false_of_ne_true hdestroyed⟩
    rcases hact.ran.moves.connectionCalls with heq | ⟨-, heq, -⟩ | ⟨-, -, heq, -⟩
    · rw [heq]
      exact h.up.established
    · rw [heq]
      simp
    · rw [heq]
      simp
  cases Action.run_pours hact.returned with
  | kept writing output halfCloses state =>
      refine .inl ⟨hact.after, hup, ?_, output ▸ h.pending, halfCloses.trans h.halfCloses⟩
      rcases state with hsame | hdis | hst | ⟨ha, -⟩
      · exact hsame.trans h.state
      · exact hdis
      · exact hstore _ hst
      · exact absurd ha (not_or.mpr hest)
  | pending writing output halfCloses state =>
      exact .inl ⟨hact.after, hup, state.trans h.state, output, halfCloses.trans h.halfCloses⟩
  | drained revents left write by_ writing output halfCloses state =>
      refine .inr (.inl ⟨revents, left, write, by_, output, ?_⟩)
      rw [if_pos h.state] at halfCloses
      exact halfCloses.trans (congrArg (· + 1) h.halfCloses)
  | halfClosed idle writing output halfCloses =>
      -- bytes are pending, so the channel is watched
      have hwriting := hk.writing.mpr h.pending
      have hidle : k.channel_.isWriting = false := idle
      rw [hidle] at hwriting
      cases hwriting
  | ended end_ halfCloses => exact absurd end_ hend

/-- A shutdown on hold stays so until the write that drains the buffer, which
issues it, or the end of the connection. -/
theorem Deferred.step (h : Deferred w c n k) (hsound : Sound w) (hann : Announced w)
    (hwatched : Watched w) (hstep : reactor.Step w l w') :
    (∃ k', Deferred w' c n k') ∨
    (∃ ℓ left write k', l = .handleEventWrite ℓ left write ∧ w'.conns c = some k' ∧
      k'.outputBuffer_.readable = [] ∧ k'.log.shutdownWrites = n + 1) ∨ Ended w' c := by
  have hold := hsound.fresh c k h.conn
  by_cases hrelease : l = .release c
  · subst hrelease
    have hw' : w' = w.prepare (.release c) := (Except.ok.inj hstep.2).symm
    refine .inr (.inr ⟨hw' ▸ Nat.lt_of_lt_of_le hold (prepare_nextConn w _), ?_⟩)
    intro k' hk'
    rw [hw'] at hk'
    simp [World.prepare, h.conn, onLoop] at hk'
  have hpre : Deferred (w.prepare l) c n k :=
    ⟨prepare_keeps h.conn hold.ne hrelease, h.up, h.state, h.pending, h.halfCloses⟩
  rcases step_cases hstep.2 with rfl | ⟨t, d, a, k₀, y, haction, hact⟩
  · exact .inl ⟨k, hpre⟩
  have hruns := action_runs haction
  by_cases hdc : c = d
  · subst hdc
    have hk₀ : k₀ = k := by
      have hbefore := hact.before
      rw [hpre.conn] at hbefore
      exact (Option.some.inj hbefore).symm
    subst hk₀
    have hest : ¬ (a = .establishConnection ∨ a = .runEstablish) := fun ha =>
      h.up.established (hann.due hsound hstep.1 hruns hact.before ha).2.1
    rcases hpre.acted hact (hwatched c k₀ h.conn h.up.notClosed h.up.notDestroyed)
      (not_or.mp hest) (fun value ha => hann.store_value (ha ▸ hruns)) with
      hnext | ⟨revents, left, write, rfl, hempty, hissued⟩ | hend
    · exact .inl ⟨_, hnext⟩
    · refine .inr (.inl ?_)
      obtain ⟨ℓ, inMessage, active, rfl, -⟩ := hruns.handleEventWrite_inv
      exact ⟨ℓ, left, write, _, rfl, hact.after, hempty, hissued⟩
    · refine .inr (.inr ⟨?_, ?_⟩)
      · rw [hact.nextConn]
        exact Nat.lt_of_lt_of_le hold (prepare_nextConn w l)
      · intro k' hk'
        rw [hact.after] at hk'
        cases hk'
        exact hend
  · refine .inl ⟨k, ?_, h.up, h.state, h.pending, h.halfCloses⟩
    rw [hact.conns, Function.update_of_ne hdc]
    exact hpre.conn

/-- `shutdown()` takes effect on connection `c`: a call on its own thread, the
store of a call on another thread, or a call that finds it no longer connected
and returns. -/
def ShutsDown (w : World) (c : ConnId) (k : TcpConnection) : Label → Prop
  | .shutdown t d => d = c ∧ (t = some k.loop_ ∨ k.state_ ≠ .kConnected)
  | .advance i => ∃ ℓ, w.handovers[i]? = some (.store c .kDisconnecting ℓ (.shutdownInLoop c))
  | _ => False

/-- `shutdown()` while bytes are pending: nothing is issued, and the shutdown is
on hold unless the connection has been half-closed before. -/
theorem ShutsDown.holds {w₁ : World} (h : ShutsDown w c k l) (hk : w.conns c = some k)
    (hup : k.Serving) (hsettled : k.Settled) (hpending : k.outputBuffer_.readable ≠ [])
    (hstep : reactor.Step w l w₁) :
    ∃ k₁, w₁.conns c = some k₁ ∧ k₁.outputBuffer_.readable ≠ [] ∧
      k₁.log.shutdownWrites = k.log.shutdownWrites ∧
      ((k.state_ = .kDisconnected ∧ 0 < k.log.shutdownWrites) ∨
        Deferred w₁ c k.log.shutdownWrites k₁) := by
  have hwriting := hsettled.writing.mpr hpending
  -- all there is to show once the state is known to be `kDisconnecting`
  have hheld : ∀ k₁, w₁.conns c = some k₁ → k₁ = { k with state_ := .kDisconnecting } →
      ∃ k₁, w₁.conns c = some k₁ ∧ k₁.outputBuffer_.readable ≠ [] ∧
        k₁.log.shutdownWrites = k.log.shutdownWrites ∧
        ((k.state_ = .kDisconnected ∧ 0 < k.log.shutdownWrites) ∨
          Deferred w₁ c k.log.shutdownWrites k₁) := by
    intro k₁ hk₁ heq
    subst heq
    exact ⟨_, hk₁, hpending, rfl, .inr ⟨hk₁, ⟨hup.established, hup.notClosed, hup.notDestroyed⟩,
      rfl, hpending, rfl⟩⟩
  cases l with
  | shutdown t d =>
      obtain ⟨rfl, hwho⟩ := h
      have haction : w.action (.shutdown t d) = some (t, d, .shutdown) := rfl
      obtain ⟨k₀, y, hact⟩ := step_acted haction hstep.2
      have hk₀ : w.conns d = some k₀ := hact.before
      rw [hk] at hk₀
      cases hk₀
      have hreturned : ConnRun.shutdown _ = .ok y := hact.returned
      unfold ConnRun.shutdown at hreturned
      split at hreturned
      · rename_i hconnected
        have hloop := hwho.resolve_right (absurd hconnected)
        rw [if_pos (by simp [ConnRun.isInLoopThread, hloop])] at hreturned
        obtain ⟨-, -, -, hspec⟩ := ConnRun.shutdownInLoop_ok hreturned
        split at hspec
        · exact hheld y.conn hact.after hspec
        · rename_i hidle
          exact absurd hwriting hidle
      · -- the call returns: someone has been here before
        rename_i hnot
        cases hreturned
        have hcases : k.state_ = .kDisconnected ∨ k.state_ = .kDisconnecting := by
          have hconnecting := hsettled.state hup.established
          cases hstate : k.state_ with
          | kConnected => exact absurd hstate hnot
          | kConnecting => exact absurd hstate hconnecting
          | kDisconnected => exact .inl rfl
          | kDisconnecting => exact .inr rfl
        rcases hcases with hstate | hstate
        · exact ⟨k, hact.after, hpending, rfl, .inl ⟨hstate, hsettled.halfClosed hstate⟩⟩
        · refine hheld k hact.after ?_
          rw [← hstate]
  | advance i =>
      obtain ⟨ℓ, hi⟩ := h
      have haction : w.action (.advance i) = some (none, c, .store .kDisconnecting) := by
        simp [World.action, hi]
      obtain ⟨k₀, y, hact⟩ := step_acted haction hstep.2
      have hk₀ : (w.prepare (.advance i)).conns c = some k₀ := hact.before
      rw [World.prepare, World.advance, hi] at hk₀
      have hk₀ : w.conns c = some k₀ := hk₀
      rw [hk] at hk₀
      cases hk₀
      have hreturned := hact.returned
      cases hreturned
      exact hheld _ hact.after rfl
  | _ => exact h.elim

/-- A `shutdownWrite()` of a connection in service comes with nothing pending. -/
theorem Settled.issued {w' : World} {k' : TcpConnection} (hsettled : k.Settled) (hsound : Sound w)
    (hk : w.conns c = some k) (hstep : reactor.Step w l w') (hk' : w'.conns c = some k')
    (hissued : k.log.shutdownWrites < k'.log.shutdownWrites) :
    k'.outputBuffer_.readable = [] := by
  have hpre : ∀ k₀, (w.prepare l).conns c = some k₀ → k₀ = k := by
    intro k₀ hk₀
    rcases prepare_conns hk₀ with hk₀ | ⟨hnew, -⟩
    · rw [hk] at hk₀
      exact (Option.some.inj hk₀).symm
    · exact absurd hnew (hsound.fresh c k hk).ne
  rcases step_cases hstep.2 with rfl | ⟨t, d, a, k₀, y, -, hact⟩
  · rw [hpre k' hk'] at hissued
    exact absurd hissued (Nat.lt_irrefl _)
  rcases hact.cases hk' with ⟨rfl, rfl⟩ | ⟨-, hk'⟩
  · have hk₀ := hpre k₀ hact.before
    subst hk₀
    -- of what can happen to the output, two issue a shutdown
    cases Action.run_pours hact.returned with
    | kept writing output halfCloses state => exact absurd halfCloses hissued.ne'
    | pending writing output halfCloses state => exact absurd halfCloses hissued.ne'
    | drained revents left write by_ writing output halfCloses state => exact output
    | halfClosed idle writing output halfCloses =>
        have hidle : ¬ k₀.channel_.isWriting = true := ne_true_of_eq_false idle
        rw [output]
        exact not_not.mp (mt hsettled.writing.mpr hidle)
    | ended end_ halfCloses => exact absurd halfCloses hissued.ne'
  · rw [hpre k' hk'] at hissued
    exact absurd hissued (Nat.lt_irrefl _)

/-- A shutdown on hold stays on hold until the `handleWrite` that drains the last
byte, for as long as the connection is in service. -/
theorem Deferred.run {server : TcpServer} {client : TcpClient} {ls ls' : List Label}
    {w₁ w₂ : World} {k₁ k₂ : TcpConnection} {issued : Nat} (h : Deferred w₁ c issued k₁)
    (hreach : reactor.Run (World.init server client) ls w₁) (hrest : reactor.Run w₁ ls' w₂)
    (hk₂ : w₂.conns c = some k₂) (hup₂ : k₂.Serving) :
    (k₂.outputBuffer_.readable ≠ [] ∧ k₂.log.shutdownWrites = issued) ∨
    ∃ pre ℓ left write post v kv v' kv', ls' = pre ++ .handleEventWrite ℓ left write :: post ∧
      reactor.Run w₁ pre v ∧ v.conns c = some kv ∧ kv.outputBuffer_.readable ≠ [] ∧
      kv.log.shutdownWrites = issued ∧
      reactor.Step v (.handleEventWrite ℓ left write) v' ∧ v'.conns c = some kv' ∧
      kv'.outputBuffer_.readable = [] ∧ kv'.log.shutdownWrites = issued + 1 ∧
      reactor.Run v' post w₂ := by
  rcases hrest.first_exit (I := fun w => ∃ k, Deferred w c issued k) ⟨k₁, h⟩ with
    ⟨k₂', hend⟩ | ⟨pre, l', post, v, v', rfl, hpre, ⟨kv, hv⟩, hstep', hnot, hpost⟩
  · have hk₂' := hend.conn
    rw [hk₂] at hk₂'
    cases hk₂'
    exact .inl ⟨hend.pending, hend.halfCloses⟩
  · have hreach := hreach.append hpre
    rcases hv.step (reachable_sound hreach) (reachable_announced hreach)
      (reachable_watched hreach) hstep' with
      hstays | ⟨ℓ, left, write, kv', rfl, hkv', hempty, hissued⟩ | hend
    · exact absurd hstays hnot
    · exact .inr ⟨pre, ℓ, left, write, post, v, kv, v', kv', rfl, hpre, hv.conn, hv.pending,
        hv.halfCloses, hstep', hkv', hempty, hissued, hpost⟩
    · -- the connection does not come back
      have hend₂ : Ended w₂ c :=
        hpost.invariant (I := fun w => Ended w c) hend fun _ _ _ h hst => h.step hst
      have hover := hend₂.ended k₂ hk₂
      rw [hup₂.notClosed, hup₂.notDestroyed] at hover
      simp at hover

end World

open World

/-- Between `establishConnection` and the first `handleClose` or
`destoryConnection`: the channel watches for writability exactly while bytes
are pending; `shutdownWrite()` is issued with nothing pending; and a
`shutdown()` with bytes pending issues nothing until the `handleWrite` that
drains the last byte, which does (a connection half-closed before has had its
own). -/
theorem halfClose_waits {server : TcpServer} {client : TcpClient} {ls : List Label} {w : World}
    {c : ConnId} {k : TcpConnection} (hrun : reactor.Run (World.init server client) ls w)
    (hk : w.conns c = some k) (hup : k.Serving) :
    (k.channel_.isWriting = true ↔ k.outputBuffer_.readable ≠ []) ∧
    (∀ l w' k', reactor.Step w l w' → w'.conns c = some k' →
      k.log.shutdownWrites < k'.log.shutdownWrites → k'.outputBuffer_.readable = []) ∧
    ∀ l w₁, reactor.Step w l w₁ → w.ShutsDown c k l → k.outputBuffer_.readable ≠ [] →
      ∃ k₁, w₁.conns c = some k₁ ∧ k₁.outputBuffer_.readable ≠ [] ∧
        k₁.log.shutdownWrites = k.log.shutdownWrites ∧
        ((k.state_ = .kDisconnected ∧ 0 < k.log.shutdownWrites) ∨
        ∀ ls' w₂ k₂, reactor.Run w₁ ls' w₂ → w₂.conns c = some k₂ → k₂.Serving →
          (k₂.outputBuffer_.readable ≠ [] ∧ k₂.log.shutdownWrites = k.log.shutdownWrites) ∨
          ∃ pre ℓ left write post v kv v' kv', ls' = pre ++ .handleEventWrite ℓ left write :: post ∧
            reactor.Run w₁ pre v ∧ v.conns c = some kv ∧ kv.outputBuffer_.readable ≠ [] ∧
            kv.log.shutdownWrites = k.log.shutdownWrites ∧
            reactor.Step v (.handleEventWrite ℓ left write) v' ∧ v'.conns c = some kv' ∧
            kv'.outputBuffer_.readable = [] ∧
            kv'.log.shutdownWrites = k.log.shutdownWrites + 1 ∧ reactor.Run v' post w₂) := by
  have hsettled := reachable_watched hrun c k hk hup.notClosed hup.notDestroyed
  refine ⟨hsettled.writing, ?_, ?_⟩
  · intro l w' k' hstep hk' hissued
    exact Settled.issued hsettled (reachable_sound hrun) hk hstep hk' hissued
  · intro l w₁ hstep hshut hpending
    obtain ⟨k₁, hk₁, hpending₁, hsame, hnext⟩ := hshut.holds hk hup hsettled hpending hstep
    refine ⟨k₁, hk₁, hpending₁, hsame, hnext.imp id ?_⟩
    intro hheld ls' w₂ k₂ hrest hk₂ hup₂
    exact hheld.run (hrun.append (.cons hstep (.nil w₁))) hrest hk₂ hup₂

/-- `shutdown()` with one byte pending. -/
theorem halfClose_waits_shutdown : ∃ ls w k w₁ k₁,
    reactor.Run (World.init {} {}) ls w ∧ w.conns 0 = some k ∧ k.channel_.isWriting = true ∧
    reactor.Step w (.shutdown (some 0) 0) w₁ ∧ w₁.conns 0 = some k₁ ∧
    k₁.outputBuffer_.readable ≠ [] ∧ k₁.log.shutdownWrites = 0 := by
  have hrun : ∃ w k w₁,
      reactor.Run (World.init {} {}) [.poll 0 [], .accept 7, .send (some 0) 0 [1, 2] (.wrote 1)] w ∧
      w.conns 0 = some k ∧ k.Serving ∧ k.loop_ = 0 ∧ k.channel_.isWriting = true ∧
      k.log.shutdownWrites = 0 ∧ reactor.Step w (.shutdown (some 0) 0) w₁ := by
    refine ⟨_, _, _, .cons ⟨?_, rfl⟩ (.cons ⟨?_, rfl⟩ (.cons ⟨?_, rfl⟩ (.nil _))), rfl,
      ⟨by decide, rfl, rfl⟩, rfl, rfl, rfl, ⟨?_, rfl⟩⟩
    · exact ⟨rfl, not_busy rfl rfl, .nil, by simp⟩
    · exact ⟨rfl, ⟨_, rfl⟩, not_busy rfl rfl, fun _ _ h => by cases h⟩
    · exact ⟨fun _ _ _ h => (by cases h), fun h => (by cases h), Nat.le_succ 1⟩
    · exact ⟨fun _ _ _ h => (by cases h), fun h => by cases h⟩
  obtain ⟨w, k, w₁, hrun, hk, hup, hloop, hwriting, hnone, hshut⟩ := hrun
  obtain ⟨hiff, -, hshutdown⟩ := halfClose_waits hrun hk hup
  obtain ⟨k₁, hk₁, hpending₁, hsame, -⟩ :=
    hshutdown _ w₁ hshut ⟨rfl, .inl (by rw [hloop])⟩ (hiff.mp hwriting)
  exact ⟨_, w, k, w₁, k₁, hrun, hk, hwriting, hshut, hk₁, hpending₁, hsame.trans hnone⟩

end Ham.Net
