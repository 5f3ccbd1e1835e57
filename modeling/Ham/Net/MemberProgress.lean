import Ham.Net.ActionSpec
import Ham.Net.OutputStream
import Ham.Net.Registration

/-!
# When a member function of a connection returns

On the thread of its loop, with a channel that the epoller holds (`Ready`),
every member function returns, and leaves a connection of which the same is
true and the entries of other descriptors as they are (`Served`). What is to be
known besides is what `destoryConnection` finds (`Removable`), and that `write`
takes no more than it is offered (`Action.Fits`). `ConnectionSpec` says what a
function that returns has done; this is the other half.
-/

namespace Ham.Net

namespace Epoller

theorem Frame.refl (fd : Fd) (p : Epoller) : Frame fd p p := fun _ _ => ⟨rfl, rfl⟩

theorem Frame.trans {fd : Fd} {p p' p'' : Epoller} (h : Frame fd p p') (h' : Frame fd p' p'') :
    Frame fd p p'' := fun fd' hne =>
  ⟨(h' fd' hne).1.trans (h fd' hne).1, (h' fd' hne).2.trans (h fd' hne).2⟩

end Epoller

namespace ConnRun

variable {x y z : ConnRun}

/-- The connection is on its loop's thread, and its channel is held. -/
structure Ready (x : ConnRun) : Prop where
  inLoop : x.isInLoopThread = true
  holds : x.epoller.Holds x.conn.channel_

/-- What a member function leaves. -/
structure Served (x y : ConnRun) : Prop extends Ready y where
  fd : y.conn.channel_.fd_ = x.conn.channel_.fd_
  frame : Epoller.Frame x.conn.channel_.fd_ x.epoller y.epoller

/-- The function returns. -/
def Returns (x : ConnRun) (r : Except Fault ConnRun) : Prop := ∃ y, r = .ok y ∧ Served x y

theorem Served.trans (h : Served x y) (h' : Served y z) : Served x z where
  toReady := h'.toReady
  fd := h'.fd.trans h.fd
  frame := h.frame.trans (h.fd ▸ h'.frame)

/-- A change that leaves the channel and its epoller alone. -/
theorem Ready.served (h : Ready x) (hthread : y.thread = x.thread)
    (hloop : y.conn.loop_ = x.conn.loop_) (hepoller : y.epoller = x.epoller)
    (hchannel : y.conn.channel_ = x.conn.channel_) : Served x y where
  inLoop := by rw [isInLoopThread, hthread, hloop]; exact h.inLoop
  holds := by rw [hepoller, hchannel]; exact h.holds
  fd := by rw [hchannel]
  frame := hepoller ▸ .refl _ _

/-- One function behind another. -/
theorem Served.returns {r : Except Fault ConnRun} (h : Served x y) (hr : Returns y r) :
    Returns x r := by
  obtain ⟨z, hz, hserved⟩ := hr
  exact ⟨z, hz, h.trans hserved⟩

/-! ## The channel -/

/-- An operation of the channel, on a held channel. -/
theorem Ready.onChannel (h : Ready x) (op : ChannelOp)
    (hremove : op = .remove →
      x.conn.channel_.isNoneEvent = true ∧ x.conn.channel_.status_ ≠ .kNew) :
    ∃ y, (x.onChannel fun ch p => op.run ch p) = .ok y ∧ Served x y ∧
      y.conn.channel_ = op.after x.conn.channel_ := by
  obtain ⟨p, hrun, hholds, hframe, -⟩ := op.run_spec h.holds hremove
  refine ⟨{ x with epoller := p, conn := { x.conn with channel_ := op.after x.conn.channel_ } }, ?_,
    ⟨⟨h.inLoop, hholds⟩, op.after_fd _, hframe⟩, rfl⟩
  simp only [ConnRun.onChannel, hrun]
  rfl

/-! ## The beginning and the end -/

theorem Ready.establishConnection (h : Ready x) : Returns x x.establishConnection := by
  have hstate : Served x (x.setState .kConnected) := h.served rfl rfl rfl rfl
  obtain ⟨y, hy, hserved, -⟩ := hstate.onChannel .enableReading (by simp)
  have hy : (x.setState .kConnected).onChannel Channel.enableReading = .ok y := hy
  unfold ConnRun.establishConnection
  rw [assertInLoopThread_ok h.inLoop, ok_bind, hy, ok_bind]
  exact ⟨_, rfl, (hstate.trans hserved).trans (hserved.served rfl rfl rfl rfl)⟩

theorem Ready.handleClose (h : Ready x) : Returns x x.handleClose := by
  have hstate : Served x (x.setState .kDisconnected) := h.served rfl rfl rfl rfl
  obtain ⟨y, hy, hserved, -⟩ := hstate.onChannel .disableAll (by simp)
  have hy : (x.setState .kDisconnected).onChannel Channel.disableAll = .ok y := hy
  unfold ConnRun.handleClose
  rw [assertInLoopThread_ok h.inLoop, ok_bind, hy, ok_bind]
  exact ⟨_, rfl, (hstate.trans hserved).trans (hserved.served rfl rfl rfl rfl)⟩

/-- `destoryConnection` finds an interest to clear, or none and a registered
channel. -/
def Removable (x : ConnRun) : Prop :=
  x.conn.state_ = .kConnected ∨
  (x.conn.channel_.isNoneEvent = true ∧ x.conn.channel_.status_ ≠ .kNew)

theorem Ready.stopIfConnected (h : Ready x) (hremovable : x.Removable) :
    ∃ y, x.stopIfConnected = .ok y ∧ Served x y ∧
      y.conn.channel_.isNoneEvent = true ∧ y.conn.channel_.status_ ≠ .kNew := by
  unfold ConnRun.stopIfConnected
  split
  · have hstate : Served x (x.setState .kDisconnected) := h.served rfl rfl rfl rfl
    obtain ⟨y, hy, hserved, hchannel⟩ := hstate.onChannel .disableAll (by simp)
    have hy : (x.setState .kDisconnected).onChannel Channel.disableAll = .ok y := hy
    rw [hy, ok_bind]
    refine ⟨_, rfl, (hstate.trans hserved).trans (hserved.served rfl rfl rfl rfl), ?_⟩
    show y.conn.channel_.isNoneEvent = true ∧ y.conn.channel_.status_ ≠ .kNew
    rw [hchannel]
    refine ⟨rfl, ?_⟩
    show Epoller.nextStatus _ ≠ _
    unfold Epoller.nextStatus
    split <;> decide
  · rename_i hstate
    exact ⟨x, rfl, h.served rfl rfl rfl rfl, hremovable.resolve_left hstate⟩

theorem Ready.destoryConnection (h : Ready x) (hremovable : x.Removable) :
    Returns x x.destoryConnection := by
  obtain ⟨y, hy, hstopped, hnone⟩ := h.stopIfConnected hremovable
  obtain ⟨z, hz, hremoved, -⟩ := hstopped.onChannel .remove fun _ => hnone
  have hz : (y.onChannel fun ch p => p.removeChannel ch) = .ok z := hz
  unfold ConnRun.destoryConnection
  rw [assertInLoopThread_ok h.inLoop, ok_bind, hy, ok_bind, hz, ok_bind]
  exact ⟨_, rfl, (hstopped.trans hremoved).trans (hremoved.served rfl rfl rfl rfl)⟩

theorem Ready.shutdownInLoop (h : Ready x) : Returns x x.shutdownInLoop := by
  unfold ConnRun.shutdownInLoop
  rw [assertInLoopThread_ok h.inLoop, ok_bind]
  split
  · exact ⟨_, rfl, h.served rfl rfl rfl rfl⟩
  · exact ⟨_, rfl, h.served rfl rfl rfl rfl⟩

theorem Ready.forceCloseInLoop (h : Ready x) : Returns x x.forceCloseInLoop := by
  unfold ConnRun.forceCloseInLoop
  rw [assertInLoopThread_ok h.inLoop, ok_bind]
  split
  · exact h.handleClose
  · exact ⟨_, rfl, h.served rfl rfl rfl rfl⟩

/-! ## Input and output -/

theorem Ready.handleRead (h : Ready x) (read : ReadResult) : Returns x (x.handleRead read) := by
  unfold ConnRun.handleRead
  rw [assertInLoopThread_ok h.inLoop, ok_bind]
  cases read with
  | data bytes => exact ⟨_, rfl, h.served rfl rfl rfl rfl⟩
  | eof => exact h.handleClose
  | failed => exact ⟨x, rfl, h.served rfl rfl rfl rfl⟩

/-- The end of `handleWrite`, when the buffer is empty. -/
theorem Ready.drained (h : Ready x) : Returns x (do
    let x ← x.onChannel Channel.disableWriting
    let x := x.queueWriteComplete
    if x.conn.state_ = .kDisconnecting then x.shutdownInLoop else pure x) := by
  obtain ⟨y, hy, hserved, -⟩ := h.onChannel .disableWriting (by simp)
  have hy : x.onChannel Channel.disableWriting = .ok y := hy
  have hqueue : Served y y.queueWriteComplete := hserved.served (by simp) (by simp) (by simp)
    (by simp)
  rw [hy, ok_bind]
  refine (hserved.trans hqueue).returns ?_
  dsimp only
  split
  · exact hqueue.shutdownInLoop
  · exact ⟨_, rfl, hqueue.served rfl rfl rfl rfl⟩

theorem Ready.handleWrite (h : Ready x) {write : WriteResult}
    (hwithin : write.Within x.conn.outputBuffer_.readable.length) :
    Returns x (x.handleWrite write) := by
  unfold ConnRun.handleWrite
  rw [assertInLoopThread_ok h.inLoop, ok_bind]
  have hsame : Returns x (.ok x) := ⟨x, rfl, h.served rfl rfl rfl rfl⟩
  split
  · cases write with
    | failed errno => exact hsame
    | wrote n =>
        dsimp only
        split
        · obtain ⟨out, hret, -⟩ := x.conn.outputBuffer_.retrieve_spec hwithin
          have hret : (x.accept x.conn.outputBuffer_.readable n).conn.outputBuffer_.retrieve n =
              .ok out := hret
          rw [hret, ok_bind]
          -- what the kernel took is off the buffer
          generalize hz : ({ x.accept x.conn.outputBuffer_.readable n with conn :=
            { (x.accept x.conn.outputBuffer_.readable n).conn with
              outputBuffer_ := out } } : ConnRun) = z
          have hserved : Served x z := by
            subst hz
            exact h.served rfl rfl rfl rfl
          refine hserved.returns ?_
          split
          · exact hserved.drained
          · exact ⟨z, rfl, hserved.served rfl rfl rfl rfl⟩
        · exact hsame
  · exact hsame

theorem Ready.bufferRest (h : Ready x) (data : Bytes) (nWrote remaining : Nat) :
    Returns x (x.bufferRest data nWrote remaining) := by
  -- the high water mark only adds an effect
  have hmark : ∀ y : ConnRun, Served x y → Returns x (
      if y.conn.channel_.isWriting then
        pure { y with conn := { y.conn with
          outputBuffer_ := y.conn.outputBuffer_.append ((data.drop nWrote).take remaining) } }
      else
        ConnRun.onChannel { y with conn := { y.conn with
          outputBuffer_ := y.conn.outputBuffer_.append ((data.drop nWrote).take remaining) } }
          Channel.enableWriting) := by
    intro y hserved
    have hput : Served y { y with conn := { y.conn with
        outputBuffer_ := y.conn.outputBuffer_.append ((data.drop nWrote).take remaining) } } :=
      hserved.served rfl rfl rfl rfl
    refine (hserved.trans hput).returns ?_
    split
    · exact ⟨_, rfl, hput.served rfl rfl rfl rfl⟩
    · obtain ⟨z, hz, hserved', -⟩ := hput.onChannel .enableWriting (by simp)
      exact ⟨z, hz, hserved'⟩
  simp only [ConnRun.bufferRest]
  split
  · exact hmark _ (h.served rfl rfl rfl rfl)
  · exact hmark x (h.served rfl rfl rfl rfl)

theorem Ready.directWrite (h : Ready x) (data : Bytes) (write : WriteResult) :
    Served x (x.directWrite data write).1 := by
  cases write with
  | failed errno => exact h.served rfl rfl rfl rfl
  | wrote n =>
      unfold ConnRun.directWrite
      dsimp only
      split
      · exact h.served (by rw [queueWriteComplete_thread]; rfl)
          (by rw [queueWriteComplete_conn]; rfl) (by rw [queueWriteComplete_epoller]; rfl)
          (by rw [queueWriteComplete_conn]; rfl)
      · exact h.served rfl rfl rfl rfl

theorem Ready.sendInLoop (h : Ready x) (data : Bytes) (write : WriteResult) :
    Returns x (x.sendInLoop data write) := by
  unfold ConnRun.sendInLoop
  rw [assertInLoopThread_ok h.inLoop, ok_bind]
  split
  · dsimp only
    rw [assert_pos (Nat.sub_le _ _), ok_bind]
    have hdirect := h.directWrite data write
    split
    · exact hdirect.returns (hdirect.bufferRest data _ _)
    · exact ⟨_, rfl, hdirect⟩
  · exact ⟨x, rfl, h.served rfl rfl rfl rfl⟩

/-! ## The interface of the user, and events -/

theorem Ready.send (h : Ready x) (msg : Bytes) (write : WriteResult) :
    Returns x (x.send msg write) := by
  unfold ConnRun.send
  rw [if_pos h.inLoop]
  split
  · exact h.sendInLoop msg write
  · exact ⟨x, rfl, h.served rfl rfl rfl rfl⟩

theorem Ready.shutdown (h : Ready x) : Returns x x.shutdown := by
  unfold ConnRun.shutdown
  rw [if_pos h.inLoop]
  split
  · have hstate : Served x (x.setState .kDisconnecting) := h.served rfl rfl rfl rfl
    exact hstate.returns hstate.shutdownInLoop
  · exact ⟨x, rfl, h.served rfl rfl rfl rfl⟩

theorem Ready.forceClose (h : Ready x) : Returns x x.forceClose := by
  unfold ConnRun.forceClose
  rw [if_pos h.inLoop]
  split
  · exact ⟨_, rfl, h.served rfl rfl rfl rfl⟩
  · exact ⟨x, rfl, h.served rfl rfl rfl rfl⟩

theorem Ready.handleEvent (h : Ready x) (revents : Events) (read : ReadResult) :
    Returns x (x.handleEvent revents read) := by
  have hhangup : Returns x (x.hangupEvent revents) := by
    unfold ConnRun.hangupEvent
    split
    · exact h.handleClose
    · exact ⟨x, rfl, h.served rfl rfl rfl rfl⟩
  obtain ⟨y, hy, hserved⟩ := hhangup
  unfold ConnRun.handleEvent
  rw [hy, ok_bind]
  refine hserved.returns ?_
  unfold ConnRun.readEvent
  split
  · exact hserved.handleRead read
  · exact ⟨y, rfl, hserved.served rfl rfl rfl rfl⟩

end ConnRun

/-! ## Actions -/

/-- `write` takes no more than the action offers it. -/
def Action.Fits (k : TcpConnection) : Action → Prop
  | .handleEventWrite _ _ write => write.Within k.outputBuffer_.readable.length
  | _ => True

/-- On the connection's own thread every action returns; `runEstablish` and
`removeConnectionInLoop` return on any. -/
theorem Action.run_returns {a : Action} {x : ConnRun} (hholds : x.epoller.Holds x.conn.channel_)
    (hloop : a ≠ .removeConnectionInLoop → a ≠ .runEstablish → x.isInLoopThread = true)
    (hfits : a.Fits x.conn) (hremovable : a = .destoryConnection → x.Removable) :
    ∃ y, a.run x = .ok y ∧ y.epoller.Holds y.conn.channel_ ∧
      Epoller.Frame x.conn.channel_.fd_ x.epoller y.epoller := by
  -- a member function, or a change that stays off the channel
  have hreturns : ∀ r, (x.Ready → x.Returns r) → x.isInLoopThread = true → ∃ y, r = .ok y ∧
      y.epoller.Holds y.conn.channel_ ∧
      Epoller.Frame x.conn.channel_.fd_ x.epoller y.epoller := by
    intro r hr hin
    obtain ⟨y, hy, hserved⟩ := hr ⟨hin, hholds⟩
    exact ⟨y, hy, hserved.holds, hserved.frame⟩
  have hquiet : ∀ y : ConnRun, y.epoller = x.epoller → y.conn.channel_ = x.conn.channel_ →
      y.epoller.Holds y.conn.channel_ ∧
      Epoller.Frame x.conn.channel_.fd_ x.epoller y.epoller := by
    intro y hepoller hchannel
    rw [hepoller, hchannel]
    exact ⟨hholds, .refl _ _⟩
  cases a with
  | establishConnection => exact hreturns _ (·.establishConnection) (hloop (by simp) (by simp))
  | runEstablish =>
      simp only [Action.run]
      split
      · rename_i hin
        exact hreturns _ (·.establishConnection) hin
      · exact ⟨_, rfl, hquiet _ rfl rfl⟩
  | destoryConnection =>
      exact hreturns _ (·.destoryConnection (hremovable rfl)) (hloop (by simp) (by simp))
  | handleEvent revents read =>
      exact hreturns _ (·.handleEvent revents read) (hloop (by simp) (by simp))
  | handleEventWrite revents left write =>
      refine hreturns _ (fun h => ?_) (hloop (by simp) (by simp))
      simp only [Action.run, ConnRun.handleEventWrite]
      have hinput : x.Served { x with conn := { x.conn with
          inputBuffer_ := left.getD x.conn.inputBuffer_ } } := h.served rfl rfl rfl rfl
      split
      · exact hinput.returns (hinput.handleWrite hfits)
      · exact ⟨_, rfl, hinput⟩
  | sendInLoop msg write => exact hreturns _ (·.sendInLoop msg write) (hloop (by simp) (by simp))
  | shutdownInLoop => exact hreturns _ (·.shutdownInLoop) (hloop (by simp) (by simp))
  | forceCloseInLoop => exact hreturns _ (·.forceCloseInLoop) (hloop (by simp) (by simp))
  | removeConnectionInLoop => exact ⟨_, rfl, hquiet _ rfl rfl⟩
  | send msg write => exact hreturns _ (·.send msg write) (hloop (by simp) (by simp))
  | shutdown => exact hreturns _ (·.shutdown) (hloop (by simp) (by simp))
  | forceClose => exact hreturns _ (·.forceClose) (hloop (by simp) (by simp))
  | store state => exact ⟨_, rfl, hquiet _ rfl rfl⟩
  | detach unique =>
      refine hreturns _ (fun h => ?_) (hloop (by simp) (by simp))
      have hdetached : x.Served { x with conn := { x.conn with closeCallback_ := .detail } } :=
        h.served rfl rfl rfl rfl
      simp only [Action.run]
      split
      · exact hdetached.returns hdetached.forceClose
      · exact ⟨_, rfl, hdetached⟩

end Ham.Net
