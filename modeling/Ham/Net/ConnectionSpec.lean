import Ham.Net.TcpConnection

/-!
# What the member functions of a connection do

For every member function that returns: `Kept`, what none of them touches and
how far the effects it asks for go; and one lemma that says what it did to
the state, the channel and the log. Later proofs use these and never open a
member function again.
-/

namespace Ham.Net

/-- The effects a member function of connection `c` can ask for; `inLoop` says
whether it runs on the connection's own loop thread. -/
def Effect.About (c : ConnId) (inLoop : Bool) : Effect → Prop
  | .queueInLoop (.forceCloseInLoop d) => d = c
  | .queueInLoop (.writeCompleteCallback d) => d = c
  | .queueInLoop (.highWaterMarkCallback d _) => d = c
  | .queueInLoop (.sendInLoop d _) => d = c ∧ inLoop = false
  | .queueInLoop _ => False
  | .storeThenQueue state (.shutdownInLoop d) => state = .kDisconnecting ∧ d = c ∧ inLoop = false
  | .storeThenQueue state (.forceCloseInLoop d) =>
      state = .kDisconnecting ∧ d = c ∧ inLoop = false
  | .storeThenQueue _ _ => False
  | .closeCallback => inLoop = true
  | .removeConnectionInLoop => False

namespace ConnRun

variable {x y z : ConnRun}

/-- The channel and the epoller agree: a channel that is not new is in the
map, and the kernel's set knows it at most under its own descriptor, while it
is added. -/
structure Synced (x : ConnRun) : Prop where
  map : x.conn.channel_.status_ ≠ .kNew →
    x.epoller.channelMap_ x.conn.channel_.fd_ = some x.conn.channel_.self
  kernel : ∀ fd e, x.epoller.kernel fd = some (e, x.conn.channel_.self) →
    fd = x.conn.channel_.fd_ ∧ x.conn.channel_.status_ = .kAdded

/-- What nothing that runs on a connection touches: who the connection is, the
entries of the other channels, and the agreement of its own. -/
structure Framed (x y : ConnRun) : Prop where
  thread : y.thread = x.thread
  self : y.conn.self = x.conn.self
  loop : y.conn.loop_ = x.conn.loop_
  name : y.conn.name_ = x.conn.name_
  channelSelf : y.conn.channel_.self = x.conn.channel_.self
  fd : y.conn.channel_.fd_ = x.conn.channel_.fd_
  map : ∀ fd d, d ≠ x.conn.channel_.self →
    (y.epoller.channelMap_ fd = some d ↔ x.epoller.channelMap_ fd = some d)
  kernel : ∀ fd e d, d ≠ x.conn.channel_.self →
    y.epoller.kernel fd = some (e, d) → x.epoller.kernel fd = some (e, d)
  synced : Synced x → Synced y

/-- What every member function leaves alone, and how far its effects go. -/
structure Kept (x y : ConnRun) : Prop extends Framed x y where
  closeCb : y.conn.closeCallback_ = x.conn.closeCallback_
  effects : ∃ es, y.effects = x.effects ++ es ∧
    (∀ e ∈ es, e.About x.conn.self x.isInLoopThread) ∧
    y.conn.log.closeCalls = x.conn.log.closeCalls + es.count .closeCallback

theorem Kept.isInLoopThread (h : Kept x y) : y.isInLoopThread = x.isInLoopThread := by
  unfold ConnRun.isInLoopThread
  rw [h.thread, h.loop]

theorem Kept.refl (x : ConnRun) : Kept x x where
  thread := rfl
  self := rfl
  loop := rfl
  name := rfl
  closeCb := rfl
  channelSelf := rfl
  fd := rfl
  map := fun _ _ _ => Iff.rfl
  kernel := fun _ _ _ _ h => h
  synced := id
  effects := ⟨[], by simp⟩

theorem Kept.trans (h : Kept x y) (h' : Kept y z) : Kept x z where
  thread := h'.thread.trans h.thread
  self := h'.self.trans h.self
  loop := h'.loop.trans h.loop
  name := h'.name.trans h.name
  closeCb := h'.closeCb.trans h.closeCb
  channelSelf := h'.channelSelf.trans h.channelSelf
  fd := h'.fd.trans h.fd
  map := fun fd d hd => (h'.map fd d (h.channelSelf ▸ hd)).trans (h.map fd d hd)
  kernel := fun fd e d hd hk => h.kernel fd e d hd (h'.kernel fd e d (h.channelSelf ▸ hd) hk)
  synced := h'.synced ∘ h.synced
  effects := by
    obtain ⟨es, hes, habout, hcalls⟩ := h.effects
    obtain ⟨es', hes', habout', hcalls'⟩ := h'.effects
    refine ⟨es ++ es', by rw [hes', hes, List.append_assoc], ?_, ?_⟩
    · intro e he
      rcases List.mem_append.mp he with he | he
      · exact habout e he
      · rw [← h.self, ← h.isInLoopThread]
        exact habout' e he
    · rw [hcalls', hcalls, List.count_append, Nat.add_assoc]

/-- A change that stays inside the connection and its log. -/
theorem Kept.of_conn {k : TcpConnection} (hself : k.self = x.conn.self)
    (hloop : k.loop_ = x.conn.loop_) (hname : k.name_ = x.conn.name_)
    (hcloseCb : k.closeCallback_ = x.conn.closeCallback_)
    (hchannel : k.channel_ = x.conn.channel_)
    (hcalls : k.log.closeCalls = x.conn.log.closeCalls) : Kept x { x with conn := k } where
  thread := rfl
  self := hself
  loop := hloop
  name := hname
  closeCb := hcloseCb
  channelSelf := congrArg Channel.self hchannel
  fd := congrArg Channel.fd_ hchannel
  map := fun _ _ _ => Iff.rfl
  kernel := fun _ _ _ _ h => h
  synced := fun h => ⟨by simpa only [hchannel] using h.map, by simpa only [hchannel] using h.kernel⟩
  effects := ⟨[], by simp [hcalls]⟩

theorem Kept.setState (x : ConnRun) (state : State) : Kept x (x.setState state) :=
  .of_conn rfl rfl rfl rfl rfl rfl

theorem Kept.onLog (x : ConnRun) (f : ConnLog → ConnLog)
    (h : (f x.conn.log).closeCalls = x.conn.log.closeCalls) : Kept x (x.onLog f) :=
  .of_conn rfl rfl rfl rfl rfl h

theorem Kept.accept (x : ConnRun) (data : Bytes) (n : Nat) : Kept x (x.accept data n) :=
  .onLog x _ rfl

theorem Kept.withOutput (x : ConnRun) (b : Buffer) :
    Kept x { x with conn := { x.conn with outputBuffer_ := b } } :=
  .of_conn rfl rfl rfl rfl rfl rfl

theorem Kept.emit (x : ConnRun) {e : Effect} (he : e.About x.conn.self x.isInLoopThread)
    (hne : e ≠ .closeCallback) : Kept x (x.emit e) where
  thread := rfl
  self := rfl
  loop := rfl
  name := rfl
  closeCb := rfl
  channelSelf := rfl
  fd := rfl
  map := fun _ _ _ => Iff.rfl
  kernel := fun _ _ _ _ h => h
  synced := fun h => ⟨h.map, h.kernel⟩
  effects := ⟨[e], rfl, by simpa using he, by simp [ConnRun.emit, hne]⟩

/-- `closeCallback_`, counted and asked for. -/
theorem Kept.callClose (x : ConnRun) (hloop : x.isInLoopThread = true) :
    Kept x ((x.onLog fun log => { log with closeCalls := log.closeCalls + 1 }).emit
      .closeCallback) where
  thread := rfl
  self := rfl
  loop := rfl
  name := rfl
  closeCb := rfl
  channelSelf := rfl
  fd := rfl
  map := fun _ _ _ => Iff.rfl
  kernel := fun _ _ _ _ h => h
  synced := fun h => ⟨h.map, h.kernel⟩
  effects := ⟨[.closeCallback], rfl, by simpa [Effect.About] using hloop, rfl⟩

theorem Kept.queueWriteComplete (x : ConnRun) : Kept x x.queueWriteComplete := by
  unfold ConnRun.queueWriteComplete
  split
  · exact .emit x rfl (by simp)
  · exact .refl x

/-! ## The channel -/

/-- An update of the channel by `f`, which changes nothing but its mask. -/
theorem onChannel_update {f : Channel → Channel}
    (hf : ∀ ch, f ch = { ch with event_ := (f ch).event_ })
    (h : x.onChannel (fun ch p => p.updateChannel (f ch)) = .ok y) :
    Kept x y ∧ y.effects = x.effects ∧
    y.conn = { x.conn with
      channel_ := { f x.conn.channel_ with status_ := Epoller.nextStatus (f x.conn.channel_) } } := by
  simp only [onChannel, bind_eq_ok, pure_eq_ok, Except.ok.injEq] at h
  obtain ⟨⟨p, ch⟩, hupdate, rfl⟩ := h
  obtain ⟨rfl, hmap, hkernel, hbefore⟩ := Epoller.updateChannel_ok hupdate
  have hself : (f x.conn.channel_).self = x.conn.channel_.self := by rw [hf]
  have hfd : (f x.conn.channel_).fd_ = x.conn.channel_.fd_ := by rw [hf]
  have hstatus : (f x.conn.channel_).status_ = x.conn.channel_.status_ := by rw [hf]
  rw [hself, hfd] at hmap hkernel hbefore
  refine ⟨⟨⟨rfl, rfl, rfl, rfl, hself, hfd, ?_, ?_, ?_⟩, rfl, [], by simp⟩, rfl, rfl⟩
  · -- nobody else was registered under the descriptor
    intro fd d hd
    show p.channelMap_ fd = some d ↔ _
    rw [hmap]
    by_cases hfd' : fd = x.conn.channel_.fd_
    · subst hfd'
      rw [Function.update_self]
      split at hbefore
      · simp [hbefore, Ne.symm hd]
      · simp [hbefore, Ne.symm hd]
    · rw [Function.update_of_ne hfd']
  · intro fd e d hd
    show p.kernel fd = some (e, d) → _
    rw [hkernel]
    by_cases hfd' : fd = x.conn.channel_.fd_
    · subst hfd'
      rw [Function.update_self]
      split
      · intro h
        cases h
        exact absurd rfl hd
      · intro h
        cases h
    · rw [Function.update_of_ne hfd']
      exact id
  · intro hsync
    refine ⟨fun _ => ?_, ?_⟩
    · show p.channelMap_ (f x.conn.channel_).fd_ = some (f x.conn.channel_).self
      rw [hmap, hself, hfd, Function.update_self]
    · intro fd e
      show p.kernel fd = some (e, (f x.conn.channel_).self) → fd = (f x.conn.channel_).fd_ ∧ _
      rw [hkernel, hself, hfd]
      by_cases hfd' : fd = x.conn.channel_.fd_
      · subst hfd'
        rw [Function.update_self]
        split
        · rename_i hadded
          exact fun _ => ⟨rfl, hadded⟩
        · intro h
          cases h
      · rw [Function.update_of_ne hfd']
        intro h
        exact absurd (hsync.kernel fd e h).1 hfd'

/-- The removal of the channel: it had no interest left and was known. -/
theorem onChannel_remove (h : x.onChannel (fun ch p => p.removeChannel ch) = .ok y) :
    Kept x y ∧ y.effects = x.effects ∧
    y.conn = { x.conn with channel_ := { x.conn.channel_ with status_ := .kNew } } ∧
    x.conn.channel_.isNoneEvent = true ∧ x.epoller.Knows x.conn.channel_ := by
  simp only [onChannel, bind_eq_ok, pure_eq_ok, Except.ok.injEq] at h
  obtain ⟨⟨p, ch⟩, hremove, rfl⟩ := h
  obtain ⟨⟨hnone, hknows⟩, rfl, hmap, hkernel⟩ := Epoller.removeChannel_ok hremove
  refine ⟨⟨⟨rfl, rfl, rfl, rfl, rfl, rfl, ?_, ?_, ?_⟩, rfl, [], by simp⟩, rfl, rfl, hnone, hknows⟩
  · intro fd d hd
    show p.channelMap_ fd = some d ↔ _
    rw [hmap]
    by_cases hfd : fd = x.conn.channel_.fd_
    · subst hfd
      rw [Function.update_self, hknows.1]
      simp [Ne.symm hd]
    · rw [Function.update_of_ne hfd]
  · intro fd e d hd
    show p.kernel fd = some (e, d) → _
    rw [hkernel]
    split
    · by_cases hfd : fd = x.conn.channel_.fd_
      · subst hfd
        rw [Function.update_self]
        intro h
        cases h
      · rw [Function.update_of_ne hfd]
        exact id
    · exact id
  · intro hsync
    refine ⟨fun hnew => absurd rfl hnew, ?_⟩
    intro fd e
    show p.kernel fd = some (e, x.conn.channel_.self) → _
    rw [hkernel]
    split
    · by_cases hfd : fd = x.conn.channel_.fd_
      · subst hfd
        rw [Function.update_self]
        intro h
        cases h
      · rw [Function.update_of_ne hfd]
        intro h
        exact absurd (hsync.kernel fd e h).1 hfd
    · rename_i hadded
      intro h
      exact absurd (hsync.kernel fd e h).2 hadded

/-! ## One lemma for each member function -/

theorem assertInLoopThread_eq_ok {u : Unit} :
    x.assertInLoopThread = .ok u ↔ x.isInLoopThread = true := by
  unfold assertInLoopThread
  split <;> simp_all

/-- The channel after `disableAll`. -/
def Disabled (ch : Channel) : Channel :=
  { ch.setNone with status_ := Epoller.nextStatus ch.setNone }

theorem establishConnection_ok (h : x.establishConnection = .ok y) :
    x.isInLoopThread = true ∧ Kept x y ∧ y.effects = x.effects ∧
    y.conn = { x.conn with
      state_ := .kConnected
      channel_ := { x.conn.channel_.setReading with
        status_ := Epoller.nextStatus x.conn.channel_.setReading }
      log := { x.conn.log with connectionCalls := x.conn.log.connectionCalls ++ [true] } } := by
  simp only [establishConnection, bind_eq_ok, assertInLoopThread_eq_ok, pure_eq_ok,
    Except.ok.injEq] at h
  obtain ⟨_, hloop, z, hz, rfl⟩ := h
  obtain ⟨hkept, heffects, hconn⟩ := onChannel_update (f := Channel.setReading) (fun _ => rfl) hz
  refine ⟨hloop, ((Kept.setState x _).trans hkept).trans (.onLog z _ rfl), heffects, ?_⟩
  rw [connectionCallback, onLog, hconn]
  rfl

theorem handleClose_ok (h : x.handleClose = .ok y) :
    x.isInLoopThread = true ∧ Kept x y ∧ y.effects = x.effects ++ [.closeCallback] ∧
    y.conn = { x.conn with
      state_ := .kDisconnected
      channel_ := Disabled x.conn.channel_
      log := { x.conn.log with closeCalls := x.conn.log.closeCalls + 1 } } := by
  simp only [handleClose, bind_eq_ok, assertInLoopThread_eq_ok, pure_eq_ok, Except.ok.injEq] at h
  obtain ⟨_, hloop, z, hz, rfl⟩ := h
  obtain ⟨hkept, heffects, hconn⟩ := onChannel_update (f := Channel.setNone) (fun _ => rfl) hz
  have hkept := (Kept.setState x .kDisconnected).trans hkept
  refine ⟨hloop, hkept.trans (.callClose z (hkept.isInLoopThread.trans hloop)), ?_, ?_⟩
  · show z.effects ++ _ = _
    rw [heffects]
    rfl
  · simp only [emit, onLog, hconn]
    rfl

theorem destoryConnection_ok (h : x.destoryConnection = .ok y) :
    x.isInLoopThread = true ∧ Kept x y ∧ y.effects = x.effects ∧
    (if x.conn.state_ = .kConnected then
      y.conn = { x.conn with
        state_ := .kDisconnected
        channel_ := { x.conn.channel_.setNone with status_ := .kNew }
        log := { x.conn.log with
          connectionCalls := x.conn.log.connectionCalls ++ [false]
          destroyed := true } }
    else
      y.conn = { x.conn with
        channel_ := { x.conn.channel_ with status_ := .kNew }
        log := { x.conn.log with destroyed := true } }) := by
  simp only [destoryConnection, bind_eq_ok, assertInLoopThread_eq_ok, pure_eq_ok,
    Except.ok.injEq] at h
  obtain ⟨_, hloop, z, hz, v, hv, rfl⟩ := h
  obtain ⟨hremove, hreffects, hrconn, -, -⟩ := onChannel_remove hv
  unfold stopIfConnected at hz
  split at hz
  · rename_i hstate
    simp only [bind_eq_ok, pure_eq_ok, Except.ok.injEq] at hz
    obtain ⟨u, hu, rfl⟩ := hz
    obtain ⟨hkept, heffects, hconn⟩ := onChannel_update (f := Channel.setNone) (fun _ => rfl) hu
    refine ⟨hloop, ((((Kept.setState x _).trans hkept).trans (.onLog u _ rfl)).trans hremove).trans
      (.onLog v _ rfl), hreffects.trans heffects, ?_⟩
    rw [if_pos hstate]
    simp only [onLog, hrconn, connectionCallback, hconn]
    rfl
  · rename_i hstate
    cases hz
    refine ⟨hloop, hremove.trans (.onLog v _ rfl), hreffects, ?_⟩
    rw [if_neg hstate]
    simp only [onLog, hrconn]

theorem shutdownInLoop_ok (h : x.shutdownInLoop = .ok y) :
    x.isInLoopThread = true ∧ Kept x y ∧ y.effects = x.effects ∧
    (if x.conn.channel_.isWriting then y.conn = x.conn
    else y.conn = { x.conn with
      state_ := .kDisconnected
      log := { x.conn.log with shutdownWrites := x.conn.log.shutdownWrites + 1 } }) := by
  simp only [shutdownInLoop, bind_eq_ok, assertInLoopThread_eq_ok] at h
  obtain ⟨_, hloop, h⟩ := h
  split at h
  · rename_i hw
    cases h
    exact ⟨hloop, .refl x, rfl, by rw [if_pos hw]⟩
  · rename_i hw
    cases h
    refine ⟨hloop, (Kept.setState x _).trans (.onLog _ _ rfl), rfl, ?_⟩
    rw [if_neg hw]
    rfl

theorem forceCloseInLoop_ok (h : x.forceCloseInLoop = .ok y) :
    x.isInLoopThread = true ∧
    (if x.conn.state_ = .kConnected ∨ x.conn.state_ = .kDisconnecting then
      x.handleClose = .ok y
    else y = x) := by
  simp only [forceCloseInLoop, bind_eq_ok, assertInLoopThread_eq_ok] at h
  obtain ⟨_, hloop, h⟩ := h
  refine ⟨hloop, ?_⟩
  split
  · rename_i hstate
    rwa [if_pos hstate] at h
  · rename_i hstate
    rw [if_neg hstate] at h
    cases h
    rfl

end ConnRun

/-- Two states of a connection with the same calls of its callbacks. -/
structure SameLog (k k' : TcpConnection) : Prop where
  connectionCalls : k'.log.connectionCalls = k.log.connectionCalls
  closeCalls : k'.log.closeCalls = k.log.closeCalls
  destroyed : k'.log.destroyed = k.log.destroyed

/-- Two states of a connection between which nothing has happened to its
life: it may have read and written. -/
structure SameLife (k k' : TcpConnection) : Prop extends SameLog k k' where
  state : k'.state_ = k.state_

theorem SameLog.refl (k : TcpConnection) : SameLog k k := ⟨rfl, rfl, rfl⟩

theorem SameLife.refl (k : TcpConnection) : SameLife k k := ⟨.refl k, rfl⟩

theorem SameLife.trans {k k' k'' : TcpConnection} (h : SameLife k k') (h' : SameLife k' k'') :
    SameLife k k'' :=
  ⟨⟨h'.connectionCalls.trans h.connectionCalls, h'.closeCalls.trans h.closeCalls,
    h'.destroyed.trans h.destroyed⟩, h'.state.trans h.state⟩

/-- The write of a writable event takes all that is pending. -/
def Drains (k : TcpConnection) (write : WriteResult) : Prop :=
  k.channel_.isWriting = true ∧ 0 < k.outputBuffer_.readable.length ∧
    write = .wrote k.outputBuffer_.readable.length

/-- What a writable event leaves when it does not drain the buffer. -/
structure StillPending (k k' : TcpConnection) : Prop where
  shutdownWrites : k'.log.shutdownWrites = k.log.shutdownWrites
  output : k'.outputBuffer_ = k.outputBuffer_ ∨
    (k.channel_.isWriting = true ∧ k'.outputBuffer_.readable ≠ [])

theorem StillPending.refl (k : TcpConnection) : StillPending k k := ⟨rfl, .inl rfl⟩

/-- The direct write of `sendInLoop` leaves bytes behind. -/
def WriteResult.leavesRest (len : Nat) : WriteResult → Bool
  | .wrote n => n < len
  | .failed errno => errno ≠ WriteErrno.ePipe ∧ errno ≠ WriteErrno.eConnReset ∧ 0 < len

/-- `sendInLoop` makes the channel watch for writability. -/
def Rearms (k : TcpConnection) (data : Bytes) (write : WriteResult) : Prop :=
  k.channel_.isWriting = false ∧ k.outputBuffer_.readable = [] ∧
    write.leavesRest data.length = true

/-- The channel after `enableWriting` or `disableWriting`. -/
def Channel.rewired (ch : Channel) (on : Bool) : Channel :=
  { ch.setWriting on with status_ := Epoller.nextStatus (ch.setWriting on) }

namespace ConnRun

variable {x y z : ConnRun}

theorem handleRead_ok {read : ReadResult} (h : x.handleRead read = .ok y) :
    x.isInLoopThread = true ∧
    (if read = .eof then x.handleClose = .ok y
    else Kept x y ∧ y.effects = x.effects ∧ SameLife x.conn y.conn ∧
      y.conn.channel_ = x.conn.channel_ ∧ y.conn.outputBuffer_ = x.conn.outputBuffer_ ∧
      y.conn.log.shutdownWrites = x.conn.log.shutdownWrites) := by
  simp only [handleRead, bind_eq_ok, assertInLoopThread_eq_ok] at h
  obtain ⟨_, hloop, h⟩ := h
  refine ⟨hloop, ?_⟩
  cases read with
  | data bytes =>
      cases h
      exact ⟨.of_conn rfl rfl rfl rfl rfl rfl, rfl, ⟨⟨rfl, rfl, rfl⟩, rfl⟩, rfl, rfl, rfl⟩
  | eof => exact h
  | failed =>
      cases h
      exact ⟨.refl x, rfl, .refl _, rfl, rfl, rfl⟩

/-- The end of `handleWrite` on an empty buffer. -/
theorem drained_ok {u v : ConnRun} (hu : x.onChannel Channel.disableWriting = .ok u)
    (hv : (if u.queueWriteComplete.conn.state_ = .kDisconnecting then
      u.queueWriteComplete.shutdownInLoop else pure u.queueWriteComplete) = .ok v) :
    Kept x v ∧ v.conn.channel_ = x.conn.channel_.rewired false ∧
    SameLog x.conn v.conn ∧
    v.conn.state_ =
      (if x.conn.state_ = .kDisconnecting then .kDisconnected else x.conn.state_) ∧
    v.conn.outputBuffer_ = x.conn.outputBuffer_ ∧
    v.conn.log.shutdownWrites = x.conn.log.shutdownWrites +
      (if x.conn.state_ = .kDisconnecting then 1 else 0) := by
  obtain ⟨hkept, -, hconn⟩ :=
    onChannel_update (f := fun ch => ch.setWriting false) (fun _ => rfl) hu
  have hqueue := hkept.trans (.queueWriteComplete u)
  have hqconn : u.queueWriteComplete.conn = u.conn := by
    unfold ConnRun.queueWriteComplete
    split <;> rfl
  have hstate : u.queueWriteComplete.conn.state_ = x.conn.state_ := by rw [hqconn, hconn]
  split at hv
  · rename_i hdis
    obtain ⟨-, hshut, -, hspec⟩ := shutdownInLoop_ok hv
    have hw : u.queueWriteComplete.conn.channel_.isWriting = false := by
      rw [hqconn, hconn]
      rfl
    rw [hw] at hspec
    simp only [Bool.false_eq_true, if_false] at hspec
    rw [hstate] at hdis
    refine ⟨hqueue.trans hshut, ?_⟩
    rw [hspec, hqconn, hconn, if_pos hdis, if_pos hdis]
    exact ⟨rfl, ⟨rfl, rfl, rfl⟩, rfl, rfl, rfl⟩
  · rename_i hdis
    cases hv
    rw [hstate] at hdis
    rw [if_neg hdis, if_neg hdis, hqconn, hconn]
    exact ⟨hqueue, rfl, ⟨rfl, rfl, rfl⟩, rfl, rfl, rfl⟩

theorem handleWrite_ok {write : WriteResult} (h : x.handleWrite write = .ok y) :
    x.isInLoopThread = true ∧ Kept x y ∧
    ((SameLife x.conn y.conn ∧ y.conn.channel_ = x.conn.channel_ ∧ StillPending x.conn y.conn) ∨
     (Drains x.conn write ∧ y.conn.channel_ = x.conn.channel_.rewired false ∧
      SameLog x.conn y.conn ∧
      y.conn.state_ =
        (if x.conn.state_ = .kDisconnecting then .kDisconnected else x.conn.state_) ∧
      y.conn.outputBuffer_.readable = [] ∧
      y.conn.log.shutdownWrites = x.conn.log.shutdownWrites +
        (if x.conn.state_ = .kDisconnecting then 1 else 0))) := by
  simp only [handleWrite, bind_eq_ok, assertInLoopThread_eq_ok] at h
  obtain ⟨_, hloop, h⟩ := h
  refine ⟨hloop, ?_⟩
  split at h
  · rename_i hw
    split at h
    · rename_i n
      split at h
      · rename_i hn
        simp only [bind_eq_ok] at h
        obtain ⟨out, hout, h⟩ := h
        obtain ⟨hlen, hread⟩ := Buffer.retrieve_ok hout
        have hlen' : n ≤ x.conn.outputBuffer_.readable.length := hlen
        have hread' : out.readable = x.conn.outputBuffer_.readable.drop n := hread
        split at h
        · -- everything is written
          rename_i hzero
          simp only [bind_eq_ok] at h
          obtain ⟨u, hu, hv⟩ := h
          obtain ⟨hkept, hchannel, hlog, hstate, hbuffer, hhalf⟩ := drained_ok hu hv
          have hall : n = x.conn.outputBuffer_.readable.length := by
            rw [← out.length_readable, hread', List.length_drop] at hzero
            omega
          refine ⟨((Kept.accept x _ n).trans (.withOutput _ out)).trans hkept, .inr ?_⟩
          refine ⟨⟨hw, hall ▸ hn, by rw [← hall]⟩, hchannel,
            ⟨hlog.connectionCalls, hlog.closeCalls, hlog.destroyed⟩, hstate, ?_, hhalf⟩
          rw [hbuffer]
          exact List.length_eq_zero_iff.mp (out.length_readable.trans hzero)
        · -- a part is written, and the watch stays on
          rename_i hrest
          cases h
          refine ⟨(Kept.accept x _ n).trans (.withOutput _ out),
            .inl ⟨⟨⟨rfl, rfl, rfl⟩, rfl⟩, rfl, rfl, .inr ⟨hw, fun hnil => hrest ?_⟩⟩⟩
          rw [← out.length_readable, hnil]
          rfl
      · cases h
        exact ⟨.refl x, .inl ⟨.refl _, rfl, .refl _⟩⟩
    -- a failed `write` is only logged, and so is a writable socket nobody waits for
    · cases h
      exact ⟨.refl x, .inl ⟨.refl _, rfl, .refl _⟩⟩
  · cases h
    exact ⟨.refl x, .inl ⟨.refl _, rfl, .refl _⟩⟩

theorem bufferRest_ok {data : Bytes} {n remaining : Nat}
    (h : x.bufferRest data n remaining = .ok y) (hw : x.conn.channel_.isWriting = false) :
    Kept x y ∧ y.conn = { x.conn with
      outputBuffer_ := x.conn.outputBuffer_.append ((data.drop n).take remaining)
      channel_ := x.conn.channel_.rewired true } := by
  -- the high water mark only adds an effect
  have hmark : ∀ u : ConnRun, Kept x u → u.conn = x.conn →
      (if u.conn.channel_.isWriting then
        pure { u with conn := { u.conn with
          outputBuffer_ := u.conn.outputBuffer_.append ((data.drop n).take remaining) } }
      else
        ConnRun.onChannel { u with conn := { u.conn with
          outputBuffer_ := u.conn.outputBuffer_.append ((data.drop n).take remaining) } }
          Channel.enableWriting) = .ok y →
      Kept x y ∧ y.conn = { x.conn with
        outputBuffer_ := x.conn.outputBuffer_.append ((data.drop n).take remaining)
        channel_ := x.conn.channel_.rewired true } := by
    intro u hu huconn hy
    rw [if_neg (by rw [huconn, hw]; decide)] at hy
    obtain ⟨hkept, -, hconn⟩ :=
      onChannel_update (f := fun ch => ch.setWriting true) (fun _ => rfl) hy
    refine ⟨(hu.trans (.withOutput u _)).trans hkept, ?_⟩
    rw [hconn, huconn]
    rfl
  simp only [bufferRest] at h
  split at h
  · exact hmark _ (.emit x (e := .queueInLoop (.highWaterMarkCallback _ _)) rfl (by simp)) rfl h
  · exact hmark x (.refl x) rfl h

theorem directWrite_spec (data : Bytes) (write : WriteResult) :
    Kept x (x.directWrite data write).1 ∧ SameLife x.conn (x.directWrite data write).1.conn ∧
    (x.directWrite data write).1.conn.channel_ = x.conn.channel_ ∧
    (x.directWrite data write).1.conn.outputBuffer_ = x.conn.outputBuffer_ ∧
    (x.directWrite data write).1.conn.log.shutdownWrites = x.conn.log.shutdownWrites ∧
    (((x.directWrite data write).2.2 = false ∧
      0 < data.length - (x.directWrite data write).2.1) ↔ write.leavesRest data.length = true) := by
  cases write with
  | wrote n =>
      have hrest : (false = false ∧ 0 < data.length - n) ↔ decide (n < data.length) = true := by
        simp
      by_cases hall : data.length - n = 0
      · have hfst : (x.directWrite data (.wrote n)).1 = (x.accept data n).queueWriteComplete :=
          if_pos hall
        have hqconn : (x.accept data n).queueWriteComplete.conn = (x.accept data n).conn := by
          unfold ConnRun.queueWriteComplete
          split <;> rfl
        rw [hfst, hqconn]
        exact ⟨(Kept.accept x data n).trans (.queueWriteComplete _), ⟨⟨rfl, rfl, rfl⟩, rfl⟩, rfl,
          rfl, rfl, hrest⟩
      · have hfst : (x.directWrite data (.wrote n)).1 = x.accept data n := if_neg hall
        rw [hfst]
        exact ⟨Kept.accept x data n, ⟨⟨rfl, rfl, rfl⟩, rfl⟩, rfl, rfl, rfl, hrest⟩
  | failed errno =>
      refine ⟨.refl x, .refl _, rfl, rfl, rfl, ?_⟩
      simp only [directWrite, WriteResult.leavesRest]
      simp [and_assoc]

theorem sendInLoop_ok {data : Bytes} {write : WriteResult} (h : x.sendInLoop data write = .ok y) :
    x.isInLoopThread = true ∧ Kept x y ∧ SameLife x.conn y.conn ∧
    y.conn.log.shutdownWrites = x.conn.log.shutdownWrites ∧
    ((y.conn.channel_ = x.conn.channel_ ∧ y.conn.outputBuffer_ = x.conn.outputBuffer_) ∨
     (Rearms x.conn data write ∧ y.conn.channel_ = x.conn.channel_.rewired true ∧
      y.conn.outputBuffer_.readable ≠ [])) := by
  simp only [sendInLoop, bind_eq_ok, assertInLoopThread_eq_ok] at h
  obtain ⟨_, hloop, h⟩ := h
  refine ⟨hloop, ?_⟩
  split at h
  · rename_i hidle
    obtain ⟨hkept, hlife, hchannel, hbuffer, hhalf, hrest⟩ := directWrite_spec (x := x) data write
    simp only [bind_eq_ok, assert_eq_ok] at h
    obtain ⟨_, -, h⟩ := h
    split at h
    · rename_i hleft
      have hw : (x.directWrite data write).1.conn.channel_.isWriting = false := by
        rw [hchannel]
        exact hidle.1
      obtain ⟨hkept', hconn⟩ := bufferRest_ok h hw
      have hlife' : SameLife (x.directWrite data write).1.conn y.conn := by
        rw [hconn]
        exact ⟨⟨rfl, rfl, rfl⟩, rfl⟩
      refine ⟨hkept.trans hkept', hlife.trans hlife', ?_,
        .inr ⟨⟨hidle.1, ?_, hrest.mp hleft⟩, ?_, ?_⟩⟩
      · rw [hconn]
        exact hhalf
      · have hlen := x.conn.outputBuffer_.length_readable
        rw [hidle.2] at hlen
        exact List.length_eq_zero_iff.mp hlen
      · rw [hconn, hchannel]
      · -- what is left over is not empty
        rw [hconn]
        intro hnil
        have hlen := congrArg List.length hnil
        simp only [Buffer.readable_append, List.length_append, List.length_take,
          List.length_drop, List.length_nil] at hlen
        omega
    · cases h
      exact ⟨hkept, hlife, hhalf, .inl ⟨hchannel, hbuffer⟩⟩
  · cases h
    exact ⟨.refl x, .refl _, rfl, .inl ⟨rfl, rfl⟩⟩

end ConnRun

end Ham.Net
