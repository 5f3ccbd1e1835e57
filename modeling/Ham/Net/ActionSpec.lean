import Ham.Net.ConnectionSpec
import Ham.Net.Reactor

/-!
# What an action does to a connection

`Moves` lists everything that can happen to the state, the channel and the
calls of a connection in one action, each with the actions and conditions that
bring it about; `Action.run_spec` says that the list is complete. The
invariants of the reactor are proved case by case over it.
-/

namespace Ham.Net

/-- The number of times `handleEvent` calls `handleClose`: once for a hangup
without input, once for a read that finds the end of the stream. -/
def closings (revents : Events) (read : ReadResult) : Nat :=
  (if revents.epollhup ∧ ¬ revents.epollin then 1 else 0) +
  (if (revents.epollin ∨ revents.epollpri ∨ revents.epollrdhup) ∧ read = .eof then 1 else 0)

/-- The channel after so many calls of `disableAll`. -/
def Channel.disabled (ch : Channel) : Nat → Channel
  | 0 => ch
  | n + 1 => ConnRun.Disabled (ch.disabled n)

namespace Channel

variable {ch : Channel}

/-- A channel that watches for input stays in the kernel's set when it starts
or stops to watch for writability. -/
theorem rewired_status (hin : ch.event_.epollin = true) (on : Bool) :
    (ch.rewired on).status_ = .kAdded := by
  have hsome : (ch.setWriting on).isNoneEvent = false := by
    simp [setWriting, isNoneEvent, kNoneEvent_, hin]
  simp [rewired, Epoller.nextStatus, hsome]

/-- A channel that watches for writability is in the kernel's set. -/
theorem rewired_true_status (ch : Channel) : (ch.rewired true).status_ = .kAdded := by
  simp [rewired, Epoller.nextStatus, setWriting, isNoneEvent, kNoneEvent_]

/-- `disableAll` takes an added channel out of the kernel's set. -/
theorem disabled_status (hadded : ch.status_ = .kAdded) :
    (ch.disabled 1).status_ = .kDismissed := by
  simp [disabled, ConnRun.Disabled, Epoller.nextStatus, setNone, isNoneEvent, hadded]

theorem disabled_event (ch : Channel) {n : Nat} (hn : 0 < n) :
    (ch.disabled n).event_ = kNoneEvent_ := by
  cases n with
  | zero => cases hn
  | succ n => rfl

/-- `enableReading` puts a channel into the kernel's set. -/
theorem nextStatus_setReading (ch : Channel) : Epoller.nextStatus ch.setReading = .kAdded := by
  simp [Epoller.nextStatus, setReading, isNoneEvent, kNoneEvent_]

end Channel

/-- What an action can do to a connection. -/
inductive Moves (a : Action) (k k' : TcpConnection) : Prop
  | idle (life : SameLife k k') (channel : k'.channel_ = k.channel_)
  | rearm (data : Bytes) (write : WriteResult)
      (by_ : a = .sendInLoop data write ∨ (a = .send data write ∧ k.state_ = .kConnected))
      (rearms : Rearms k data write) (life : SameLife k k')
      (channel : k'.channel_ = k.channel_.rewired true)
  | drain (revents : Events) (left : Option Buffer) (write : WriteResult)
      (by_ : a = .handleEventWrite revents left write) (out : revents.epollout = true)
      (drains : Drains k write) (log : SameLog k k')
      (channel : k'.channel_ = k.channel_.rewired false)
      (state : k'.state_ = if k.state_ = .kDisconnecting then .kDisconnected else k.state_)
  | close (n : Nat)
      (by_ : (a = .forceCloseInLoop ∧ n = 1 ∧
          (k.state_ = .kConnected ∨ k.state_ = .kDisconnecting)) ∨
        ∃ revents read, a = .handleEvent revents read ∧ n = closings revents read)
      (pos : 0 < n) (state : k'.state_ = .kDisconnected)
      (channel : k'.channel_ = k.channel_.disabled n)
      (connectionCalls : k'.log.connectionCalls = k.log.connectionCalls)
      (closeCalls : k'.log.closeCalls = k.log.closeCalls + n)
      (destroyed : k'.log.destroyed = k.log.destroyed)
  | halfClose
      (by_ : a = .shutdownInLoop ∨ (a = .shutdown ∧ k.state_ = .kConnected))
      (idle : k.channel_.isWriting = false) (state : k'.state_ = .kDisconnected)
      (log : SameLog k k') (channel : k'.channel_ = k.channel_)
  | disconnecting
      (by_ : a = .shutdown ∨ a = .forceClose ∨ ∃ unique, a = .detach unique)
      (before : k.state_ = .kConnected ∨ k.state_ = .kDisconnecting)
      (state : k'.state_ = .kDisconnecting) (log : SameLog k k')
      (channel : k'.channel_ = k.channel_)
  | store (value : State) (by_ : a = .store value) (state : k'.state_ = value)
      (log : SameLog k k') (channel : k'.channel_ = k.channel_)
  | establish (by_ : a = .establishConnection ∨ a = .runEstablish)
      (state : k'.state_ = .kConnected)
      (channel : k'.channel_ = { k.channel_.setReading with
        status_ := Epoller.nextStatus k.channel_.setReading })
      (connectionCalls : k'.log.connectionCalls = k.log.connectionCalls ++ [true])
      (closeCalls : k'.log.closeCalls = k.log.closeCalls)
      (destroyed : k'.log.destroyed = k.log.destroyed)
  | stop (by_ : a = .destoryConnection) (before : k.state_ = .kConnected)
      (state : k'.state_ = .kDisconnected)
      (channel : k'.channel_ = { k.channel_.setNone with status_ := .kNew })
      (connectionCalls : k'.log.connectionCalls = k.log.connectionCalls ++ [false])
      (closeCalls : k'.log.closeCalls = k.log.closeCalls)
      (destroyed : k'.log.destroyed = true)
  | remove (by_ : a = .destoryConnection) (before : k.state_ ≠ .kConnected)
      (state : k'.state_ = k.state_)
      (channel : k'.channel_ = { k.channel_ with status_ := .kNew })
      (connectionCalls : k'.log.connectionCalls = k.log.connectionCalls)
      (closeCalls : k'.log.closeCalls = k.log.closeCalls)
      (destroyed : k'.log.destroyed = true)

/-- An effect an action asks for: one of its member function, or the one the
action is about. -/
def Effect.Of (a : Action) (c : ConnId) (inLoop : Bool) (e : Effect) : Prop :=
  e.About c inLoop ∨
  (a = .runEstablish ∧ e = .queueInLoop (.establishConnection c) ∧ inLoop = false) ∨
  (a = .removeConnectionInLoop ∧ e = .removeConnectionInLoop)

/-- The two parts of an action's effect. -/
structure Ran (a : Action) (x y : ConnRun) : Prop extends ConnRun.Framed x y where
  moves : Moves a x.conn y.conn
  closeCb : y.conn.closeCallback_ = x.conn.closeCallback_ ∨ ∃ unique, a = .detach unique
  effects : ∃ es, y.effects = x.effects ++ es ∧
    (∀ e ∈ es, e.Of a x.conn.self x.isInLoopThread) ∧
    y.conn.log.closeCalls = x.conn.log.closeCalls + es.count .closeCallback

namespace ConnRun

variable {a : Action} {x y : ConnRun}

theorem Kept.ran (h : Kept x y) (hmoves : Moves a x.conn y.conn) : Ran a x y where
  toFramed := h.toFramed
  moves := hmoves
  closeCb := .inl h.closeCb
  effects := by
    obtain ⟨es, hes, habout, hcalls⟩ := h.effects
    exact ⟨es, hes, fun e he => .inl (habout e he), hcalls⟩

theorem sendInLoop_ran {msg : Bytes} {write : WriteResult} (h : x.sendInLoop msg write = .ok y)
    (ha : a = .sendInLoop msg write ∨ (a = .send msg write ∧ x.conn.state_ = .kConnected)) :
    Ran a x y := by
  obtain ⟨-, hkept, hlife, -, ⟨hchannel, -⟩ | ⟨hrearms, hchannel, -⟩⟩ := sendInLoop_ok h
  · exact hkept.ran (.idle hlife hchannel)
  · exact hkept.ran (.rearm msg write ha hrearms hlife hchannel)

theorem send_ran {msg : Bytes} {write : WriteResult} (h : x.send msg write = .ok y) :
    Ran (.send msg write) x y := by
  unfold send at h
  split at h
  · rename_i hstate
    split at h
    · exact sendInLoop_ran h (.inr ⟨rfl, hstate⟩)
    · rename_i hloop
      cases h
      exact (Kept.emit x (e := .queueInLoop (.sendInLoop _ _)) ⟨rfl, by simpa using hloop⟩
        (by simp)).ran (.idle (.refl _) rfl)
  · cases h
    exact (Kept.refl x).ran (.idle (.refl _) rfl)

/-- `shutdownInLoop`, by itself or inside `shutdown`. -/
theorem shutdownInLoop_ran (h : x.shutdownInLoop = .ok y) : Ran .shutdownInLoop x y := by
  obtain ⟨-, hkept, -, hspec⟩ := shutdownInLoop_ok h
  split at hspec
  · exact hkept.ran (by rw [hspec]; exact .idle (.refl _) rfl)
  · rename_i hw
    refine hkept.ran (.halfClose (.inl rfl) (by simpa using hw) ?_ ?_ ?_)
    · rw [hspec]
    · rw [hspec]
      exact ⟨rfl, rfl, rfl⟩
    · rw [hspec]

theorem shutdown_ran (h : x.shutdown = .ok y) : Ran .shutdown x y := by
  unfold shutdown at h
  split at h
  · rename_i hstate
    split at h
    · -- on the loop's thread `shutdownInLoop` runs inside the call
      obtain ⟨-, hkept, -, hspec⟩ := shutdownInLoop_ok h
      have hkept' := (Kept.setState x .kDisconnecting).trans hkept
      split at hspec
      · refine hkept'.ran (.disconnecting (.inl rfl) (.inl hstate) ?_ ?_ ?_)
        · rw [hspec]
          rfl
        · rw [hspec]
          exact ⟨rfl, rfl, rfl⟩
        · rw [hspec]
          rfl
      · rename_i hw
        refine hkept'.ran (.halfClose (.inr ⟨rfl, hstate⟩) ?_ ?_ ?_ ?_)
        · exact eq_false_of_ne_true hw
        · rw [hspec]
        · rw [hspec]
          exact ⟨rfl, rfl, rfl⟩
        · rw [hspec]
          rfl
    · rename_i hloop
      cases h
      exact (Kept.emit x (e := .storeThenQueue _ (.shutdownInLoop _))
        ⟨rfl, rfl, by simpa using hloop⟩ (by simp)).ran (.idle (.refl _) rfl)
  · cases h
    exact (Kept.refl x).ran (.idle (.refl _) rfl)

/-- `forceClose`, by itself or inside `~TcpClient`. -/
theorem forceClose_kept (h : x.forceClose = .ok y) : Kept x y ∧
    ((SameLife x.conn y.conn ∧ y.conn.channel_ = x.conn.channel_) ∨
     ((x.conn.state_ = .kConnected ∨ x.conn.state_ = .kDisconnecting) ∧
      y.conn.state_ = .kDisconnecting ∧ SameLog x.conn y.conn ∧
      y.conn.channel_ = x.conn.channel_)) := by
  unfold forceClose at h
  split at h
  · rename_i hstate
    -- the close itself is always queued; another thread has the store before it as well
    split at h
    · cases h
      refine ⟨(Kept.setState x _).trans
        (.emit _ (e := .queueInLoop (.forceCloseInLoop _)) rfl (by simp)),
        .inr ⟨hstate, rfl, ?_, rfl⟩⟩
      exact ⟨rfl, rfl, rfl⟩
    · rename_i hloop
      cases h
      exact ⟨Kept.emit x (e := .storeThenQueue _ (.forceCloseInLoop _))
        ⟨rfl, rfl, by simpa using hloop⟩ (by simp), .inl ⟨.refl _, rfl⟩⟩
  · cases h
    exact ⟨.refl x, .inl ⟨.refl _, rfl⟩⟩

theorem forceClose_ran (h : x.forceClose = .ok y) : Ran .forceClose x y := by
  obtain ⟨hkept, ⟨hlife, hchannel⟩ | ⟨hbefore, hstate, hlog, hchannel⟩⟩ := forceClose_kept h
  · exact hkept.ran (.idle hlife hchannel)
  · exact hkept.ran (.disconnecting (.inr (.inl rfl)) hbefore hstate hlog hchannel)

/-- Two member functions in a row. -/
theorem handleClose_moves (h : x.handleClose = .ok y) {k : TcpConnection} {n : Nat}
    (hclose : (a = .forceCloseInLoop ∧ n + 1 = 1 ∧
        (k.state_ = .kConnected ∨ k.state_ = .kDisconnecting)) ∨
      ∃ revents read, a = .handleEvent revents read ∧ n + 1 = closings revents read)
    (hchannel : x.conn.channel_ = k.channel_.disabled n)
    (hcalls : x.conn.log.connectionCalls = k.log.connectionCalls)
    (hcloseCalls : x.conn.log.closeCalls = k.log.closeCalls + n)
    (hdestroyed : x.conn.log.destroyed = k.log.destroyed) : Moves a k y.conn := by
  obtain ⟨-, -, -, hconn⟩ := handleClose_ok h
  refine .close (n + 1) hclose (Nat.succ_pos n) ?_ ?_ ?_ ?_ ?_
  · rw [hconn]
  · rw [hconn]
    exact congrArg Disabled hchannel
  · rw [hconn]
    exact hcalls
  · rw [hconn]
    exact congrArg (· + 1) hcloseCalls
  · rw [hconn]
    exact hdestroyed

theorem forceCloseInLoop_ran (h : x.forceCloseInLoop = .ok y) : Ran .forceCloseInLoop x y := by
  obtain ⟨-, hspec⟩ := forceCloseInLoop_ok h
  split at hspec
  · rename_i hstate
    exact (handleClose_ok hspec).2.1.ran
      (handleClose_moves hspec (n := 0) (.inl ⟨rfl, rfl, hstate⟩) rfl rfl rfl rfl)
  · subst hspec
    exact (Kept.refl y).ran (.idle (.refl _) rfl)

theorem hangupEvent_ok {revents : Events} (h : x.hangupEvent revents = .ok y) :
    Kept x y ∧ y.conn.channel_ =
      x.conn.channel_.disabled (if revents.epollhup ∧ ¬ revents.epollin then 1 else 0) ∧
    y.conn.log.connectionCalls = x.conn.log.connectionCalls ∧
    y.conn.log.closeCalls = x.conn.log.closeCalls +
      (if revents.epollhup ∧ ¬ revents.epollin then 1 else 0) ∧
    y.conn.log.destroyed = x.conn.log.destroyed ∧
    y.conn.state_ =
      (if revents.epollhup ∧ ¬ revents.epollin then .kDisconnected else x.conn.state_) := by
  unfold hangupEvent at h
  split at h
  · rename_i hhup
    obtain ⟨-, hkept, -, hconn⟩ := handleClose_ok h
    rw [if_pos hhup, if_pos hhup, hconn]
    exact ⟨hkept, rfl, rfl, rfl, rfl, rfl⟩
  · rename_i hhup
    cases h
    rw [if_neg hhup, if_neg hhup]
    exact ⟨.refl x, rfl, rfl, rfl, rfl, rfl⟩

theorem handleEvent_ran {revents : Events} {read : ReadResult}
    (h : x.handleEvent revents read = .ok y) : Ran (.handleEvent revents read) x y := by
  simp only [handleEvent, bind_eq_ok] at h
  obtain ⟨z, hz, h⟩ := h
  obtain ⟨hkept, hchannel, hcalls, hcloseCalls, hdestroyed, hstate⟩ := hangupEvent_ok hz
  by_cases hclose : (revents.epollin ∨ revents.epollpri ∨ revents.epollrdhup) ∧ read = .eof
  · -- the read closes, after the hangup or alone
    have hread : z.handleClose = .ok y := by
      rw [readEvent, if_pos hclose.1, hclose.2] at h
      simpa using (handleRead_ok h).2
    refine (hkept.trans (handleClose_ok hread).2.1).ran ?_
    refine handleClose_moves hread (.inr ⟨revents, read, rfl, ?_⟩) hchannel hcalls hcloseCalls
      hdestroyed
    rw [closings, if_pos hclose]
  · -- only the hangup can have closed
    obtain ⟨hkept', hlife, hchannel'⟩ : Kept z y ∧ SameLife z.conn y.conn ∧
        y.conn.channel_ = z.conn.channel_ := by
      unfold readEvent at h
      split at h
      · rename_i hin
        have hspec := (handleRead_ok h).2
        rw [if_neg fun heof => hclose ⟨hin, heof⟩] at hspec
        exact ⟨hspec.1, hspec.2.2.1, hspec.2.2.2.1⟩
      · cases h
        exact ⟨.refl _, .refl _, rfl⟩
    refine (hkept.trans hkept').ran ?_
    by_cases hhup : revents.epollhup ∧ ¬ revents.epollin
    · rw [if_pos hhup] at hchannel hcloseCalls hstate
      refine .close 1 (.inr ⟨revents, read, rfl, ?_⟩) Nat.one_pos (hlife.state.trans hstate)
        (hchannel'.trans hchannel) (hlife.connectionCalls.trans hcalls)
        (hlife.closeCalls.trans hcloseCalls) (hlife.destroyed.trans hdestroyed)
      rw [closings, if_pos hhup, if_neg hclose]
    · rw [if_neg hhup] at hchannel hcloseCalls hstate
      refine .idle (.trans ⟨⟨hcalls, hcloseCalls, hdestroyed⟩, hstate⟩ hlife) ?_
      exact hchannel'.trans hchannel

theorem handleEvent_closeCalls {revents : Events} {read : ReadResult}
    (h : x.handleEvent revents read = .ok y) :
    y.conn.log.closeCalls = x.conn.log.closeCalls + closings revents read := by
  simp only [handleEvent, bind_eq_ok] at h
  obtain ⟨z, hz, h⟩ := h
  obtain ⟨-, -, -, hcalls, -⟩ := hangupEvent_ok hz
  rw [closings, ← Nat.add_assoc, ← hcalls]
  unfold readEvent at h
  split at h
  · rename_i hin
    have hspec := (handleRead_ok h).2
    split at hspec
    · rename_i heof
      obtain ⟨-, -, -, hconn⟩ := handleClose_ok hspec
      rw [if_pos ⟨hin, heof⟩, hconn]
    · rename_i heof
      rw [if_neg fun hboth => heof hboth.2]
      exact hspec.2.2.1.closeCalls
  · rename_i hin
    cases h
    rw [if_neg fun hboth => hin hboth.1]
    rfl

theorem handleEventWrite_ran {revents : Events} {left : Option Buffer} {write : WriteResult}
    (h : (Action.handleEventWrite revents left write).run x = .ok y) :
    Ran (.handleEventWrite revents left write) x y := by
  have hkept : Kept x { x with conn := { x.conn with
      inputBuffer_ := left.getD x.conn.inputBuffer_ } } := .of_conn rfl rfl rfl rfl rfl rfl
  simp only [Action.run, handleEventWrite] at h
  split at h
  · rename_i hout
    obtain ⟨-, hkept', ⟨hlife, hchannel, -⟩ | ⟨hdrains, hchannel, hlog, hstate, -⟩⟩ :=
      handleWrite_ok h
    · exact (hkept.trans hkept').ran
        (.idle ⟨⟨hlife.connectionCalls, hlife.closeCalls, hlife.destroyed⟩, hlife.state⟩ hchannel)
    · exact (hkept.trans hkept').ran (.drain revents left write rfl hout hdrains
        ⟨hlog.connectionCalls, hlog.closeCalls, hlog.destroyed⟩ hchannel hstate)
  · cases h
    exact hkept.ran (.idle ⟨⟨rfl, rfl, rfl⟩, rfl⟩ rfl)

theorem establishConnection_ran (h : x.establishConnection = .ok y)
    (ha : a = .establishConnection ∨ a = .runEstablish) : Ran a x y := by
  obtain ⟨-, hkept, -, hconn⟩ := establishConnection_ok h
  refine hkept.ran (.establish ha ?_ ?_ ?_ ?_ ?_) <;> rw [hconn]

theorem destoryConnection_ran (h : x.destoryConnection = .ok y) :
    Ran .destoryConnection x y := by
  obtain ⟨-, hkept, -, hspec⟩ := destoryConnection_ok h
  split at hspec
  · rename_i hstate
    refine hkept.ran (.stop rfl hstate ?_ ?_ ?_ ?_ ?_) <;> rw [hspec]
  · rename_i hstate
    refine hkept.ran (.remove rfl hstate ?_ ?_ ?_ ?_ ?_) <;> rw [hspec]

/-- An effect that is about the action itself, on an untouched connection. -/
theorem emit_ran (x : ConnRun) {e : Effect} (he : e.Of a x.conn.self x.isInLoopThread)
    (hne : e ≠ .closeCallback) : Ran a x (x.emit e) where
  toFramed := ⟨rfl, rfl, rfl, rfl, rfl, rfl, fun _ _ _ => Iff.rfl, fun _ _ _ _ h => h,
    fun h => ⟨h.map, h.kernel⟩⟩
  moves := .idle (.refl _) rfl
  closeCb := .inl rfl
  effects := ⟨[e], rfl, by simpa using he, by simp [emit, hne]⟩

theorem store_ran (x : ConnRun) (state : State) : Ran (.store state) x (x.setState state) :=
  (Kept.setState x state).ran (.store state rfl rfl ⟨rfl, rfl, rfl⟩ rfl)

theorem detach_ran {unique : Bool} (h : (Action.detach unique).run x = .ok y) :
    Ran (.detach unique) x y := by
  simp only [Action.run] at h
  split at h
  · obtain ⟨hkept, hspec⟩ := forceClose_kept h
    refine ⟨⟨hkept.thread, hkept.self, hkept.loop, hkept.name, hkept.channelSelf, hkept.fd,
      hkept.map, hkept.kernel, fun hs => hkept.synced ⟨hs.map, hs.kernel⟩⟩, ?_, .inr ⟨_, rfl⟩, ?_⟩
    · rcases hspec with ⟨hlife, hchannel⟩ | ⟨hbefore, hstate, hlog, hchannel⟩
      · exact .idle ⟨⟨hlife.connectionCalls, hlife.closeCalls, hlife.destroyed⟩, hlife.state⟩
          hchannel
      · exact .disconnecting (.inr (.inr ⟨_, rfl⟩)) hbefore hstate
          ⟨hlog.connectionCalls, hlog.closeCalls, hlog.destroyed⟩ hchannel
    · obtain ⟨es, hes, habout, hcalls⟩ := hkept.effects
      exact ⟨es, hes, fun e he => .inl (habout e he), hcalls⟩
  · cases h
    exact ⟨⟨rfl, rfl, rfl, rfl, rfl, rfl, fun _ _ _ => Iff.rfl, fun _ _ _ _ h => h,
      fun h => ⟨h.map, h.kernel⟩⟩, .idle ⟨⟨rfl, rfl, rfl⟩, rfl⟩ rfl, .inr ⟨_, rfl⟩,
      [], by simp⟩

end ConnRun

/-- Every action that returns has done one of the things on the list. -/
theorem Action.run_spec {a : Action} {x y : ConnRun} (h : a.run x = .ok y) : Ran a x y := by
  cases a with
  | establishConnection => exact ConnRun.establishConnection_ran h (.inl rfl)
  | runEstablish =>
      simp only [Action.run] at h
      split at h
      · exact ConnRun.establishConnection_ran h (.inr rfl)
      · rename_i hloop
        cases h
        exact ConnRun.emit_ran x (.inr (.inl ⟨rfl, rfl, by simpa using hloop⟩)) (by simp)
  | destoryConnection => exact ConnRun.destoryConnection_ran h
  | handleEvent revents read => exact ConnRun.handleEvent_ran h
  | handleEventWrite revents left write => exact ConnRun.handleEventWrite_ran h
  | sendInLoop msg write => exact ConnRun.sendInLoop_ran h (.inl rfl)
  | shutdownInLoop => exact ConnRun.shutdownInLoop_ran h
  | forceCloseInLoop => exact ConnRun.forceCloseInLoop_ran h
  | removeConnectionInLoop =>
      cases h
      exact ConnRun.emit_ran x (.inr (.inr ⟨rfl, rfl⟩)) (by simp)
  | send msg write => exact ConnRun.send_ran h
  | shutdown => exact ConnRun.shutdown_ran h
  | forceClose => exact ConnRun.forceClose_ran h
  | store state =>
      cases h
      exact ConnRun.store_ran x state
  | detach unique => exact ConnRun.detach_ran h

/-- The calls of `connectionCallback_` grow by an up call in
`establishConnection` and by a down call in `destoryConnection`. -/
theorem Moves.connectionCalls {a : Action} {k k' : TcpConnection} (h : Moves a k k') :
    k'.log.connectionCalls = k.log.connectionCalls ∨
    ((a = .establishConnection ∨ a = .runEstablish) ∧
      k'.log.connectionCalls = k.log.connectionCalls ++ [true] ∧
      k'.log.destroyed = k.log.destroyed) ∨
    (a = .destoryConnection ∧ k.state_ = .kConnected ∧
      k'.log.connectionCalls = k.log.connectionCalls ++ [false] ∧ k'.log.destroyed = true) := by
  cases h with
  | establish by_ state channel connectionCalls closeCalls destroyed =>
      exact .inr (.inl ⟨by_, connectionCalls, destroyed⟩)
  | stop by_ before state channel connectionCalls closeCalls destroyed =>
      exact .inr (.inr ⟨by_, before, connectionCalls, destroyed⟩)
  | idle life channel => exact .inl life.connectionCalls
  | rearm data write by_ rearms life channel => exact .inl life.connectionCalls
  | drain revents left write by_ out drains log channel state => exact .inl log.connectionCalls
  | halfClose by_ idle state log channel => exact .inl log.connectionCalls
  | disconnecting by_ before state log channel => exact .inl log.connectionCalls
  | store value by_ state log channel => exact .inl log.connectionCalls
  | close n by_ pos state channel connectionCalls closeCalls destroyed => exact .inl connectionCalls
  | remove by_ before state channel connectionCalls closeCalls destroyed =>
      exact .inl connectionCalls

/-- Only an up call and the store of another thread can make a connection
connected. -/
theorem Moves.not_connected {a : Action} {k k' : TcpConnection} (h : Moves a k k')
    (hk : k.state_ ≠ .kConnected) (hcalls : k'.log.connectionCalls = k.log.connectionCalls)
    (hstore : ∀ value, a = .store value → value ≠ .kConnected) : k'.state_ ≠ .kConnected := by
  cases h with
  | establish by_ state channel connectionCalls =>
      rw [connectionCalls] at hcalls
      simp at hcalls
  | store value by_ state log channel => exact state ▸ hstore value by_
  | idle life channel => exact life.state ▸ hk
  | rearm data write by_ rearms life channel => exact life.state ▸ hk
  | drain revents left write by_ out drains log channel state =>
      rw [state]
      split
      · decide
      · exact hk
  | halfClose by_ idle state log channel => simp [state]
  | disconnecting by_ before state log channel => simp [state]
  | close n by_ pos state => simp [state]
  | stop by_ before state => simp [state]
  | remove by_ before state => exact state ▸ hk

/-- Only `destoryConnection` destroys a connection. -/
theorem Moves.destroyed {a : Action} {k k' : TcpConnection} (h : Moves a k k') :
    k'.log.destroyed = k.log.destroyed ∨
    (a = .destoryConnection ∧ k'.log.destroyed = true) := by
  cases h with
  | stop by_ before state channel connectionCalls closeCalls destroyed =>
      exact .inr ⟨by_, destroyed⟩
  | remove by_ before state channel connectionCalls closeCalls destroyed =>
      exact .inr ⟨by_, destroyed⟩
  | idle life channel => exact .inl life.destroyed
  | rearm data write by_ rearms life channel => exact .inl life.destroyed
  | drain revents left write by_ out drains log channel state => exact .inl log.destroyed
  | halfClose by_ idle state log channel => exact .inl log.destroyed
  | disconnecting by_ before state log channel => exact .inl log.destroyed
  | store value by_ state log channel => exact .inl log.destroyed
  | close n by_ pos state channel connectionCalls closeCalls destroyed => exact .inl destroyed
  | establish by_ state channel connectionCalls closeCalls destroyed => exact .inl destroyed

/-- Only `forceCloseInLoop` and `handleEvent` call `closeCallback_`. -/
theorem Moves.closeCalls {a : Action} {k k' : TcpConnection} (h : Moves a k k') :
    k'.log.closeCalls = k.log.closeCalls ∨
    ∃ n, ((a = .forceCloseInLoop ∧ n = 1 ∧
          (k.state_ = .kConnected ∨ k.state_ = .kDisconnecting)) ∨
        ∃ revents read, a = .handleEvent revents read ∧ n = closings revents read) ∧
      k'.state_ = .kDisconnected ∧ k'.channel_ = k.channel_.disabled n ∧
      k'.log.closeCalls = k.log.closeCalls + n := by
  cases h with
  | close n by_ pos state channel connectionCalls closeCalls =>
      exact .inr ⟨n, by_, state, channel, closeCalls⟩
  | idle life channel => exact .inl life.closeCalls
  | rearm data write by_ rearms life channel => exact .inl life.closeCalls
  | drain revents left write by_ out drains log channel state => exact .inl log.closeCalls
  | halfClose by_ idle state log channel => exact .inl log.closeCalls
  | disconnecting by_ before state log channel => exact .inl log.closeCalls
  | store value by_ state log channel => exact .inl log.closeCalls
  | establish by_ state channel connectionCalls closeCalls => exact .inl closeCalls
  | stop by_ before state channel connectionCalls closeCalls => exact .inl closeCalls
  | remove by_ before state channel connectionCalls closeCalls => exact .inl closeCalls

end Ham.Net
