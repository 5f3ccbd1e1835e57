import Ham.Net.ReactorInvariant

/-!
# One close for each connection

On its own loop's thread a connection goes through three stages: not yet
established, up with its channel in the kernel's set, and closed with its
channel out of it. `handleClose` takes it from the second to the third, and
nothing that runs afterwards closes it again, except the one event that calls
`handleClose` twice (`DoubleClose`): a hangup without input that comes with
urgent data or a half-closed peer, and a read that finds the end of the stream.
`closedOnce_iff` says that this is the only way.
-/

namespace Ham.Net

open Ham.Lib

/-- Both branches of `handleEventWithGuard` close the connection. -/
def DoubleClose (revents : Events) (read : ReadResult) : Prop :=
  revents.epollhup = true ∧ revents.epollin = false ∧
  (revents.epollpri = true ∨ revents.epollrdhup = true) ∧ read = .eof

theorem closings_le (revents : Events) (read : ReadResult) : closings revents read ≤ 2 := by
  unfold closings
  split <;> split <;> omega

theorem closings_eq_two_iff (revents : Events) (read : ReadResult) :
    closings revents read = 2 ↔ DoubleClose revents read := by
  unfold closings DoubleClose
  split <;> split <;> simp_all

/-! ## The stages of a connection -/

inductive Stage (k : TcpConnection) : Prop
  | fresh (calls : k.log.connectionCalls = []) (open_ : k.log.closeCalls = 0)
      (state : k.state_ = .kConnecting) (event : k.channel_.event_ = Channel.kNoneEvent_)
      (status : k.channel_.status_ ≠ .kAdded)
  | up (calls : k.log.connectionCalls ≠ []) (open_ : k.log.closeCalls = 0)
      (event : k.channel_.event_.epollin = true) (status : k.channel_.status_ = .kAdded)
  | closed (calls : k.log.connectionCalls ≠ []) (once : k.log.closeCalls = 1)
      (state : k.state_ = .kDisconnected) (event : k.channel_.event_ = Channel.kNoneEvent_)
      (status : k.channel_.status_ ≠ .kAdded)

/-- The connection is up. -/
def TcpConnection.Up (k : TcpConnection) : Prop :=
  k.log.connectionCalls ≠ [] ∧ k.log.closeCalls = 0

namespace Stage

variable {a : Action} {k k' : TcpConnection}

theorem congr (h : Stage k) (hlife : SameLife k k') (hchannel : k'.channel_ = k.channel_) :
    Stage k' := by
  cases h with
  | fresh calls open_ state event status =>
      exact .fresh (hlife.connectionCalls.trans calls) (hlife.closeCalls.trans open_)
        (hlife.state.trans state) (hchannel ▸ event) (hchannel ▸ status)
  | up calls open_ event status =>
      exact .up (hlife.connectionCalls ▸ calls) (hlife.closeCalls.trans open_) (hchannel ▸ event)
        (hchannel ▸ status)
  | closed calls once state event status =>
      exact .closed (hlife.connectionCalls ▸ calls) (hlife.closeCalls.trans once)
        (hlife.state.trans state) (hchannel ▸ event) (hchannel ▸ status)

/-- An added channel belongs to a connection that is up. -/
theorem of_added (h : Stage k) (hadded : k.channel_.status_ = .kAdded) : k.Up := by
  cases h with
  | fresh calls open_ state event status => exact absurd hadded status
  | up calls open_ event status => exact ⟨calls, open_⟩
  | closed calls once state event status => exact absurd hadded status

/-- A connection that is connected or disconnecting is up, and its channel
watches for input. -/
theorem of_state (h : Stage k) (hstate : k.state_ = .kConnected ∨ k.state_ = .kDisconnecting) :
    k.Up ∧ k.channel_.event_.epollin = true ∧ k.channel_.status_ = .kAdded := by
  cases h with
  | fresh calls open_ state event status => rcases hstate with h | h <;> simp [state] at h
  | up calls open_ event status => exact ⟨⟨calls, open_⟩, event, status⟩
  | closed calls once state event status => rcases hstate with h | h <;> simp [state] at h

theorem of_writing (h : Stage k) (hwriting : k.channel_.isWriting = true) :
    k.Up ∧ k.channel_.event_.epollin = true ∧ k.channel_.status_ = .kAdded := by
  cases h with
  | fresh calls open_ state event status =>
      simp [Channel.isWriting, event, Channel.kNoneEvent_] at hwriting
  | up calls open_ event status => exact ⟨⟨calls, open_⟩, event, status⟩
  | closed calls once state event status =>
      simp [Channel.isWriting, event, Channel.kNoneEvent_] at hwriting

theorem of_up (h : Stage k) (hup : k.Up) :
    k.channel_.event_.epollin = true ∧ k.channel_.status_ = .kAdded := by
  cases h with
  | fresh calls open_ state event status => exact absurd calls hup.1
  | up calls open_ event status => exact ⟨event, status⟩
  | closed calls once state event status =>
      rw [hup.2] at once
      cases once

theorem closeCalls_le (h : Stage k) : k.log.closeCalls ≤ 1 := by
  cases h <;> omega

/-- A connection that was closed has no interest left. -/
theorem of_closed (h : Stage k) (hclosed : 1 ≤ k.log.closeCalls) :
    k.log.connectionCalls ≠ [] ∧ k.log.closeCalls = 1 ∧ k.state_ = .kDisconnected ∧
    k.channel_.event_ = Channel.kNoneEvent_ := by
  cases h with
  | fresh calls open_ state event status => omega
  | up calls open_ event status => omega
  | closed calls once state event status => exact ⟨calls, once, state, event⟩

theorem rewire (h : k.Up ∧ k.channel_.event_.epollin = true ∧ k.channel_.status_ = .kAdded)
    (hlog : SameLog k k') {on : Bool} (hchannel : k'.channel_ = k.channel_.rewired on) :
    Stage k' := by
  obtain ⟨⟨hcalls, hopen⟩, hin, -⟩ := h
  refine .up (hlog.connectionCalls ▸ hcalls) (hlog.closeCalls.trans hopen) ?_ ?_
  · rw [hchannel]
    exact hin
  · rw [hchannel]
    exact Channel.rewired_status hin on

/-- An action on the loop's thread, with one close at most and on a connection
that is up, leads from a stage to a stage. -/
theorem moves (h : Stage k) (hmoves : Moves a k k')
    (hestablish : a = .establishConnection ∨ a = .runEstablish → k.log.connectionCalls = [])
    (hevent : ∀ revents read, a = .handleEvent revents read →
      k.Up ∧ ¬ DoubleClose revents read)
    (hdestroy : a = .destoryConnection → 1 ≤ k.log.closeCalls)
    (hsend : ∀ msg write, a ≠ .sendInLoop msg write) (hshutdown : a ≠ .shutdownInLoop)
    (hstore : ∀ value, a ≠ .store value) : Stage k' := by
  cases hmoves with
  | idle life channel => exact h.congr life channel
  | rearm data write by_ rearms life channel =>
      -- a send of the user finds the connection connected
      rcases by_ with ha | ⟨-, hstate⟩
      · exact absurd ha (hsend data write)
      · exact rewire (h.of_state (.inl hstate)) life.toSameLog channel
  | drain revents left write by_ out drains log channel state =>
      exact rewire (h.of_writing drains.1) log channel
  | close n by_ pos state channel connectionCalls closeCalls destroyed =>
      -- `forceCloseInLoop` tests the state, and an event is for a channel that is up
      obtain ⟨hup, hn⟩ : k.Up ∧ n = 1 := by
        rcases by_ with ⟨-, hn, hstate⟩ | ⟨revents, read, ha, hn⟩
        · exact ⟨(h.of_state hstate).1, hn⟩
        · obtain ⟨hup, honce⟩ := hevent revents read ha
          have hle := closings_le revents read
          rw [← closings_eq_two_iff] at honce
          exact ⟨hup, by omega⟩
      subst hn
      obtain ⟨hin, hadded⟩ := h.of_up hup
      refine .closed (connectionCalls ▸ hup.1) (by rw [closeCalls, hup.2]) state ?_ ?_
      · rw [channel]
        rfl
      · rw [channel, Channel.disabled_status hadded]
        decide
  | halfClose by_ idle state log channel =>
      rcases by_ with ha | ⟨-, hstate⟩
      · exact absurd ha hshutdown
      · obtain ⟨⟨hcalls, hopen⟩, hin, hadded⟩ := h.of_state (.inl hstate)
        exact .up (log.connectionCalls ▸ hcalls) (log.closeCalls.trans hopen) (channel ▸ hin)
          (channel ▸ hadded)
  | disconnecting by_ before state log channel =>
      obtain ⟨⟨hcalls, hopen⟩, hin, hadded⟩ := h.of_state before
      exact .up (log.connectionCalls ▸ hcalls) (log.closeCalls.trans hopen) (channel ▸ hin)
        (channel ▸ hadded)
  | store value by_ => exact absurd by_ (hstore value)
  | establish by_ state channel connectionCalls closeCalls destroyed =>
      -- a closed connection has been announced, so it is not established again
      have hopen : k.log.closeCalls = 0 := by
        by_contra hclosed
        exact (h.of_closed (Nat.one_le_iff_ne_zero.mpr hclosed)).1 (hestablish by_)
      refine .up (by simp [connectionCalls]) (closeCalls.trans hopen) ?_ ?_
      · rw [channel]
        rfl
      · rw [channel]
        exact Channel.nextStatus_setReading _
  | stop by_ before state channel connectionCalls closeCalls destroyed =>
      -- behind a close the state is `kDisconnected`, and `destoryConnection` skips this branch
      obtain ⟨-, -, hstate, -⟩ := h.of_closed (hdestroy by_)
      rw [hstate] at before
      cases before
  | remove by_ before state channel connectionCalls closeCalls destroyed =>
      obtain ⟨hcalls, honce, hstate, hnone⟩ := h.of_closed (hdestroy by_)
      refine .closed (connectionCalls ▸ hcalls) (closeCalls.trans honce) (state.trans hstate) ?_ ?_
      · rw [channel]
        exact hnone
      · rw [channel]
        exact fun hnew => by cases hnew

end Stage

/-! ## What a close leads to -/

/-- An effect of a member function leads to `destoryConnection` only if it is
`closeCallback_`, and then once. -/
theorem Effect.About.teardowns {e : Effect} {c : ConnId} {inLoop : Bool}
    (h : e.About c inLoop) (t : Thread) (k : TcpConnection) :
    (e.adds t k).count (k.loop_, .destoryConnection k.self) +
      (e.adds t k).count (0, .removeConnectionInLoop k.self) ≤ [e].count .closeCallback := by
  cases e with
  | queueInLoop f => cases f <;> simp_all [Effect.About, Effect.adds]
  | storeThenQueue state f => cases f <;> simp_all [Effect.About, Effect.adds]
  | removeConnectionInLoop => cases h
  | closeCallback =>
      simp only [Effect.adds]
      split
      · split <;> simp
      · simp
      · simp

theorem effects_teardowns {es : List Effect} (t : Thread) (k : TcpConnection)
    (h : ∀ e ∈ es, (e.adds t k).count (k.loop_, .destoryConnection k.self) +
      (e.adds t k).count (0, .removeConnectionInLoop k.self) ≤ [e].count .closeCallback) :
    (es.flatMap (Effect.adds t k)).count (k.loop_, .destoryConnection k.self) +
      (es.flatMap (Effect.adds t k)).count (0, .removeConnectionInLoop k.self) ≤
      es.count .closeCallback := by
  induction es with
  | nil => simp
  | cons e es ih =>
      have hhead := h e List.mem_cons_self
      have htail := ih fun e he => h e (List.mem_cons_of_mem _ he)
      rw [← List.singleton_append (x := e), List.count_append]
      simp only [List.singleton_append, List.flatMap_cons, List.count_append]
      omega

namespace World

variable {w w' : World} {t : Thread} {c : ConnId} {a : Action} {k : TcpConnection} {y : ConnRun}
  {l : Label}

/-- The calls of `destoryConnection` that a connection has had or will have:
queued, about to be queued by `removeConnectionInLoop`, or over. -/
def teardowns (w : World) (k : TcpConnection) : Nat :=
  (w.queued k.loop_).count (.destoryConnection k.self) +
    (w.queued 0).count (.removeConnectionInLoop k.self) + k.log.destroyed.toNat

/-- An action leads to `destoryConnection` as often as it closes. -/
theorem Acted.adds_teardowns (h : Acted w t c a w' k y) (hremove : a ≠ .removeConnectionInLoop) :
    (y.effects.flatMap (Effect.adds t y.conn)).count (k.loop_, .destoryConnection k.self) +
      (y.effects.flatMap (Effect.adds t y.conn)).count (0, .removeConnectionInLoop k.self) ≤
      y.effects.count .closeCallback := by
  have hself : y.conn.self = k.self := h.ran.self
  have hloop : y.conn.loop_ = k.loop_ := h.ran.loop
  rw [← hself, ← hloop]
  refine effects_teardowns t y.conn fun e he => ?_
  rcases h.effect_of he with ⟨habout, -⟩ | ⟨-, rfl, -⟩ | ⟨ha, -⟩
  · exact habout.teardowns t y.conn
  · simp [Effect.adds]
  · exact absurd ha hremove

theorem Acted.teardowns (h : Acted w t c a w' k y)
    (hslack : a = .destoryConnection ∨ a = .removeConnectionInLoop →
      w.teardowns k + 1 ≤ k.log.closeCalls)
    (haccounted : w.teardowns k ≤ k.log.closeCalls) :
    w'.teardowns y.conn ≤ y.conn.log.closeCalls := by
  have hself : y.conn.self = k.self := h.ran.self
  have hloop : y.conn.loop_ = k.loop_ := h.ran.loop
  have hcalls := h.closeCalls
  unfold World.teardowns at *
  rw [h.queued, h.queued, hself, hloop]
  by_cases hremove : a = .removeConnectionInLoop
  · -- the close that queued the functor is known; the functor turns into the other
    subst hremove
    have hreturned := h.returned
    cases hreturned
    have hslack := hslack (.inr rfl)
    simp [ConnRun.emit, Effect.adds]
    omega
  · have hadds := h.adds_teardowns hremove
    rcases h.ran.moves.destroyed with hsame | ⟨ha, htrue⟩
    · have hsame : y.conn.log.destroyed = k.log.destroyed := hsame
      rw [hsame]
      omega
    · have hslack := hslack (.inl ha)
      rw [htrue]
      simp only [Bool.toNat_true]
      omega

/-! ## The invariant -/

/-- Every connection is at a stage; a call of `destoryConnection` has a close
behind it; nothing of another thread is on its way; and the active channels
are those of connections that are up. -/
structure Once (w : World) : Prop where
  stage : ∀ c k, w.conns c = some k → Stage k
  accounted : ∀ c k, w.conns c = some k → w.teardowns k ≤ k.log.closeCalls
  remove : ∀ ℓ c, .removeConnectionInLoop c ∈ w.queued ℓ → ℓ = 0
  sendInLoop : ∀ ℓ c msg, .sendInLoop c msg ∉ w.queued ℓ
  shutdownInLoop : ∀ ℓ c, .shutdownInLoop c ∉ w.queued ℓ
  stores : ∀ c state ℓ f, .store c state ℓ f ∉ w.handovers
  active : ∀ ℓ c k, c ∈ (w.loops ℓ).phase.active → w.conns c = some k → k.loop_ = ℓ ∧ k.Up

theorem once_init (server : TcpServer) (client : TcpClient) : Once (World.init server client) where
  stage := fun _ _ h => by cases h
  accounted := fun _ _ h => by cases h
  remove := fun _ _ h => by cases h
  sendInLoop := fun _ _ _ h => by cases h
  shutdownInLoop := fun _ _ h => by cases h
  stores := fun _ _ _ _ h => by cases h
  active := fun _ _ _ h => by cases h

theorem Once.prepare (h : Once w) (hsound : Sound w) (htidy : Tidy w) (hen : w.Enabled l) :
    Once (w.prepare l) where
  stage := by
    intro c k hc
    rcases prepare_conns hc with hc | ⟨-, ℓ, name, fd, cb, wc, rfl, -⟩
    · exact h.stage c k hc
    · exact .fresh rfl rfl rfl rfl fun hnew => by cases hnew
  accounted := by
    intro c k hc
    have hdestroy := prepare_queued hen k.loop_ (.destoryConnection k.self)
    have hremove := prepare_queued hen 0 (.removeConnectionInLoop k.self)
    rcases prepare_conns hc with hc | ⟨rfl, ℓ, name, fd, cb, wc, rfl, -⟩
    · have hk := h.accounted c k hc
      unfold teardowns at *
      omega
    · -- a new connection is in no queue
      have hnone : ∀ ℓ (f : Functor), f.conn = w.nextConn → (w.queued ℓ).count f = 0 :=
        fun ℓ f hf => List.count_eq_zero.mpr fun hmem =>
          absurd (htidy.queued ℓ f hmem) (hf ▸ Nat.lt_irrefl _)
      rw [hnone _ _ rfl] at hdestroy hremove
      unfold teardowns
      have hfresh : (w.newTcpConnection ℓ name fd cb wc).log.destroyed.toNat = 0 := rfl
      omega
  remove := fun ℓ c hc => h.remove ℓ c (prepare_queued_mem hen hc)
  sendInLoop := fun ℓ c msg hc => h.sendInLoop ℓ c msg (prepare_queued_mem hen hc)
  shutdownInLoop := fun ℓ c hc => h.shutdownInLoop ℓ c (prepare_queued_mem hen hc)
  stores := fun c state ℓ f hs => h.stores c state ℓ f (prepare_stores hs)
  active := by
    intro ℓ c k hactive hc
    rcases prepare_active hen ℓ with ⟨active, rfl, hphase⟩ | hsub
    · -- the kernel reports added channels only
      rw [hphase] at hactive
      obtain ⟨a, ha, rfl⟩ := List.mem_map.mp hactive
      obtain ⟨k₀, e, hk₀, hkernel⟩ := hen.2.2.2 a ha
      obtain ⟨k₁, hk₁, hloop, -, hadded⟩ := hsound.kernel ℓ _ e a.1 hkernel
      have hc : w.conns a.1 = some k := hc
      rw [hc] at hk₁
      cases hk₁
      exact ⟨hloop, (h.stage a.1 k hc).of_added hadded⟩
    · have hold := hsub.mem hactive
      rcases prepare_conns hc with hc | ⟨rfl, -⟩
      · exact h.active ℓ c k hold hc
      · exact absurd (htidy.active hold) (Nat.lt_irrefl _)

/-- What an action of a run on the loop's thread may assume. -/
structure Due (w : World) (t : Thread) (c : ConnId) (a : Action) (k : TcpConnection) : Prop where
  self : k.self = c
  loop : a ≠ .removeConnectionInLoop → a ≠ .runEstablish → t = some k.loop_
  establish : a = .establishConnection ∨ a = .runEstablish → k.log.connectionCalls = []
  event : ∀ revents read, a = .handleEvent revents read → k.Up ∧ ¬ DoubleClose revents read
  slack : a = .destoryConnection ∨ a = .removeConnectionInLoop →
    w.teardowns k + 1 ≤ k.log.closeCalls
  sendInLoop : ∀ msg write, a ≠ .sendInLoop msg write
  shutdownInLoop : a ≠ .shutdownInLoop
  store : ∀ value, a ≠ .store value
  inactive : (a = .forceCloseInLoop ∨ ∃ revents read, a = .handleEvent revents read) →
    ∀ ℓ, c ∉ (w.loops ℓ).phase.active

theorem Once.acted (h : Once w) (hsound : Sound w) (hact : Acted w t c a w' k y)
    (hdue : Due w t c a k) : Once w' where
  stage := by
    intro d k' hd
    rcases hact.cases hd with ⟨rfl, rfl⟩ | ⟨-, hd⟩
    · refine (h.stage d k hact.before).moves hact.ran.moves hdue.establish hdue.event
        (fun ha => ?_) hdue.sendInLoop hdue.shutdownInLoop hdue.store
      have hslack := hdue.slack (.inl ha)
      omega
    · exact h.stage d k' hd
  accounted := by
    intro d k' hd
    rcases hact.cases hd with ⟨rfl, rfl⟩ | ⟨hdc, hd⟩
    · exact hact.teardowns hdue.slack (h.accounted d k hact.before)
    · have hother : ∀ ℓ (f : Functor), f.conn = k'.self →
          (w'.queued ℓ).count f = (w.queued ℓ).count f := by
        intro ℓ f hf
        refine hact.queued_same fun hadd => hdc ?_
        rw [← (hsound.ident d k' hd).1, ← hf, hadd.conn, hdue.self]
      have hk := h.accounted d k' hd
      unfold teardowns at *
      rwa [hother _ _ rfl, hother _ _ rfl]
  remove := by
    intro ℓ d hd
    rcases hact.queued_cases hd with hd | ⟨-, hℓ, -⟩
    · exact h.remove ℓ d hd
    · exact hℓ
  sendInLoop := by
    intro ℓ d msg hd
    rcases hact.queued_cases hd with hd | ⟨-, -, hout, hne, hne'⟩
    · exact h.sendInLoop ℓ d msg hd
    · exact hout (hdue.loop hne hne')
  shutdownInLoop := by
    intro ℓ d hd
    rcases hact.queued_cases hd with hd | ⟨-, -, hout, hne, hne'⟩
    · exact h.shutdownInLoop ℓ d hd
    · exact hout (hdue.loop hne hne')
  stores := by
    intro d state ℓ f hs
    rcases hact.stores_cases hs with hs | ⟨-, -, hout, hne, hne'⟩
    · exact h.stores d state ℓ f hs
    · exact hout (hdue.loop hne hne')
  active := by
    intro ℓ d k' hactive hd
    rw [hact.phase] at hactive
    rcases hact.cases hd with ⟨rfl, rfl⟩ | ⟨-, hd⟩
    · obtain ⟨hloop, hcalls, hopen⟩ := h.active ℓ d k hactive hact.before
      refine ⟨hact.ran.loop.trans hloop, ?_, ?_⟩
      · rcases hact.ran.moves.connectionCalls with heq | ⟨-, heq, -⟩ | ⟨-, -, heq, -⟩
        · exact heq ▸ hcalls
        · simp [heq]
        · simp [heq]
      · rcases hact.ran.moves.closeCalls with heq | ⟨n, by_, -⟩
        · exact heq.trans hopen
        · refine absurd hactive (hdue.inactive ?_ ℓ)
          rcases by_ with ⟨ha, -⟩ | ⟨revents, read, ha, -⟩
          · exact .inl ha
          · exact .inr ⟨revents, read, ha⟩
    · exact h.active ℓ d k' hactive hd

/-! ## Runs on the loop's thread -/

/-- `~TcpServer` does not run, and whatever runs on a connection runs on its
loop's thread, but for the server's `removeConnectionInLoop`. -/
def OnLoopThread (w : World) (l : Label) : Prop :=
  l ≠ .destroyNext ∧ ∀ t c a k, w.action l = some (t, c, a) → w.conns c = some k →
    a ≠ .removeConnectionInLoop → t = some k.loop_

/-- The step handles an event that closes twice. -/
def ClosesTwice (w : World) : Label → Prop
  | .handleEvent ℓ read => ∃ c revents active,
      (w.loops ℓ).phase = .events ((c, revents) :: active) ∧ DoubleClose revents read
  | _ => False

theorem Once.slack (h : Once w) (hsound : Sound w) (hen : w.Enabled l) (hloop : OnLoopThread w l)
    (haction : w.action l = some (t, c, a)) (hact : Acted (w.prepare l) t c a w' k y)
    (ha : a = .destoryConnection ∨ a = .removeConnectionInLoop) :
    (w.prepare l).teardowns k + 1 ≤ k.log.closeCalls := by
  have hruns := action_runs haction
  cases hruns with
  | destroyNext destroying => exact absurd rfl hloop.1
  | @functor ℓ write f batch a phase act =>
      have hk : w.conns f.conn = some k := hact.before
      have hself := (hsound.ident _ k hk).1
      have haccounted := h.accounted _ k hk
      obtain ⟨hmem, hcount⟩ := functor_popped hen phase
      have hdestroy := prepare_queued hen k.loop_ (.destoryConnection k.self)
      have hremove := prepare_queued hen 0 (.removeConnectionInLoop k.self)
      unfold teardowns at *
      cases f with
      | destoryConnection d =>
          cases act
          have hℓ : some ℓ = some k.loop_ := hloop.2 _ _ _ k haction hk (by simp)
          cases hℓ
          have hself : k.self = d := hself
          rw [← hself] at hcount
          omega
      | removeConnectionInLoop d =>
          cases act
          have hℓ : ℓ = 0 := h.remove ℓ d hmem
          subst hℓ
          have hself : k.self = d := hself
          rw [← hself] at hcount
          omega
      | _ => rcases ha with rfl | rfl <;> cases act
  | _ => rcases ha with ha | ha <;> cases ha

theorem Once.inactive (h : Once w) (htidy : Tidy w) (hsound : Sound w) (hen : w.Enabled l)
    (hloop : OnLoopThread w l) (haction : w.action l = some (t, c, a))
    (hact : Acted (w.prepare l) t c a w' k y)
    (ha : a = .forceCloseInLoop ∨ ∃ revents read, a = .handleEvent revents read) (ℓ' : LoopId) :
    c ∉ ((w.prepare l).loops ℓ').phase.active := by
  intro hactive
  have hpre := h.prepare hsound htidy hen
  have hℓ' := (hpre.active ℓ' c k hactive hact.before).1
  have hruns := action_runs haction
  cases hruns with
  | @handleEvent ℓ read c revents active phase =>
      have hthere : (w.loops ℓ).phase.active = c :: active.map (·.1) := by
        simp [Phase.active, phase]
      have hℓ := (h.active ℓ c k (by rw [hthere]; exact List.mem_cons_self) hact.before).1
      rw [hℓ'] at hℓ
      subst hℓ
      have hrest :
          ((w.prepare (.handleEvent ℓ' read)).loops ℓ').phase.active = active.map (·.1) := by
        rw [World.prepare, onLoop_self]
        simp [EventLoop.beginEvent, Phase.active, phase]
      have hnodup := htidy.nodup ℓ'
      rw [phase] at hnodup
      rw [hrest] at hactive
      exact (List.nodup_cons.mp hnodup).1 hactive
  | @functor ℓ write f batch a phase act =>
      cases f with
      | forceCloseInLoop d =>
          cases act
          have hℓ : some ℓ = some k.loop_ := hloop.2 _ _ _ k haction hact.before (by simp)
          cases hℓ
          rw [← hℓ', World.prepare, onLoop_self] at hactive
          simp [EventLoop.popFunctor, Phase.active, phase] at hactive
      | _ => rcases ha with rfl | ⟨revents, read, rfl⟩ <;> cases act
  | _ => rcases ha with ha | ⟨revents, read, ha⟩ <;> cases ha

theorem Once.due (h : Once w) (hsound : Sound w) (htidy : Tidy w) (hann : Announced w)
    (hen : w.Enabled l) (hloop : OnLoopThread w l) (htwice : ¬ ClosesTwice w l)
    (haction : w.action l = some (t, c, a)) (hact : Acted (w.prepare l) t c a w' k y) :
    Due (w.prepare l) t c a k where
  self := ((hsound.prepare l).ident c k hact.before).1
  loop := by
    intro hne hne'
    rcases prepare_conns hact.before with hk | ⟨hc, -⟩
    · exact hloop.2 t c a k haction hk hne
    · -- only `establishConnection` runs on a new connection, and on its thread
      have hold : w.conns c ≠ some k := by simp [hc, hsound.next]
      have hruns := action_runs haction
      cases hruns with
      | accept => exact absurd rfl hne'
      | newConnection =>
          exact of_decide_eq_true (ConnRun.establishConnection_ok hact.returned).1
      | store handover =>
          have hk := hact.before
          simp only [World.prepare, World.advance, handover] at hk
          exact absurd hk hold
      | _ => exact absurd hact.before hold
  establish := fun ha => (hann.due hsound hen (action_runs haction) hact.before ha).2.1
  event := by
    intro revents read ha
    subst ha
    obtain ⟨ℓ, active, rfl, -, phase⟩ := (action_runs haction).handleEvent_inv
    refine ⟨(h.active ℓ c k ?_ hact.before).2, fun hdouble => ?_⟩
    · simp [Phase.active, phase]
    · exact htwice ⟨c, revents, active, phase, hdouble⟩
  slack := h.slack hsound hen hloop haction hact
  sendInLoop := by
    intro msg write ha
    subst ha
    obtain ⟨ℓ, batch, rfl, phase⟩ := (action_runs haction).sendInLoop_inv
    exact h.sendInLoop ℓ c msg (functor_popped hen phase).1
  shutdownInLoop := by
    intro ha
    subst ha
    obtain ⟨ℓ, write, batch, rfl, phase⟩ := (action_runs haction).shutdownInLoop_inv
    exact h.shutdownInLoop ℓ c (functor_popped hen phase).1
  store := by
    intro value ha
    subst ha
    obtain ⟨i, ℓ, f, -, handover⟩ := (action_runs haction).store_inv
    exact h.stores _ _ _ _ (List.mem_of_getElem? handover)
  inactive := h.inactive htidy hsound hen hloop haction hact

theorem Once.step (h : Once w) (hsound : Sound w) (htidy : Tidy w) (hann : Announced w)
    (hstep : reactor.Step w l w') (hloop : OnLoopThread w l) (htwice : ¬ ClosesTwice w l) :
    Once w' := by
  obtain ⟨hen, hstep⟩ := hstep
  rcases step_cases hstep with rfl | ⟨t, c, a, k, y, haction, hact⟩
  · exact h.prepare hsound htidy hen
  · exact (h.prepare hsound htidy hen).acted (hsound.prepare l) hact
      (h.due hsound htidy hann hen hloop htwice haction hact)

/-- A step that closes twice calls `closeCallback_` twice. -/
theorem ClosesTwice.step (htwice : ClosesTwice w l) (hstep : reactor.Step w l w') :
    ∃ c k, w'.conns c = some k ∧ 2 ≤ k.log.closeCalls := by
  cases l with
  | handleEvent ℓ read =>
      obtain ⟨c, revents, active, hphase, hdouble⟩ := htwice
      have haction : w.action (.handleEvent ℓ read) =
          some (some ℓ, c, .handleEvent revents read) := by
        simp [World.action, hphase]
      obtain ⟨k, y, hact⟩ := step_acted haction hstep.2
      refine ⟨c, y.conn, hact.after, ?_⟩
      rw [ConnRun.handleEvent_closeCalls hact.returned, (closings_eq_two_iff _ _).mpr hdouble]
      exact Nat.le_add_left 2 _
  | _ => cases htwice

end World

open World

/-- No connection has had two calls of `closeCallback_`, nor has or will one
have two calls of `destoryConnection`. -/
def ClosedOnce (w : World) : Prop :=
  ∀ c k, w.conns c = some k → k.log.closeCalls ≤ 1 ∧ w.teardowns k ≤ 1

/-- The invariants of a run on the loop's thread without such an event. -/
theorem reachable_once {server : TcpServer} {client : TcpClient} {ls : List Label} {w : World}
    (hrun : ((reactor.restrict OnLoopThread).restrict fun w l => ¬ ClosesTwice w l).Run
      (World.init server client) ls w) : Once w := by
  refine (hrun.invariant (I := fun w => Sound w ∧ Tidy w ∧ Announced w ∧ Once w)
    ⟨sound_init server client, tidy_init server client, announced_init server client,
      once_init server client⟩ fun v l v' h hstep => ?_).2.2.2
  obtain ⟨hsound, htidy, hann, honce⟩ := h
  obtain ⟨hstep, htwice⟩ := System.restrict_step.mp hstep
  obtain ⟨hstep, hloop⟩ := System.restrict_step.mp hstep
  exact ⟨hsound.step hstep, htidy.step hsound hstep, hann.step hsound hstep,
    honce.step hsound htidy hann hstep hloop htwice⟩

theorem World.Once.closedOnce {w : World} (h : Once w) : ClosedOnce w := fun c k hk =>
  have hle := (h.stage c k hk).closeCalls_le
  ⟨hle, (h.accounted c k hk).trans hle⟩

/-- A run on the loop's thread closes every connection at most once if and only
if it handles no event that closes twice. -/
theorem closedOnce_iff {server : TcpServer} {client : TcpClient} {ls : List Label} {w : World}
    (hrun : (reactor.restrict OnLoopThread).Run (World.init server client) ls w) :
    (∀ pre post v, ls = pre ++ post → reactor.Run (World.init server client) pre v →
      ClosedOnce v) ↔
    ((reactor.restrict OnLoopThread).restrict fun w l => ¬ ClosesTwice w l).Run
      (World.init server client) ls w := by
  constructor
  · intro honce
    rcases hrun.restrict_or_first fun w l => ¬ ClosesTwice w l with
      hall | ⟨pre, l, post, v, v', rfl, hpre, hstep, htwice, -⟩
    · exact hall
    · -- the first event that closes twice
      have hstep := (System.restrict_step.mp hstep).1
      obtain ⟨c, k, hk, htwo⟩ := (not_not.mp htwice).step hstep
      have hreach := hpre.of_restrict.of_restrict.append (.cons hstep (.nil v'))
      have hle := (honce (pre ++ [l]) post v' (by simp) hreach c k hk).1
      omega
  · intro hall pre post v hls hv
    subst hls
    obtain ⟨v', hpre, -⟩ := hall.split
    rw [hv.unique hpre.of_restrict.of_restrict]
    exact (reachable_once hpre).closedOnce

/-- The peer closes and the socket hangs up in one event, with input. -/
theorem closedOnce_hangup : ∃ ls w k,
    (reactor.restrict OnLoopThread).Run (World.init {} {}) ls w ∧ w.conns 0 = some k ∧
    k.log.closeCalls = 1 ∧ ClosedOnce w := by
  have hrun : ∃ w k,
      ((reactor.restrict OnLoopThread).restrict fun w l => ¬ ClosesTwice w l).Run
        (World.init {} {}) [.poll 0 [], .accept 7, .beginFunctors 0, .endFunctors 0,
          .poll 0 [(0, { epollin := true, epollhup := true, epollrdhup := true })],
          .handleEvent 0 .eof] w ∧ w.conns 0 = some k ∧ k.log.closeCalls = 1 := by
    refine ⟨_, _, .cons ⟨⟨⟨?_, ?_⟩, ?_⟩, rfl⟩ (.cons ⟨⟨⟨?_, ?_⟩, ?_⟩, rfl⟩
      (.cons ⟨⟨⟨?_, ?_⟩, ?_⟩, rfl⟩ (.cons ⟨⟨⟨?_, ?_⟩, ?_⟩, rfl⟩ (.cons ⟨⟨⟨?_, ?_⟩, ?_⟩, rfl⟩
      (.cons ⟨⟨⟨?_, ?_⟩, ?_⟩, rfl⟩ (.nil _)))))), rfl, rfl⟩
    · exact ⟨rfl, not_busy rfl rfl, .nil, by simp⟩
    · exact ⟨by simp, fun _ _ _ _ h => by cases h⟩
    · exact id
    · exact ⟨rfl, ⟨_, rfl⟩, not_busy rfl rfl, fun _ _ h => by cases h⟩
    · exact ⟨by simp, fun _ _ _ _ _ h => by cases h⟩
    · exact id
    · exact ⟨rfl, not_busy rfl rfl⟩
    · exact ⟨by simp, fun _ _ _ _ h => by cases h⟩
    · exact id
    · exact ⟨rfl, not_busy rfl rfl⟩
    · exact ⟨by simp, fun _ _ _ _ h => by cases h⟩
    · exact id
    · refine ⟨rfl, not_busy rfl rfl, by simp, fun a ha => ?_⟩
      cases List.mem_singleton.mp ha
      exact ⟨_, _, rfl, rfl⟩
    · exact ⟨by simp, fun _ _ _ _ h => by cases h⟩
    · exact id
    · exact ⟨⟨_, _, rfl⟩, not_busy rfl rfl, by simp⟩
    · refine ⟨by simp, fun t c a k haction hk _ => ?_⟩
      cases haction
      cases hk
      rfl
    · rintro ⟨c, revents, active, hphase, hdouble⟩
      cases hphase
      exact absurd hdouble.2.1 (by decide)
  obtain ⟨w, k, hrun, hk, hclosed⟩ := hrun
  exact ⟨_, w, k, hrun.of_restrict, hk, hclosed,
    (closedOnce_iff hrun.of_restrict).mpr hrun _ [] w (by simp) hrun.of_restrict.of_restrict⟩

/-- A hangup with the peer's half-close, and no input left. -/
theorem not_closedOnce_rdhup : ¬ ∀ ls w,
    (reactor.restrict OnLoopThread).Run (World.init {} {}) ls w → ClosedOnce w := by
  intro hlaw
  have hrun : ∃ w k,
      (reactor.restrict OnLoopThread).Run (World.init {} {}) [.poll 0 [], .accept 7,
        .beginFunctors 0, .endFunctors 0,
        .poll 0 [(0, { epollhup := true, epollrdhup := true })], .handleEvent 0 .eof] w ∧
      w.conns 0 = some k ∧ k.log.closeCalls = 2 := by
    refine ⟨_, _, .cons ⟨⟨?_, ?_⟩, rfl⟩ (.cons ⟨⟨?_, ?_⟩, rfl⟩ (.cons ⟨⟨?_, ?_⟩, rfl⟩
      (.cons ⟨⟨?_, ?_⟩, rfl⟩ (.cons ⟨⟨?_, ?_⟩, rfl⟩ (.cons ⟨⟨?_, ?_⟩, rfl⟩ (.nil _)))))), rfl, rfl⟩
    · exact ⟨rfl, not_busy rfl rfl, .nil, by simp⟩
    · exact ⟨by simp, fun _ _ _ _ h => by cases h⟩
    · exact ⟨rfl, ⟨_, rfl⟩, not_busy rfl rfl, fun _ _ h => by cases h⟩
    · exact ⟨by simp, fun _ _ _ _ _ h => by cases h⟩
    · exact ⟨rfl, not_busy rfl rfl⟩
    · exact ⟨by simp, fun _ _ _ _ h => by cases h⟩
    · exact ⟨rfl, not_busy rfl rfl⟩
    · exact ⟨by simp, fun _ _ _ _ h => by cases h⟩
    · refine ⟨rfl, not_busy rfl rfl, by simp, fun a ha => ?_⟩
      cases List.mem_singleton.mp ha
      exact ⟨_, _, rfl, rfl⟩
    · exact ⟨by simp, fun _ _ _ _ h => by cases h⟩
    · exact ⟨⟨_, _, rfl⟩, not_busy rfl rfl, by simp⟩
    · refine ⟨by simp, fun t c a k haction hk _ => ?_⟩
      cases haction
      cases hk
      rfl
  obtain ⟨w, k, hrun, hk, hclosed⟩ := hrun
  have hle := (hlaw _ w hrun 0 k hk).1
  omega

end Ham.Net
