import Ham.Net.MemberProgress
import Ham.Net.Registry

/-!
# A server at work

A `TcpServer` with any number of IO loops, while it stands and its connections
are called on the threads of their loops (`Proper`). `Standing` is what its
pointers rest on: whoever is in a queue, among the active channels, in
`channelMap_` or in the kernel's set exists, on that loop; and an epoller holds
of a channel what the channel holds of itself. From it every step returns
(`Standing.returns`), and every step keeps it (`Standing.step`), as long as no
connection is released before its `destoryConnection`.
-/

namespace Ham.Net

open Ham.Lib

/-- The connection that the user calls, and the thread of the call. -/
def Label.calls : Label → Option (Thread × ConnId)
  | .send t c _ _ | .shutdown t c | .forceClose t c => some (t, c)
  | _ => none

/-- A channel is new before `establishConnection` and behind `remove`. -/
def TcpConnection.Labelled (k : TcpConnection) : Prop :=
  k.channel_.status_ = .kNew ↔ k.log.connectionCalls = [] ∨ k.log.destroyed = true

theorem TcpConnection.Labelled.moves {a : Action} {k k' : TcpConnection} (h : k.Labelled)
    (hstage : Stage k) (hopen : k.log.closeCalls = 0 → k.log.destroyed = false)
    (hmoves : Moves a k k')
    (hestablish : a = .establishConnection ∨ a = .runEstablish → k.log.connectionCalls = [])
    (hevent : ∀ revents read, a = .handleEvent revents read → k.Up ∧ ¬ DoubleClose revents read)
    (hsend : ∀ msg write, a ≠ .sendInLoop msg write) : k'.Labelled := by
  have hsame : k'.channel_ = k.channel_ → SameLog k k' → k'.Labelled := by
    intro hchannel hlog
    unfold Labelled
    rw [hchannel, hlog.connectionCalls, hlog.destroyed]
    exact h
  -- a connection that is up has been established and not destroyed
  have hup : k.Up → k'.channel_.status_ ≠ .kNew →
      k'.log.connectionCalls = k.log.connectionCalls → k'.log.destroyed = k.log.destroyed →
      k'.Labelled := by
    intro hup hstatus hcalls hdestroyed
    refine iff_of_false hstatus ?_
    rintro (hnil | htrue)
    · exact hup.1 (hcalls.symm.trans hnil)
    · rw [hdestroyed, hopen hup.2] at htrue
      cases htrue
  cases hmoves with
  | idle life channel => exact hsame channel life.toSameLog
  | halfClose by_ idle state log channel => exact hsame channel log
  | disconnecting by_ before state log channel => exact hsame channel log
  | store value by_ state log channel => exact hsame channel log
  | rearm data write by_ rearms life channel =>
      rcases by_ with ha | ⟨-, hstate⟩
      · exact absurd ha (hsend data write)
      · refine hup (hstage.of_state (.inl hstate)).1 ?_ life.connectionCalls life.destroyed
        rw [channel, Channel.rewired_true_status]
        decide
  | drain revents left write by_ out drains log channel state =>
      obtain ⟨hup', hin, -⟩ := hstage.of_writing drains.1
      refine hup hup' ?_ log.connectionCalls log.destroyed
      rw [channel, Channel.rewired_status hin]
      decide
  | close n by_ pos state channel connectionCalls closeCalls destroyed =>
      obtain ⟨hup', hn⟩ : k.Up ∧ n = 1 := by
        rcases by_ with ⟨-, hn, hstate⟩ | ⟨revents, read, ha, hn⟩
        · exact ⟨(hstage.of_state hstate).1, hn⟩
        · obtain ⟨hup', honce⟩ := hevent revents read ha
          have hle := closings_le revents read
          rw [← closings_eq_two_iff] at honce
          exact ⟨hup', by omega⟩
      subst hn
      refine hup hup' ?_ connectionCalls destroyed
      rw [channel, Channel.disabled_status (hstage.of_up hup').2]
      decide
  | establish by_ state channel connectionCalls closeCalls destroyed =>
      have hnil := hestablish by_
      have hzero : k.log.closeCalls = 0 := by
        by_contra hclosed
        exact (hstage.of_closed (Nat.one_le_iff_ne_zero.mpr hclosed)).1 hnil
      refine iff_of_false ?_ ?_
      · rw [channel]
        show Epoller.nextStatus k.channel_.setReading ≠ _
        rw [Channel.nextStatus_setReading]
        decide
      · rw [connectionCalls, destroyed, hopen hzero]
        simp
  | stop by_ before state channel connectionCalls closeCalls destroyed =>
      exact iff_of_true (by rw [channel]) (.inr destroyed)
  | remove by_ before state channel connectionCalls closeCalls destroyed =>
      exact iff_of_true (by rw [channel]) (.inr destroyed)

namespace World

variable {w w' : World} {t : Thread} {c : ConnId} {a : Action} {k : TcpConnection} {y : ConnRun}
  {l : Label} {ℓ : LoopId}

/-- No client and no `~TcpServer` takes part, the user calls connections on the
threads of their loops, no event closes twice, and no accept takes the name of a
connection that is there. -/
structure Proper (w : World) (l : Label) : Prop where
  serverOnly : ServerOnly l
  stays : l ≠ .destroyServer
  home : ∀ t c k, l.calls = some (t, c) → w.conns c = some k → t = some k.loop_
  closes : ¬ ClosesTwice w l
  apart : ¬ Collides w l

structure Standing (w : World) : Prop where
  alive : w.server.alive = true
  whole : w.server.destroying = none
  callback : ∀ c k, w.conns c = some k → k.closeCallback_ = .server
  fds : ∀ c d k k', w.conns c = some k → w.conns d = some k' →
    k.channel_.fd_ = k'.channel_.fd_ → c = d
  holds : ∀ c k, w.conns c = some k → (w.loops k.loop_).epoller_.Holds k.channel_
  map : ∀ ℓ fd c, (w.loops ℓ).epoller_.channelMap_ fd = some c →
    ∃ k, w.conns c = some k ∧ k.loop_ = ℓ ∧ k.channel_.fd_ = fd
  queued : ∀ ℓ f, f ∈ w.queued ℓ → ∃ k, w.conns f.conn = some k ∧
    (f ≠ .removeConnectionInLoop f.conn → k.loop_ = ℓ)
  touched : ∀ ℓ c, c ∈ (w.loops ℓ).phase.touched → ∃ k, w.conns c = some k ∧ k.loop_ = ℓ
  labelled : ∀ c k, w.conns c = some k → k.Labelled

theorem standing_init (server : TcpServer) (client : TcpClient) :
    Standing (World.init server client) where
  alive := rfl
  whole := rfl
  callback := fun _ _ h => by cases h
  fds := fun _ _ _ _ h => by cases h
  holds := fun _ _ h => by cases h
  map := fun _ _ _ h => by cases h
  queued := fun _ _ h => by cases h
  touched := fun _ _ h => by cases h
  labelled := fun _ _ h => by cases h

/-! ## Every step returns -/

/-- Whatever runs on a connection runs on its loop's thread. -/
theorem Standing.onLoopThread (h : Standing w) (hsound : Sound w) (honce : Once w)
    (hen : w.Enabled l) (hproper : Proper w l) : OnLoopThread w l := by
  refine ⟨?_, fun t c a k haction hk hremove => ?_⟩
  · rintro rfl
    obtain ⟨c, rest, hdestroying⟩ := hen
    rw [h.whole] at hdestroying
    cases hdestroying
  have hruns := action_runs haction
  have hhere : ∀ k', w.conns c = some k' → k' = k := fun k' hk' => Option.some.inj (hk'.symm.trans hk)
  cases hruns with
  | @handleEvent ℓ read c revents active phase =>
      obtain ⟨k', hk', rfl⟩ := h.touched ℓ c (by simp [Phase.touched, phase])
      rw [hhere k' hk']
  | @handleEventWrite ℓ left write c revents inMessage active phase =>
      obtain ⟨k', hk', rfl⟩ := h.touched ℓ c (by simp [Phase.touched, phase])
      rw [hhere k' hk']
  | @functor ℓ write f batch a phase act =>
      obtain ⟨k', hk', hloop⟩ := h.queued ℓ f (functor_popped hen phase).1
      have hf : f ≠ .removeConnectionInLoop f.conn := by
        intro hf
        rw [hf] at act
        cases act
        exact hremove rfl
      rw [← hloop hf, hhere k' hk']
  | accept =>
      rw [hsound.next] at hk
      cases hk
  | newConnection => exact absurd hproper.serverOnly id
  | send => exact hproper.home _ _ _ rfl hk
  | shutdown => exact hproper.home _ _ _ rfl hk
  | forceClose => exact hproper.home _ _ _ rfl hk
  | store handover => exact absurd (List.mem_of_getElem? handover) (honce.stores _ _ _ _)
  | destroyNext destroying =>
      rw [h.whole] at destroying
      cases destroying
  | detach => exact absurd hproper.serverOnly id

/-- A new connection is one that the server accepts. -/
theorem prepare_new (hserver : ServerOnly l) (hk : (w.prepare l).conns c = some k) :
    w.conns c = some k ∨ ∃ fd, l = .accept fd ∧ c = w.nextConn ∧
      k = w.newTcpConnection w.server.getNextLoop.1 w.server.nextName fd .server
        w.server.writeCompleteCallback_ := by
  cases l with
  | accept fd =>
      have hk : Function.update w.conns w.nextConn (some (w.newTcpConnection
        w.server.getNextLoop.1 w.server.nextName fd .server w.server.writeCompleteCallback_)) c =
        some k := hk
      by_cases hc : c = w.nextConn
      · subst hc
        rw [Function.update_self] at hk
        exact .inr ⟨fd, rfl, rfl, (Option.some.inj hk).symm⟩
      · rw [Function.update_of_ne hc] at hk
        exact .inl hk
  | newConnection fd peer => exact absurd hserver id
  | advance i =>
      simp only [World.prepare, World.advance] at hk
      split at hk <;> exact .inl hk
  | release d =>
      simp only [World.prepare] at hk
      split at hk
      · exact .inl hk
      · have hk : Function.update w.conns d none c = some k := hk
        by_cases hcd : c = d
        · subst hcd
          simp at hk
        · rw [Function.update_of_ne hcd] at hk
          exact .inl hk
  | _ => exact .inl hk

/-! ## The bookkeeping -/

/-- The connection is destroyed, and no queue and no poll knows it. -/
structure Forgotten (w : World) (c : ConnId) : Prop where
  destroyed : ∀ k, w.conns c = some k → k.log.destroyed = true
  queued : ∀ ℓ f, f ∈ w.queued ℓ → f.conn ≠ c
  touched : ∀ ℓ, c ∉ (w.loops ℓ).phase.touched

theorem prepare_whole (halive : w.server.alive = true) (hwhole : w.server.destroying = none)
    (hen : w.Enabled l) (hstays : l ≠ .destroyServer) :
    (w.prepare l).server.alive = true ∧ (w.prepare l).server.destroying = none := by
  cases l with
  | accept fd =>
      refine ⟨(newConnectionCallback_server w fd).2.2.2.trans halive, ?_⟩
      show w.server.getNextLoop.2.destroying = none
      unfold TcpServer.getNextLoop
      split <;> exact hwhole
  | advance i =>
      rw [show (w.prepare (.advance i)).server = w.server from advance_server w i]
      exact ⟨halive, hwhole⟩
  | release d =>
      rw [release_server]
      exact ⟨halive, hwhole⟩
  | destroyServer => exact absurd rfl hstays
  | destroyNext =>
      obtain ⟨c, rest, hdestroying⟩ := hen
      rw [hwhole] at hdestroying
      cases hdestroying
  | destroyServerEnd => cases hwhole.symm.trans hen
  | _ => exact ⟨halive, hwhole⟩

/-- The bookkeeping leaves the epollers alone, but for a released descriptor. -/
theorem prepare_epoller (ℓ : LoopId) :
    ((w.prepare l).loops ℓ).epoller_ = (w.loops ℓ).epoller_ ∨
    ∃ c k, l = .release c ∧ w.conns c = some k ∧
      ((w.prepare l).loops ℓ).epoller_.channelMap_ = (w.loops ℓ).epoller_.channelMap_ ∧
      Epoller.Frame k.channel_.fd_ (w.loops ℓ).epoller_ ((w.prepare l).loops ℓ).epoller_ := by
  cases l with
  | poll ℓ₀ active => exact .inl (onLoop_same rfl)
  | handleEvent ℓ₀ read =>
      refine .inl (onLoop_same ?_)
      unfold EventLoop.beginEvent
      split <;> rfl
  | handleEventWrite ℓ₀ left write =>
      refine .inl (onLoop_same ?_)
      unfold EventLoop.endEvent
      split <;> rfl
  | beginFunctors ℓ₀ => exact .inl (onLoop_same rfl)
  | runFunctor ℓ₀ write =>
      refine .inl (onLoop_same ?_)
      unfold EventLoop.popFunctor
      split <;> rfl
  | endFunctors ℓ₀ => exact .inl (onLoop_same rfl)
  | advance i =>
      refine .inl ?_
      simp only [World.prepare, World.advance]
      split
      · rfl
      · rfl
      · exact onLoop_same rfl
  | release c =>
      cases hk : w.conns c with
      | none => simp [World.prepare, hk]
      | some k =>
          refine .inr ⟨c, k, rfl, hk, ?_, fun fd hfd => ?_⟩
          · simp only [World.prepare, hk]
            exact onLoop_same (g := fun e => e.epoller_.channelMap_) rfl
          · simp only [World.prepare, hk]
            refine ⟨onLoop_same (g := fun e => e.epoller_.kernel fd) ?_,
              onLoop_same (g := fun e => e.epoller_.channelMap_ fd) rfl⟩
            exact Function.update_of_ne hfd _ _
  | _ => exact .inl rfl

/-- A new connection's descriptor is in no epoller. -/
theorem Standing.new_holds (h : Standing w) (hsound : Sound w) {fd : Fd} (hfresh : w.FreshFd fd)
    (ℓ : LoopId) : (w.loops ℓ).epoller_.Holds { self := w.nextConn, fd_ := fd } where
  kernel := by
    rw [if_neg (by simp)]
    refine Option.eq_none_iff_forall_ne_some.mpr fun entry hentry => ?_
    obtain ⟨k, hk, -, hfd, -⟩ := hsound.kernel ℓ fd entry.1 entry.2 hentry
    exact hfresh _ k hk hfd
  map := by
    rw [if_pos rfl]
    refine Option.eq_none_iff_forall_ne_some.mpr fun d hd => ?_
    obtain ⟨k, hk, -, hfd⟩ := h.map ℓ fd d hd
    exact hfresh d k hk hfd

theorem Standing.prepare (h : Standing w) (hsound : Sound w) (hen : w.Enabled l)
    (hproper : Proper w l) (hforgotten : ∀ c, l = .release c → Forgotten w c) :
    Standing (w.prepare l) := by
  have hwhole := prepare_whole h.alive h.whole hen hproper.stays
  -- who is there stays, but for a forgotten connection
  have hstays : ∀ c k, w.conns c = some k → l ≠ .release c → (w.prepare l).conns c = some k := by
    intro c k hk hl
    refine prepare_keeps hk ?_ hl
    rintro rfl
    rw [hsound.next] at hk
    cases hk
  refine ⟨hwhole.1, hwhole.2, ?_, ?_, ?_, ?_, ?_, ?_, ?_⟩
  · intro c k hk
    rcases prepare_new hproper.serverOnly hk with hk | ⟨fd, -, -, rfl⟩
    · exact h.callback c k hk
    · rfl
  · intro c d k k' hk hk' hfd
    rcases prepare_new hproper.serverOnly hk with hc | ⟨fd, rfl, rfl, rfl⟩
    · rcases prepare_new hproper.serverOnly hk' with hd | ⟨fd, rfl, rfl, rfl⟩
      · exact h.fds c d k k' hc hd hfd
      · exact absurd hfd (hen.2.2.2 c k hc)
    · rcases prepare_new hproper.serverOnly hk' with hd | ⟨-, -, rfl, -⟩
      · exact absurd hfd.symm (hen.2.2.2 d k' hd)
      · rfl
  · intro c k hk
    rcases prepare_epoller (w := w) (l := l) k.loop_ with hsame | ⟨d, k₀, rfl, hk₀, -, hframe⟩
    · rw [hsame]
      rcases prepare_new hproper.serverOnly hk with hk | ⟨fd, rfl, rfl, rfl⟩
      · exact h.holds c k hk
      · exact h.new_holds hsound hen.2.2.2 _
    · have hold := (prepare_new hproper.serverOnly hk).resolve_right (by simp)
      refine (h.holds c k hold).of_frame hframe fun hfd => ?_
      have hcd := h.fds c d k k₀ hold hk₀ hfd
      subst hcd
      simp [World.prepare, hk₀, onLoop] at hk
  · intro ℓ fd c hmap
    have hold : (w.loops ℓ).epoller_.channelMap_ fd = some c := by
      rcases prepare_epoller (w := w) (l := l) ℓ with hsame | ⟨-, -, -, -, hsame, -⟩
      · rwa [hsame] at hmap
      · rwa [hsame] at hmap
    obtain ⟨k, hk, hloop, hfd⟩ := h.map ℓ fd c hold
    refine ⟨k, hstays c k hk ?_, hloop, hfd⟩
    rintro rfl
    -- a destroyed channel is in no map
    have hnew := (h.labelled c k hk).mpr (.inr ((hforgotten c rfl).destroyed k hk))
    have hnone := (h.holds c k hk).map
    rw [if_pos hnew, hloop, hfd, hold] at hnone
    cases hnone
  · intro ℓ f hf
    have hold := prepare_queued_mem hen hf
    obtain ⟨k, hk, hloop⟩ := h.queued ℓ f hold
    exact ⟨k, hstays _ k hk fun hl => (hforgotten _ hl).queued ℓ f hold rfl, hloop⟩
  · intro ℓ c hc
    rcases prepare_touched hen ℓ with ⟨active, rfl, hphase⟩ | hsub
    · -- the kernel knows connections that are there
      rw [hphase] at hc
      obtain ⟨e, he, rfl⟩ := List.mem_map.mp hc
      obtain ⟨k₀, events, hk₀, hkernel⟩ := hen.2.2.2 e he
      obtain ⟨k, hk, hloop, -⟩ := hsound.kernel ℓ _ events e.1 hkernel
      exact ⟨k, hk, hloop⟩
    · have hold := hsub.mem hc
      obtain ⟨k, hk, hloop⟩ := h.touched ℓ c hold
      exact ⟨k, hstays c k hk fun hl => (hforgotten c hl).touched ℓ hold, hloop⟩
  · intro c k hk
    rcases prepare_new hproper.serverOnly hk with hk | ⟨fd, -, -, rfl⟩
    · exact h.labelled c k hk
    · exact iff_of_true rfl (.inl rfl)

/-! ## One action -/

/-- What an action of such a step finds. -/
structure Runnable (w : World) (t : Thread) (c : ConnId) (a : Action) (k : TcpConnection) :
    Prop where
  conn : w.conns c = some k
  self : k.self = c
  channelSelf : k.channel_.self = c
  loop : a ≠ .removeConnectionInLoop → a ≠ .runEstablish → t = some k.loop_
  base : a = .removeConnectionInLoop → t = some 0
  detach : ∀ unique, a ≠ .detach unique
  fits : a.Fits k
  removable : a = .destoryConnection →
    k.channel_.isNoneEvent = true ∧ k.channel_.status_ ≠ .kNew

/-- The member function returns. -/
theorem Runnable.run_returns (hrun : Runnable w t c a k) (h : Standing w) :
    ∃ y, a.run ⟨t, (w.loops k.loop_).epoller_, k, []⟩ = .ok y ∧
      y.epoller.Holds y.conn.channel_ ∧
      Epoller.Frame k.channel_.fd_ (w.loops k.loop_).epoller_ y.epoller := by
  refine Action.run_returns (x := ⟨t, (w.loops k.loop_).epoller_, k, []⟩)
    (h.holds c k hrun.conn) (fun hremove hestablish => ?_) hrun.fits
    fun ha => .inr (hrun.removable ha)
  exact decide_eq_true (hrun.loop hremove hestablish)

/-- And so do its effects. -/
theorem effects_return {es : List Effect} (halive : w.server.alive = true)
    (hcb : k.closeCallback_ = .server) (hbase : .removeConnectionInLoop ∈ es → t = some 0) :
    ∃ w', es.foldlM (effect t k) w = .ok w' := by
  induction es generalizing w with
  | nil => exact ⟨w, rfl⟩
  | cons e es ih =>
      have hremove : t = some 0 → ∃ v, w.removeConnectionInLoop t k = .ok v := by
        intro ht
        unfold removeConnectionInLoop
        rw [if_neg (not_not.mpr halive), if_neg (not_not.mpr ht)]
        exact ⟨_, rfl⟩
      obtain ⟨v, hv⟩ : ∃ v, effect t k w e = .ok v := by
        cases e with
        | queueInLoop f => exact ⟨_, rfl⟩
        | storeThenQueue state f => exact ⟨_, rfl⟩
        | removeConnectionInLoop => exact hremove (hbase List.mem_cons_self)
        | closeCallback =>
            simp only [effect, closeCallback, hcb]
            rw [if_neg (not_not.mpr halive)]
            split
            · exact hremove ‹_›
            · exact ⟨_, rfl⟩
      rw [List.foldlM_cons, hv, ok_bind]
      exact ih ((effect_effected hv).alive.trans halive) fun hmem =>
        hbase (List.mem_cons_of_mem e hmem)

theorem Runnable.returns (hrun : Runnable w t c a k) (h : Standing w) :
    ∃ w', w.onConn t c a = .ok w' := by
  obtain ⟨y, hy, -, -⟩ := hrun.run_returns h
  have hran := Action.run_spec hy
  have hcb : y.conn.closeCallback_ = .server := by
    rcases hran.closeCb with hsame | ⟨unique, ha⟩
    · exact hsame.trans (h.callback c k hrun.conn)
    · exact absurd ha (hrun.detach unique)
  unfold onConn
  rw [hrun.conn]
  simp only [hy, ok_bind]
  refine effects_return h.alive hcb fun hmem => hrun.base ?_
  obtain ⟨es, hes, hof, -⟩ := hran.effects
  rw [List.nil_append] at hes
  rcases hof _ (hes ▸ hmem) with habout | ⟨-, heq, -⟩ | ⟨ha, -⟩
  · cases habout
  · cases heq
  · exact ha

/-- The action of a step is one that can run. -/
theorem Standing.runnable (h : Standing w) (hsound : Sound w) (honce : Once w)
    (hen : w.Enabled l) (hproper : Proper w l) (haction : w.action l = some (t, c, a)) :
    ∃ k, Runnable (w.prepare l) t c a k := by
  have hruns := action_runs haction
  have honloop := h.onLoopThread hsound honce hen hproper
  -- who is acted on is there, or has just been accepted
  have hthere : (∃ k, w.conns c = some k) ∨ ∃ fd, l = .accept fd ∧ a = .runEstablish ∧
      c = w.nextConn := by
    cases hruns with
    | @handleEvent ℓ read c revents active phase =>
        exact .inl ((h.touched ℓ c (by simp [Phase.touched, phase])).imp fun _ hk => hk.1)
    | @handleEventWrite ℓ left write c revents inMessage active phase =>
        exact .inl ((h.touched ℓ c (by simp [Phase.touched, phase])).imp fun _ hk => hk.1)
    | @functor ℓ write f batch a phase act =>
        exact .inl ((h.queued ℓ f (functor_popped hen phase).1).imp fun _ hk => hk.1)
    | accept => exact .inr ⟨_, rfl, rfl, rfl⟩
    | newConnection => exact absurd hproper.serverOnly id
    | send => exact .inl (Option.ne_none_iff_exists'.mp hen.2.1)
    | shutdown => exact .inl (Option.ne_none_iff_exists'.mp hen.2)
    | forceClose => exact .inl (Option.ne_none_iff_exists'.mp hen.2)
    | store handover => exact absurd (List.mem_of_getElem? handover) (honce.stores _ _ _ _)
    | destroyNext destroying =>
        rw [h.whole] at destroying
        cases destroying
    | detach => exact absurd hproper.serverOnly id
  have hdetach : ∀ unique, a ≠ .detach unique := by
    rintro unique rfl
    have hl := hruns.detach_inv
    subst hl
    exact hproper.serverOnly
  rcases hthere with ⟨k, hk⟩ | ⟨fd, rfl, rfl, rfl⟩
  · have hconn : (w.prepare l).conns c = some k := by
      refine prepare_keeps hk (fun hc => ?_) fun hl => ?_
      · rw [hc, hsound.next] at hk
        cases hk
      · subst hl
        cases haction
    obtain ⟨hself, hchannelSelf⟩ := hsound.ident c k hk
    refine ⟨k, hconn, hself, hchannelSelf,
      fun hremove _ => honloop.2 t c a k haction hk hremove, ?_, hdetach, ?_, ?_⟩
    · rintro rfl
      obtain ⟨ℓ, write, batch, rfl, phase⟩ := hruns.removeConnectionInLoop_inv
      have hℓ := honce.remove ℓ c (functor_popped hen phase).1
      subst hℓ
      cases hruns
      rfl
    · cases a with
      | handleEventWrite revents left write =>
          obtain ⟨ℓ, inMessage, active, rfl, phase⟩ := hruns.handleEventWrite_inv
          obtain ⟨d, _, _, _, k', hphase, -, -, hk', hwithin⟩ := hen
          cases hphase.symm.trans phase
          cases hk'.symm.trans hk
          exact hwithin
      | _ => trivial
    · rintro rfl
      -- the functor has a close behind it
      cases hruns with
      | @functor ℓ write f batch a phase act =>
          cases f with
          | destoryConnection d =>
              have hmem := (functor_popped hen phase).1
              have hℓ : some ℓ = some k.loop_ := honloop.2 _ _ _ k haction hk (by simp)
              cases hℓ
              have haccounted := honce.accounted d k hk
              have hcount := List.count_pos_iff.mpr hmem
              have hd : k.self = d := hself
              rw [← hd] at hcount
              unfold teardowns at haccounted
              obtain ⟨hcalls, hclosed, -, hnone⟩ := (honce.stage d k hk).of_closed (by omega)
              refine ⟨by simp [Channel.isNoneEvent, hnone], fun hnew => ?_⟩
              rcases (h.labelled d k hk).mp hnew with hnil | hdestroyed
              · exact hcalls hnil
              · rw [hdestroyed, Bool.toNat_true] at haccounted
                omega
          | _ => cases act
      | destroyNext destroying =>
          rw [h.whole] at destroying
          cases destroying
  · refine ⟨_, Function.update_self _ _ _, rfl, rfl, fun _ hne => absurd rfl hne, by simp, hdetach,
      trivial, by simp⟩

/-- Every step returns. -/
theorem Standing.returns (h : Standing w) (hpre : Standing (w.prepare l)) (hsound : Sound w)
    (honce : Once w) (hen : w.Enabled l) (hproper : Proper w l) : ∃ w', w.step l = .ok w' := by
  unfold step
  cases haction : w.action l with
  | none => exact ⟨_, rfl⟩
  | some act =>
      obtain ⟨t, c, a⟩ := act
      obtain ⟨k, hrun⟩ := h.runnable hsound honce hen hproper haction
      exact hrun.returns hpre

/-! ## What a step keeps -/

/-- A connection behind an action was there before, with its loop and its
descriptor, -/
theorem Acted.origin (hact : Acted w t c a w' k y) {d : ConnId} {k' : TcpConnection}
    (hd : w'.conns d = some k') : ∃ k₀, w.conns d = some k₀ ∧ k'.loop_ = k₀.loop_ ∧
      k'.channel_.fd_ = k₀.channel_.fd_ := by
  rcases hact.cases hd with ⟨rfl, rfl⟩ | ⟨-, hd⟩
  · exact ⟨k, hact.before, hact.ran.loop, hact.ran.fd⟩
  · exact ⟨k', hd, rfl, rfl⟩

/-- and stays there. -/
theorem Acted.there (hact : Acted w t c a w' k y) {d : ConnId} {k₀ : TcpConnection}
    (hd : w.conns d = some k₀) : ∃ k', w'.conns d = some k' ∧ k'.loop_ = k₀.loop_ ∧
      k'.channel_.fd_ = k₀.channel_.fd_ := by
  by_cases hdc : d = c
  · subst hdc
    cases hact.before.symm.trans hd
    exact ⟨y.conn, hact.after, hact.ran.loop, hact.ran.fd⟩
  · exact ⟨k₀, by rw [hact.conns, Function.update_of_ne hdc, hd], rfl, rfl⟩

/-- No close, no `destoryConnection`. -/
theorem Once.not_destroyed (h : Once w) (hk : w.conns c = some k) (hopen : k.log.closeCalls = 0) :
    k.log.destroyed = false := by
  have haccounted := h.accounted c k hk
  unfold teardowns at haccounted
  exact Bool.toNat_eq_zero.mp (by omega)

theorem Standing.acted (h : Standing w) (honce : Once w) (hdue : Due w t c a k)
    (hrun : Runnable w t c a k) (hact : Acted w t c a w' k y) : Standing w' := by
  obtain ⟨y', hy', hholds, hframe⟩ := hrun.run_returns h
  cases hact.returned.symm.trans hy'
  have hloop : y.conn.loop_ = k.loop_ := hact.ran.loop
  have hfd : y.conn.channel_.fd_ = k.channel_.fd_ := hact.ran.fd
  refine ⟨hact.alive.trans h.alive, hact.destroying.trans h.whole, ?_, ?_, ?_, ?_, ?_, ?_, ?_⟩
  · intro d k' hd
    rcases hact.cases hd with ⟨rfl, rfl⟩ | ⟨-, hd⟩
    · rcases hact.ran.closeCb with hsame | ⟨unique, ha⟩
      · exact hsame.trans (h.callback d k hact.before)
      · exact absurd ha (hrun.detach unique)
    · exact h.callback d k' hd
  · intro d e k₁ k₂ hd he hsame
    obtain ⟨k₃, hk₃, -, hfd₁⟩ := hact.origin hd
    obtain ⟨k₄, hk₄, -, hfd₂⟩ := hact.origin he
    exact h.fds d e k₃ k₄ hk₃ hk₄ (hfd₁.symm.trans (hsame.trans hfd₂))
  · intro d k' hd
    rw [hact.epoller]
    rcases hact.cases hd with ⟨rfl, rfl⟩ | ⟨hdc, hd⟩
    · rw [if_pos hloop]
      exact hholds
    · split
      · rename_i hsame
        refine (hsame ▸ h.holds d k' hd).of_frame hframe fun hfds => hdc ?_
        exact h.fds d c k' k hd hact.before hfds
      · exact h.holds d k' hd
  · intro ℓ fd d hmap
    rw [hact.epoller] at hmap
    have hold : (w.loops ℓ).epoller_.channelMap_ fd = some d →
        ∃ k', w'.conns d = some k' ∧ k'.loop_ = ℓ ∧ k'.channel_.fd_ = fd := by
      intro hmap
      obtain ⟨k₀, hk₀, rfl, rfl⟩ := h.map ℓ fd d hmap
      exact hact.there hk₀
    split at hmap
    · rename_i hℓ
      by_cases hown : fd = k.channel_.fd_
      · -- under its own descriptor an epoller holds the channel or nothing
        have hself : y.conn.channel_.self = c := hact.ran.channelSelf.trans hrun.channelSelf
        have hentry := hholds.map
        rw [hfd, ← hown, hmap, hself] at hentry
        split at hentry
        · cases hentry
        · cases hentry
          exact ⟨y.conn, hact.after, hloop.trans hℓ.symm, hfd.trans hown.symm⟩
      · rw [(hframe fd hown).2] at hmap
        exact hold (hℓ ▸ hmap)
    · exact hold hmap
  · intro ℓ f hf
    rcases hact.queued_cases hf with hf | hadd
    · obtain ⟨k₀, hk₀, hqueue⟩ := h.queued ℓ f hf
      obtain ⟨k', hk', hloop', -⟩ := hact.there hk₀
      exact ⟨k', hk', fun hne => hloop'.trans (hqueue hne)⟩
    · refine ⟨y.conn, ?_, fun hne => hloop.trans ?_⟩
      · rw [hadd.conn, hrun.self]
        exact hact.after
      · cases f with
        | removeConnectionInLoop d => exact absurd rfl hne
        | establishConnection d => exact hadd.2.1.symm
        | destoryConnection d => exact hadd.2.1.symm
        | sendInLoop d msg => exact hadd.2.1.symm
        | shutdownInLoop d => exact hadd.2.1.symm
        | forceCloseInLoop d => exact hadd.2.symm
        | writeCompleteCallback d => exact hadd.2.symm
        | highWaterMarkCallback d size => exact hadd.2.symm
  · intro ℓ d hd
    rw [hact.phase] at hd
    obtain ⟨k₀, hk₀, rfl⟩ := h.touched ℓ d hd
    obtain ⟨k', hk', hloop', -⟩ := hact.there hk₀
    exact ⟨k', hk', hloop'⟩
  · intro d k' hd
    rcases hact.cases hd with ⟨rfl, rfl⟩ | ⟨-, hd⟩
    · exact (h.labelled d k hact.before).moves (honce.stage d k hact.before)
        (honce.not_destroyed hact.before) hact.ran.moves hdue.establish hdue.event
        hdue.sendInLoop
    · exact h.labelled d k' hd

theorem Standing.step (h : Standing w) (hsound : Sound w) (htidy : Tidy w) (hann : Announced w)
    (honce : Once w) (hstep : reactor.Step w l w') (hproper : Proper w l)
    (hforgotten : ∀ c, l = .release c → Forgotten w c) : Standing w' := by
  obtain ⟨hen, hstep⟩ := hstep
  have hpre := h.prepare hsound hen hproper hforgotten
  rcases step_cases hstep with rfl | ⟨t, c, a, k, y, haction, hact⟩
  · exact hpre
  · obtain ⟨k', hrun⟩ := h.runnable hsound honce hen hproper haction
    cases hact.before.symm.trans hrun.conn
    exact hpre.acted (honce.prepare hsound htidy hen)
      (honce.due hsound htidy hann hen (h.onLoopThread hsound honce hen hproper) hproper.closes
        haction hact) hrun hact

end World

end Ham.Net
