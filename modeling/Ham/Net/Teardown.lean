import Ham.Net.CloseOnce

/-!
# Teardown on the server's own loop

`destoryConnection` trusts `state_` to know whether the interest of the channel
was cleared, and the queue to hold it once. With a server that has no IO
threads, four kinds of steps break that trust (`Upsets`); a run without them
reaches `channel_->remove()` only with a channel that has no interest left and
is registered (`teardown_safe`).
-/

namespace Ham.Net

open Ham.Lib

/-! ## Watched connections -/

/-- A connection that is connected or disconnecting watches for input, and who
watches for input is in the kernel's set. -/
structure TcpConnection.Watched (k : TcpConnection) : Prop where
  open_ : k.state_ = .kConnected ∨ k.state_ = .kDisconnecting → k.channel_.event_.epollin = true
  input : k.channel_.event_.epollin = true → k.channel_.status_ = .kAdded

theorem TcpConnection.Watched.moves {a : Action} {k k' : TcpConnection} (h : k.Watched)
    (hmoves : Moves a k k')
    (hstore : ∀ value, a = .store value → k.channel_.event_.epollin = true)
    (hdestroy : a = .destoryConnection → k.state_ = .kConnected ∨
      (k.state_ = .kDisconnected ∧ k.channel_.event_ = Channel.kNoneEvent_)) : k'.Watched := by
  -- a channel that stays, and one that is rewired
  have hsame : k'.channel_ = k.channel_ →
      (k'.state_ = .kConnected ∨ k'.state_ = .kDisconnecting →
        k.channel_.event_.epollin = true) → k'.Watched :=
    fun hchannel hin => ⟨fun hstate => hchannel ▸ hin hstate, hchannel ▸ h.input⟩
  have hrewired : ∀ on, k'.channel_ = k.channel_.rewired on →
      (k'.state_ = .kConnected ∨ k'.state_ = .kDisconnecting →
        k.channel_.event_.epollin = true) → k'.Watched := by
    intro on hchannel hin
    refine ⟨fun hstate => ?_, fun hin' => ?_⟩
    · rw [hchannel]
      exact hin hstate
    · rw [hchannel] at hin' ⊢
      have hin' : k.channel_.event_.epollin = true := hin'
      exact Channel.rewired_status hin' on
  -- a connection that has left for good
  have hdown : k'.state_ = .kDisconnected → k'.channel_.event_ = Channel.kNoneEvent_ →
      k'.Watched := by
    intro hstate hnone
    refine ⟨fun hopen => ?_, fun hin => ?_⟩
    · rcases hopen with hopen | hopen <;> simp [hstate] at hopen
    · rw [hnone] at hin
      cases hin
  cases hmoves with
  | idle life channel => exact hsame channel fun hstate => h.open_ (life.state ▸ hstate)
  | rearm data write by_ rearms life channel =>
      exact hrewired true channel fun hstate => h.open_ (life.state ▸ hstate)
  | drain revents left write by_ out drains log channel state =>
      refine hrewired false channel fun hstate => h.open_ ?_
      rw [state] at hstate
      split at hstate
      · exact .inr ‹_›
      · exact hstate
  | close n by_ pos state channel =>
      exact hdown state (by rw [channel]; exact Channel.disabled_event _ pos)
  | halfClose by_ idle state log channel =>
      refine hsame channel fun hopen => ?_
      rcases hopen with hopen | hopen <;> simp [state] at hopen
  | disconnecting by_ before state log channel => exact hsame channel fun _ => h.open_ before
  | store value by_ state log channel => exact hsame channel fun _ => hstore value by_
  | establish by_ state channel =>
      refine ⟨fun _ => ?_, fun _ => ?_⟩
      · rw [channel]
        rfl
      · rw [channel]
        exact Channel.nextStatus_setReading _
  | stop by_ before state channel => exact hdown state (by rw [channel]; rfl)
  | remove by_ before state channel =>
      rcases hdestroy by_ with hconnected | ⟨hstate, hnone⟩
      · exact absurd hconnected before
      · exact hdown (state.trans hstate) (by rw [channel]; exact hnone)

namespace World

variable {w w' : World} {t : Thread} {c : ConnId} {a : Action} {k : TcpConnection} {y : ConnRun}
  {l : Label}

/-! ## Steps that upset a teardown -/

/-- No `TcpClient` takes part. -/
def ServerOnly : Label → Prop
  | .newConnection _ _ | .newConnectionReturn | .destroyClient _ => False
  | _ => True

/-- The steps that upset a teardown:
* `~TcpServer` destroys a connection that has left `kConnected` (half-closed, or
  on its way there) but not its interest;
* an event closes its connection twice;
* a `sendInLoop` queued by another thread leaves bytes to a connection whose
  `destoryConnection` is queued;
* `shutdown` or `forceClose` on another thread stores to `state_` after the loop
  has closed the connection. -/
def Upsets (w : World) : Label → Prop
  | .destroyNext => ∃ c rest k, w.server.destroying = some (c :: rest) ∧ w.conns c = some k ∧
      k.state_ ≠ .kConnected
  | .handleEvent ℓ read => ∃ c revents active,
      (w.loops ℓ).phase = .events ((c, revents) :: active) ∧ DoubleClose revents read
  | .runFunctor ℓ write => ∃ c msg batch k,
      (w.loops ℓ).phase = .functors (.sendInLoop c msg :: batch) ∧ w.conns c = some k ∧
      .destoryConnection c ∈ w.queued 0 ∧ Rearms k msg write
  | .advance i => ∃ c state ℓ f k, w.handovers[i]? = some (.store c state ℓ f) ∧
      w.conns c = some k ∧ k.channel_.event_.epollin = false
  | _ => False

/-! ## The invariant -/

structure Safe (w : World) : Prop where
  threads : w.server.numOfThreads_ = 0
  home : ∀ c k, w.conns c = some k → k.loop_ = 0 ∧ k.closeCallback_ = .server
  once : ∀ c, (w.queued 0).count (.destoryConnection c) ≤ 1
  /-- Between the close and `destoryConnection` the channel stays dismissed. -/
  down : ∀ c k, w.conns c = some k → .destoryConnection c ∈ w.queued 0 →
    k.state_ = .kDisconnected ∧ k.channel_.event_ = Channel.kNoneEvent_ ∧
    k.channel_.status_ = .kDismissed
  watched : ∀ c k, w.conns c = some k → k.Watched
  /-- While the server stands, an active channel is in the kernel's set. -/
  active : w.server.alive = true → w.server.destroying = none →
    ∀ c k, c ∈ (w.loops 0).phase.active → w.conns c = some k → k.channel_.status_ = .kAdded
  elsewhere : ∀ ℓ, ℓ ≠ 0 → (w.loops ℓ).phase.touched = []
  establish : ∀ ℓ c, .establishConnection c ∉ w.queued ℓ
  remove : ∀ ℓ c, .removeConnectionInLoop c ∉ w.queued ℓ

theorem safe_init {server : TcpServer} (client : TcpClient) (h : server.numOfThreads_ = 0) :
    Safe (World.init server client) where
  threads := h
  home := fun _ _ h => by cases h
  once := fun _ => Nat.zero_le _
  down := fun _ _ h => by cases h
  watched := fun _ _ h => by cases h
  active := fun _ _ _ _ h => by cases h
  elsewhere := fun _ _ => rfl
  establish := fun _ _ h => by cases h
  remove := fun _ _ h => by cases h

theorem getNextLoop_self {server : TcpServer} (h : server.numOfThreads_ = 0) :
    server.getNextLoop = (0, server) := if_pos h

theorem advance_server (w : World) (i : Nat) : (w.advance i).server = w.server := by
  unfold advance
  split <;> rfl

theorem release_server (w : World) (d : ConnId) : (w.prepare (.release d)).server = w.server := by
  simp only [World.prepare]
  split <;> rfl

theorem prepare_threads (h : w.server.numOfThreads_ = 0) (l : Label) :
    (w.prepare l).server.numOfThreads_ = 0 := by
  cases l with
  | accept fd =>
      show w.server.getNextLoop.2.numOfThreads_ = 0
      rw [getNextLoop_self h]
      exact h
  | advance i => exact (congrArg TcpServer.numOfThreads_ (advance_server w i)).trans h
  | release d => exact (congrArg TcpServer.numOfThreads_ (release_server w d)).trans h
  | _ => exact h

/-- The server stands behind the bookkeeping only if it stood before. -/
theorem prepare_serving (hthreads : w.server.numOfThreads_ = 0)
    (halive : (w.prepare l).server.alive = true)
    (hnone : (w.prepare l).server.destroying = none) :
    w.server.alive = true ∧ w.server.destroying = none := by
  cases l with
  | accept fd =>
      have hserver := getNextLoop_self hthreads
      have halive : w.server.getNextLoop.2.alive = true := halive
      have hnone : w.server.getNextLoop.2.destroying = none := hnone
      rw [hserver] at halive hnone
      exact ⟨halive, hnone⟩
  | advance i =>
      have hserver : (w.prepare (.advance i)).server = w.server := advance_server w i
      rw [hserver] at halive hnone
      exact ⟨halive, hnone⟩
  | release d =>
      rw [release_server] at halive hnone
      exact ⟨halive, hnone⟩
  | destroyServer => cases hnone
  | destroyNext =>
      have hnone : w.server.destroying.map List.tail = none := hnone
      exact ⟨halive, by simpa using hnone⟩
  | destroyServerEnd => cases halive
  | _ => exact ⟨halive, hnone⟩

/-- A new connection belongs to the server and its loop. -/
theorem prepare_home (hthreads : w.server.numOfThreads_ = 0) (hserver : ServerOnly l)
    (hk : (w.prepare l).conns c = some k) (hnew : w.conns c ≠ some k) :
    k.loop_ = 0 ∧ k.closeCallback_ = .server := by
  cases l with
  | accept fd =>
      have hk : Function.update w.conns w.nextConn (some (w.newTcpConnection
        w.server.getNextLoop.1 w.server.nextName fd .server w.server.writeCompleteCallback_)) c =
        some k := hk
      by_cases hc : c = w.nextConn
      · subst hc
        rw [Function.update_self] at hk
        cases hk
        rw [getNextLoop_self hthreads]
        exact ⟨rfl, rfl⟩
      · rw [Function.update_of_ne hc] at hk
        exact absurd hk hnew
  | newConnection fd peer => cases hserver
  | advance i =>
      simp only [World.prepare, World.advance] at hk
      split at hk <;> exact absurd hk hnew
  | release d =>
      simp only [World.prepare] at hk
      split at hk
      · exact absurd hk hnew
      · have hk : Function.update w.conns d none c = some k := hk
        by_cases hcd : c = d
        · subst hcd
          simp at hk
        · rw [Function.update_of_ne hcd] at hk
          exact absurd hk hnew
  | _ => exact absurd hk hnew

theorem Safe.prepare (h : Safe w) (hsound : Sound w) (htidy : Tidy w) (hen : w.Enabled l)
    (hserver : ServerOnly l) : Safe (w.prepare l) where
  threads := prepare_threads h.threads l
  home := by
    intro c k hk
    by_cases hold : w.conns c = some k
    · exact h.home c k hold
    · exact prepare_home h.threads hserver hk hold
  once := by
    intro c
    have hcount := prepare_queued hen 0 (.destoryConnection c)
    have honce := h.once c
    omega
  down := by
    intro c k hk hmem
    have hmem := prepare_queued_mem hen hmem
    rcases prepare_conns hk with hk | ⟨rfl, -⟩
    · exact h.down c k hk hmem
    · exact absurd (htidy.queued 0 _ hmem) (Nat.lt_irrefl _)
  watched := by
    intro c k hk
    rcases prepare_conns hk with hk | ⟨-, ℓ, name, fd, cb, wc, rfl, -⟩
    · exact h.watched c k hk
    · refine ⟨fun hstate => ?_, fun hin => by cases hin⟩
      rcases hstate with hstate | hstate <;> cases hstate
  active := by
    intro halive hnone c k hactive hk
    obtain ⟨halive, hnone⟩ := prepare_serving h.threads halive hnone
    rcases prepare_active hen 0 with ⟨active, rfl, hphase⟩ | hsub
    · -- the kernel reports added channels only
      rw [hphase] at hactive
      obtain ⟨a, ha, rfl⟩ := List.mem_map.mp hactive
      obtain ⟨k₀, e, -, hkernel⟩ := hen.2.2.2 a ha
      obtain ⟨k₁, hk₁, -, -, hadded⟩ := hsound.kernel 0 _ e a.1 hkernel
      have hk : w.conns a.1 = some k := hk
      rw [hk] at hk₁
      cases hk₁
      exact hadded
    · have hold := hsub.mem hactive
      rcases prepare_conns hk with hk | ⟨rfl, -⟩
      · exact h.active halive hnone c k hold hk
      · exact absurd (htidy.active hold) (Nat.lt_irrefl _)
  elsewhere := by
    intro ℓ hℓ
    rcases prepare_touched hen ℓ with ⟨active, rfl, hphase⟩ | hsub
    · -- no connection is registered with another loop
      rw [hphase]
      refine List.map_eq_nil_iff.mpr (List.eq_nil_iff_forall_not_mem.mpr fun a ha => ?_)
      obtain ⟨k₀, e, -, hkernel⟩ := hen.2.2.2 a ha
      obtain ⟨k, hk, hloop, -⟩ := hsound.kernel ℓ _ e a.1 hkernel
      exact hℓ (hloop.symm.trans (h.home a.1 k hk).1)
    · rw [h.elsewhere ℓ hℓ] at hsub
      exact List.sublist_nil.mp hsub
  establish := fun ℓ c hc => h.establish ℓ c (prepare_queued_mem hen hc)
  remove := fun ℓ c hc => h.remove ℓ c (prepare_queued_mem hen hc)

/-- What an action of such a run may assume. -/
structure Fit (w : World) (t : Thread) (c : ConnId) (a : Action) (k : TcpConnection) : Prop where
  self : k.self = c
  inLoop : a = .runEstablish → t = some k.loop_
  detach : ∀ unique, a ≠ .detach unique
  remove : a ≠ .removeConnectionInLoop
  establish : a = .establishConnection ∨ a = .runEstablish → .destoryConnection c ∉ w.queued 0
  event : ∀ revents read, a = .handleEvent revents read →
    ¬ DoubleClose revents read ∧
    (t = some 0 → w.server.alive = true → k.channel_.status_ = .kAdded)
  destroy : a = .destoryConnection → .destoryConnection c ∉ w.queued 0 ∧
    (k.state_ = .kConnected ∨
      (k.state_ = .kDisconnected ∧ k.channel_.event_ = Channel.kNoneEvent_))
  send : ∀ msg write, a = .sendInLoop msg write → Rearms k msg write →
    .destoryConnection c ∉ w.queued 0
  store : ∀ value, a = .store value → k.channel_.event_.epollin = true
  inactive : w.server.alive = true → w.server.destroying = none →
    c ∈ (w.loops 0).phase.active → a ≠ .forceCloseInLoop ∧ a ≠ .destoryConnection ∧
    (∀ revents read, a ≠ .handleEvent revents read) ∧
    ∀ revents left write, a ≠ .handleEventWrite revents left write

/-- An action that calls `closeCallback_` calls it once, on a channel in the
kernel's set. -/
theorem Safe.closing (h : Safe w) (hact : Acted w t c a w' k y) (hfit : Fit w t c a k)
    (hclose : .closeCallback ∈ y.effects) :
    t = some 0 ∧ k.channel_.status_ = .kAdded ∧ y.effects.count .closeCallback = 1 ∧
    y.conn.state_ = .kDisconnected ∧ y.conn.channel_ = k.channel_.disabled 1 := by
  obtain ⟨hloop, hserver⟩ := h.home c k hact.before
  have ht : t = some 0 := by
    rcases hact.effect_of hclose with ⟨habout, -⟩ | ⟨-, heq, -⟩ | ⟨-, heq⟩
    · rw [← hloop]
      exact of_decide_eq_true habout
    · cases heq
    · cases heq
  have hcb : y.conn.closeCallback_ = .server := by
    rcases hact.ran.closeCb with hsame | ⟨unique, ha⟩
    · exact hsame.trans hserver
    · exact absurd ha (hfit.detach unique)
  have halive := (hact.closed hclose hcb ht).1
  have hcalls := hact.closeCalls
  have hpos := List.count_pos_iff.mpr hclose
  rcases hact.ran.moves.closeCalls with hsame | ⟨n, by_, hstate, hchannel, hmore⟩
  · have hsame : y.conn.log.closeCalls = k.log.closeCalls := hsame
    omega
  · have hmore : y.conn.log.closeCalls = k.log.closeCalls + n := hmore
    obtain ⟨hadded, hn⟩ : k.channel_.status_ = .kAdded ∧ n = 1 := by
      rcases by_ with ⟨-, hn, hopen⟩ | ⟨revents, read, ha, hn⟩
      · have hwatched := h.watched c k hact.before
        exact ⟨hwatched.input (hwatched.open_ hopen), hn⟩
      · obtain ⟨honce, hadded⟩ := hfit.event revents read ha
        have hle := closings_le revents read
        rw [← closings_eq_two_iff] at honce
        exact ⟨hadded ht halive, by omega⟩
    subst hn
    exact ⟨ht, hadded, by omega, hstate, hchannel⟩

/-- While `destoryConnection` is queued, what happens to a connection leaves it
down. -/
theorem Safe.stays_down (h : Safe w) (hact : Acted w t c a w' k y) (hfit : Fit w t c a k)
    (hmem : .destoryConnection c ∈ w.queued 0) :
    y.conn.state_ = .kDisconnected ∧ y.conn.channel_.event_ = Channel.kNoneEvent_ ∧
    y.conn.channel_.status_ = .kDismissed := by
  obtain ⟨hstate, hnone, hdismissed⟩ := h.down c k hact.before hmem
  have hclosed : ¬ (k.state_ = .kConnected ∨ k.state_ = .kDisconnecting) := by simp [hstate]
  cases hact.ran.moves with
  | idle life channel => exact ⟨life.state.trans hstate, channel ▸ hnone, channel ▸ hdismissed⟩
  | halfClose by_ idle state log channel => exact ⟨state, channel ▸ hnone, channel ▸ hdismissed⟩
  | rearm data write by_ rearms =>
      rcases by_ with ha | ⟨-, hconnected⟩
      · exact absurd hmem (hfit.send data write ha rearms)
      · exact absurd (.inl hconnected) hclosed
  | drain revents left write by_ out drains =>
      have hwriting := drains.1
      have hnone : k.channel_.event_ = Channel.kNoneEvent_ := hnone
      simp [Channel.isWriting, hnone, Channel.kNoneEvent_] at hwriting
  | close n by_ pos state channel connectionCalls closeCalls =>
      have hcalls := hact.closeCalls
      have hmore : y.conn.log.closeCalls = k.log.closeCalls + n := closeCalls
      have hclose : .closeCallback ∈ y.effects := List.count_pos_iff.mp (by omega)
      rw [(h.closing hact hfit hclose).2.1] at hdismissed
      cases hdismissed
  | disconnecting by_ before => exact absurd before hclosed
  | store value by_ =>
      have hin := hfit.store value by_
      rw [hnone] at hin
      cases hin
  | establish by_ => exact absurd hmem (hfit.establish by_)
  | stop by_ => exact absurd hmem (hfit.destroy by_).1
  | remove by_ => exact absurd hmem (hfit.destroy by_).1

/-- A channel whose turn is still to come stays in the kernel's set. -/
theorem Fit.stays_added (hfit : Fit w t c a k) (hact : Acted w t c a w' k y)
    (halive : w.server.alive = true) (hnone : w.server.destroying = none)
    (hactive : c ∈ (w.loops 0).phase.active) (hadded : k.channel_.status_ = .kAdded) :
    y.conn.channel_.status_ = .kAdded := by
  obtain ⟨hforce, hdestroy, hevent, hwrite⟩ := hfit.inactive halive hnone hactive
  cases hact.ran.moves with
  | idle life channel => exact channel ▸ hadded
  | halfClose by_ idle state log channel => exact channel ▸ hadded
  | disconnecting by_ before state log channel => exact channel ▸ hadded
  | store value by_ state log channel => exact channel ▸ hadded
  | rearm data write by_ rearms life channel =>
      rw [channel]
      exact Channel.rewired_true_status _
  | establish by_ state channel =>
      rw [channel]
      exact Channel.nextStatus_setReading _
  | drain revents left write by_ => exact absurd by_ (hwrite revents left write)
  | close n by_ =>
      rcases by_ with ⟨ha, -⟩ | ⟨revents, read, ha, -⟩
      · exact absurd ha hforce
      · exact absurd ha (hevent revents read)
  | stop by_ => exact absurd by_ hdestroy
  | remove by_ => exact absurd by_ hdestroy

theorem Safe.acted (h : Safe w) (hact : Acted w t c a w' k y) (hfit : Fit w t c a k) :
    Safe w' where
  threads := hact.threads.trans h.threads
  home := by
    intro d k' hd
    -- only `~TcpClient` changes the close callback
    rcases hact.cases hd with ⟨rfl, rfl⟩ | ⟨-, hd⟩
    · obtain ⟨hloop, hserver⟩ := h.home d k hact.before
      refine ⟨hact.ran.loop.trans hloop, ?_⟩
      rcases hact.ran.closeCb with hsame | ⟨unique, ha⟩
      · exact hsame.trans hserver
      · exact absurd ha (hfit.detach unique)
    · exact h.home d k' hd
  once := by
    intro d
    by_cases hadd : (Functor.destoryConnection d).AddedBy a t k y.effects 0
    · -- the close finds nothing queued, and queues once
      obtain ⟨rfl, -, hby⟩ := hadd
      have hclose := hby.resolve_right hfit.remove
      have hnone : (w.queued 0).count (.destoryConnection k.self) = 0 := by
        refine List.count_eq_zero.mpr fun hmem => ?_
        have hdown := h.down c k hact.before (hfit.self ▸ hmem)
        rw [(h.closing hact hfit hclose).2.1] at hdown
        cases hdown.2.2
      have hadds := hact.adds_teardowns hfit.remove
      rw [(h.home c k hact.before).1, (h.closing hact hfit hclose).2.2.1] at hadds
      rw [hact.queued, hnone]
      omega
    · rw [hact.queued_same hadd]
      exact h.once d
  down := by
    intro d k' hd hmem
    rcases hact.queued_cases hmem with hmem | ⟨hself, -, hby⟩
    · rcases hact.cases hd with ⟨rfl, rfl⟩ | ⟨-, hd⟩
      · exact h.stays_down hact hfit hmem
      · exact h.down d k' hd hmem
    · rw [hself, hfit.self, hact.after] at hd
      cases hd
      obtain ⟨-, hadded, -, hstate, hchannel⟩ :=
        h.closing hact hfit (hby.resolve_right hfit.remove)
      rw [hchannel]
      exact ⟨hstate, rfl, Channel.disabled_status hadded⟩
  watched := by
    intro d k' hd
    rcases hact.cases hd with ⟨rfl, rfl⟩ | ⟨-, hd⟩
    · exact (h.watched d k hact.before).moves hact.ran.moves hfit.store fun ha =>
        (hfit.destroy ha).2
    · exact h.watched d k' hd
  active := by
    intro halive hnone d k' hactive hd
    rw [hact.alive] at halive
    rw [hact.destroying] at hnone
    rw [hact.phase] at hactive
    rcases hact.cases hd with ⟨rfl, rfl⟩ | ⟨-, hd⟩
    · exact hfit.stays_added hact halive hnone hactive
        (h.active halive hnone d k hactive hact.before)
    · exact h.active halive hnone d k' hactive hd
  elsewhere := by
    intro ℓ hℓ
    rw [hact.phase]
    exact h.elsewhere ℓ hℓ
  establish := by
    intro ℓ d hd
    rcases hact.queued_cases hd with hd | ⟨-, -, ha, hout⟩
    · exact h.establish ℓ d hd
    · exact hout (hfit.inLoop ha)
  remove := by
    intro ℓ d hd
    rcases hact.queued_cases hd with hd | ⟨-, -, hclose, hout⟩
    · exact h.remove ℓ d hd
    · exact hout (h.closing hact hfit hclose).1

/-! ## Runs of the server -/

theorem Safe.loop_eq {ℓ : LoopId} (h : Safe w) (hc : c ∈ (w.loops ℓ).phase.touched) : ℓ = 0 := by
  by_contra hℓ
  rw [h.elsewhere ℓ hℓ] at hc
  cases hc

/-- Events and functors run while no destructor does. -/
theorem not_destroying (h : ¬ w.Busy 0) : w.server.destroying = none := by
  by_contra hne
  exact h (.inl ⟨rfl, hne⟩)

theorem Safe.event (h : Safe w) (hen : w.Enabled l) (hupset : ¬ Upsets w l) {revents : Events}
    {read : ReadResult} (hruns : w.Runs l t c (.handleEvent revents read))
    (hk : (w.prepare l).conns c = some k) :
    ¬ DoubleClose revents read ∧
    (t = some 0 → (w.prepare l).server.alive = true → k.channel_.status_ = .kAdded) := by
  obtain ⟨ℓ, active, rfl, rfl, phase⟩ := hruns.handleEvent_inv
  refine ⟨fun hdouble => hupset ⟨c, revents, active, phase, hdouble⟩, fun ht halive => ?_⟩
  cases ht
  refine h.active halive (not_destroying hen.2.1) c k ?_ hk
  simp [Phase.active, phase]

/-- What `destoryConnection` finds: a connected connection, or one that was
closed, and it is not queued again. -/
theorem Safe.destroy (h : Safe w) (hen : w.Enabled l) (hupset : ¬ Upsets w l)
    (hruns : w.Runs l t c .destoryConnection) (hk : w.conns c = some k)
    (hloop : t = some k.loop_) :
    .destoryConnection c ∉ (w.prepare l).queued 0 ∧
    (k.state_ = .kConnected ∨
      (k.state_ = .kDisconnected ∧ k.channel_.event_ = Channel.kNoneEvent_ ∧
        k.channel_.status_ = .kDismissed)) := by
  rw [(h.home c k hk).1] at hloop
  cases hruns with
  | @functor ℓ write f batch a phase act =>
      cases hloop
      obtain ⟨hmem, hcount⟩ := functor_popped hen phase
      cases f with
      | destoryConnection d =>
          have honce := h.once d
          refine ⟨List.count_eq_zero.mp ?_, .inr (h.down d k hk hmem)⟩
          show List.count (Functor.destoryConnection d) _ = 0
          omega
      | _ => cases act
  | @destroyNext c rest destroying =>
      have hstate : k.state_ = .kConnected := by
        by_contra hstate
        exact hupset ⟨c, rest, k, destroying, hk, hstate⟩
      refine ⟨fun hmem => ?_, .inl hstate⟩
      have hdown := (h.down c k hk (prepare_queued_mem hen hmem)).1
      rw [hstate] at hdown
      cases hdown

/-- A step on a channel whose turn is still to come is none of the loop's. -/
theorem Safe.inactive (h : Safe w) (htidy : Tidy w) (hen : w.Enabled l)
    (haction : w.action l = some (t, c, a)) (hact : Acted (w.prepare l) t c a w' k y)
    (hloop : k.loop_ = 0) (hnone : (w.prepare l).server.destroying = none)
    (hactive : c ∈ ((w.prepare l).loops 0).phase.active) :
    a ≠ .forceCloseInLoop ∧ a ≠ .destoryConnection ∧
    (∀ revents read, a ≠ .handleEvent revents read) ∧
    ∀ revents left write, a ≠ .handleEventWrite revents left write := by
  have hruns := action_runs haction
  have hnodup := htidy.nodup 0
  cases hruns with
  | @handleEvent ℓ read c revents active phase =>
      -- a channel has one turn in a round
      have hℓ := h.loop_eq (c := c) (ℓ := ℓ) (by simp [Phase.touched, phase])
      subst hℓ
      rw [phase] at hnodup
      rw [World.prepare, onLoop_self] at hactive
      simp only [EventLoop.beginEvent, phase, Phase.active] at hactive
      exact absurd hactive (List.nodup_cons.mp hnodup).1
  | @handleEventWrite ℓ left write c revents inMessage active phase =>
      have hℓ := h.loop_eq (c := c) (ℓ := ℓ) (by simp [Phase.touched, phase])
      subst hℓ
      rw [phase] at hnodup
      rw [World.prepare, onLoop_self] at hactive
      simp only [EventLoop.endEvent, phase, Phase.active] at hactive
      exact absurd hactive (List.nodup_cons.mp hnodup).1
  | @functor ℓ write f batch a phase act =>
      -- on loop `0` no channel is active in this phase, elsewhere the code stops
      have hzero : ℓ = 0 → False := by
        intro hℓ
        subst hℓ
        rw [World.prepare, onLoop_self] at hactive
        simp only [EventLoop.popFunctor, phase, Phase.active] at hactive
        cases hactive
      have hin : a = .forceCloseInLoop ∨ a = .destoryConnection → ℓ = 0 := by
        intro ha
        have hreturned := hact.returned
        have hthread : some ℓ = some k.loop_ := by
          rcases ha with rfl | rfl
          · exact of_decide_eq_true (ConnRun.forceCloseInLoop_ok hreturned).1
          · exact of_decide_eq_true (ConnRun.destoryConnection_ok hreturned).1
        rw [hloop] at hthread
        exact Option.some.inj hthread
      refine ⟨fun ha => hzero (hin (.inl ha)), fun ha => hzero (hin (.inr ha)), ?_, ?_⟩
      · rintro revents read rfl
        cases f <;> cases act
      · rintro revents left write rfl
        cases f <;> cases act
  | destroyNext destroying =>
      -- the destructor of the server is at work
      have hnone : w.server.destroying.map List.tail = none := hnone
      rw [destroying] at hnone
      cases hnone
  | _ => simp

theorem Safe.fit (h : Safe w) (hsound : Sound w) (htidy : Tidy w) (hen : w.Enabled l)
    (hserver : ServerOnly l) (hupset : ¬ Upsets w l) (haction : w.action l = some (t, c, a))
    (hact : Acted (w.prepare l) t c a w' k y) : Fit (w.prepare l) t c a k where
  self := ((hsound.prepare l).ident c k hact.before).1
  inLoop := by
    intro ha
    subst ha
    rw [((h.prepare hsound htidy hen hserver).home c k hact.before).1]
    exact (action_runs haction).runEstablish_inv.1
  detach := by
    intro unique ha
    subst ha
    have hlabel := (action_runs haction).detach_inv
    subst hlabel
    exact hserver
  remove := by
    intro ha
    subst ha
    obtain ⟨ℓ, write, batch, rfl, phase⟩ := (action_runs haction).removeConnectionInLoop_inv
    exact h.remove ℓ c (functor_popped hen phase).1
  establish := by
    intro ha hmem
    -- the functor would be for a connection that does not exist yet
    have hold := htidy.queued 0 _ (prepare_queued_mem hen hmem)
    have hruns := action_runs haction
    cases hruns with
    | accept => exact Nat.lt_irrefl _ hold
    | newConnection => exact hserver
    | @functor ℓ write f batch a phase act =>
        cases f with
        | establishConnection d => exact h.establish ℓ d (functor_popped hen phase).1
        | _ => rcases ha with rfl | rfl <;> cases act
    | _ => rcases ha with ha | ha <;> cases ha
  event := by
    intro revents read ha
    subst ha
    exact h.event hen hupset (action_runs haction) hact.before
  destroy := by
    intro ha
    subst ha
    have hruns := action_runs haction
    have hk := hact.before
    rw [hruns.destoryConnection_conns] at hk
    obtain ⟨hno, hfound⟩ := h.destroy hen hupset hruns hk
      (of_decide_eq_true (ConnRun.destoryConnection_ok hact.returned).1)
    exact ⟨hno, hfound.imp id fun hdown => ⟨hdown.1, hdown.2.1⟩⟩
  send := by
    intro msg write ha hrearms hmem
    subst ha
    obtain ⟨ℓ, batch, rfl, phase⟩ := (action_runs haction).sendInLoop_inv
    exact hupset ⟨c, msg, batch, k, phase, hact.before, prepare_queued_mem hen hmem, hrearms⟩
  store := by
    intro value ha
    subst ha
    obtain ⟨i, ℓ, f, rfl, handover⟩ := (action_runs haction).store_inv
    by_contra hin
    have hk := hact.before
    simp only [World.prepare, World.advance, handover] at hk
    exact hupset ⟨c, value, ℓ, f, k, handover, hk, eq_false_of_ne_true hin⟩
  inactive := fun _ hnone hactive =>
    h.inactive htidy hen haction hact
      ((h.prepare hsound htidy hen hserver).home c k hact.before).1 hnone hactive

theorem Safe.step (h : Safe w) (hsound : Sound w) (htidy : Tidy w) (hstep : reactor.Step w l w')
    (hserver : ServerOnly l) (hupset : ¬ Upsets w l) : Safe w' := by
  obtain ⟨hen, hstep⟩ := hstep
  rcases step_cases hstep with rfl | ⟨t, c, a, k, y, haction, hact⟩
  · exact h.prepare hsound htidy hen hserver
  · exact (h.prepare hsound htidy hen hserver).acted hact
      (h.fit hsound htidy hen hserver hupset haction hact)

/-- When `destoryConnection` executes and reaches `channel_->remove()`, the
channel has no interest left and is registered, and no assertion of
`removeChannel` fails. -/
def TearsDown (w : World) (l : Label) : Prop :=
  ∀ t c k x, w.action l = some (t, c, .destoryConnection) → w.conns c = some k →
    t = some k.loop_ →
    ConnRun.stopIfConnected ⟨t, (w.loops k.loop_).epoller_, k, []⟩ = .ok x →
    x.conn.channel_.isNoneEvent = true ∧
    x.epoller.channelMap_ x.conn.channel_.fd_ = some x.conn.channel_.self ∧
    ∃ q, x.epoller.removeChannel x.conn.channel_ = .ok q

/-- What `stopIfConnected` leaves to `remove`. -/
theorem stopIfConnected_removable {x z : ConnRun} (hsync : x.Synced)
    (h : x.stopIfConnected = .ok z)
    (hdown : x.conn.state_ = .kConnected ∨
      (x.conn.channel_.event_ = Channel.kNoneEvent_ ∧ x.conn.channel_.status_ ≠ .kNew)) :
    z.conn.channel_.isNoneEvent = true ∧ z.epoller.Knows z.conn.channel_ := by
  unfold ConnRun.stopIfConnected at h
  split at h
  · simp only [bind_eq_ok, pure_eq_ok, Except.ok.injEq] at h
    obtain ⟨u, hu, rfl⟩ := h
    obtain ⟨hkept, -, hconn⟩ := ConnRun.onChannel_update (f := Channel.setNone) (fun _ => rfl) hu
    have hu' : u.Synced := hkept.synced ⟨hsync.map, hsync.kernel⟩
    have hstatus : u.conn.channel_.status_ ≠ .kNew := by
      rw [hconn]
      show Epoller.nextStatus _ ≠ _
      unfold Epoller.nextStatus
      split <;> decide
    refine ⟨?_, hu'.map hstatus, hstatus⟩
    show u.conn.channel_.isNoneEvent = true
    rw [hconn]
    rfl
  · rename_i hstate
    cases h
    obtain ⟨hnone, hstatus⟩ := hdown.resolve_left hstate
    exact ⟨by simp [Channel.isNoneEvent, hnone], hsync.map hstatus, hstatus⟩

theorem Safe.tearsDown (h : Safe w) (hsound : Sound w) (hen : w.Enabled l)
    (hupset : ¬ Upsets w l) : TearsDown w l := by
  intro t c k x haction hk hloop hstop
  have hdown : k.state_ = .kConnected ∨
      (k.channel_.event_ = Channel.kNoneEvent_ ∧ k.channel_.status_ ≠ .kNew) := by
    refine (h.destroy hen hupset (action_runs haction) hk hloop).2.imp id fun hdown => ?_
    exact ⟨hdown.2.1, by simp [hdown.2.2]⟩
  obtain ⟨hnone, hknows⟩ := stopIfConnected_removable (hsound.synced hk) hstop hdown
  exact ⟨hnone, hknows.1, Epoller.removeChannel_total hnone hknows⟩

end World

open World

/-- In every run of a server on its own loop without a step that upsets a
teardown, every `destoryConnection` goes through. -/
theorem teardown_safe {server : TcpServer} {client : TcpClient} {ls : List Label} {w : World}
    {l : Label} (hthreads : server.numOfThreads_ = 0)
    (hrun : (reactor.restrict fun w l => ServerOnly l ∧ ¬ Upsets w l).Run
      (World.init server client) ls w)
    (hen : reactor.enabled w l) (hupset : ¬ Upsets w l) : TearsDown w l := by
  obtain ⟨hsound, -, hsafe⟩ := hrun.invariant (I := fun w => Sound w ∧ Tidy w ∧ Safe w)
    ⟨sound_init server client, tidy_init server client, safe_init client hthreads⟩
    fun v l v' h hstep => by
      obtain ⟨hsound, htidy, hsafe⟩ := h
      obtain ⟨hstep, hserver, hupset⟩ := System.restrict_step.mp hstep
      exact ⟨hsound.step hstep, htidy.step hsound hstep,
        hsafe.step hsound htidy hstep hserver hupset⟩
  exact hsafe.tearsDown hsound hen hupset

/-- `forceClose`, the round that closes, and the round that destroys. -/
theorem teardown_safe_forceClose : ∃ ls w t k x,
    (reactor.restrict fun w l => ServerOnly l ∧ ¬ Upsets w l).Run (World.init {} {}) ls w ∧
    w.action (.runFunctor 0 (.wrote 0)) = some (t, 0, .destoryConnection) ∧
    w.conns 0 = some k ∧
    ConnRun.stopIfConnected ⟨t, (w.loops k.loop_).epoller_, k, []⟩ = .ok x ∧
    TearsDown w (.runFunctor 0 (.wrote 0)) := by
  have hrun : ∃ w k x,
      (reactor.restrict fun w l => ServerOnly l ∧ ¬ Upsets w l).Run (World.init {} {})
        [.poll 0 [], .accept 7, .forceClose (some 0) 0, .beginFunctors 0,
          .runFunctor 0 (.wrote 0), .endFunctors 0, .poll 0 [], .beginFunctors 0] w ∧
      w.action (.runFunctor 0 (.wrote 0)) = some (some 0, 0, .destoryConnection) ∧
      w.conns 0 = some k ∧
      ConnRun.stopIfConnected ⟨some 0, (w.loops k.loop_).epoller_, k, []⟩ = .ok x ∧
      w.Enabled (.runFunctor 0 (.wrote 0)) ∧ ¬ Upsets w (.runFunctor 0 (.wrote 0)) := by
    refine ⟨_, _, _, .cons ⟨⟨?_, trivial, id⟩, rfl⟩ (.cons ⟨⟨?_, trivial, id⟩, rfl⟩
      (.cons ⟨⟨?_, trivial, id⟩, rfl⟩ (.cons ⟨⟨?_, trivial, id⟩, rfl⟩
      (.cons ⟨⟨?_, trivial, ?_⟩, rfl⟩ (.cons ⟨⟨?_, trivial, id⟩, rfl⟩
      (.cons ⟨⟨?_, trivial, id⟩, rfl⟩ (.cons ⟨⟨?_, trivial, id⟩, rfl⟩ (.nil _)))))))), rfl, rfl,
      rfl, ?_, ?_⟩
    · exact ⟨rfl, not_busy rfl rfl, .nil, by simp⟩
    · exact ⟨rfl, ⟨_, rfl⟩, not_busy rfl rfl, fun _ _ h => by cases h⟩
    · exact ⟨fun _ _ _ h => (by cases h), fun h => by cases h⟩
    · exact ⟨rfl, not_busy rfl rfl⟩
    · exact ⟨_, _, rfl, not_busy rfl rfl, Nat.zero_le _⟩
    · rintro ⟨c, msg, batch, k, hphase, -⟩
      cases hphase
    · exact ⟨rfl, not_busy rfl rfl⟩
    · exact ⟨rfl, not_busy rfl rfl, .nil, by simp⟩
    · exact ⟨rfl, not_busy rfl rfl⟩
    · exact ⟨_, _, rfl, not_busy rfl rfl, Nat.zero_le _⟩
    · rintro ⟨c, msg, batch, k, hphase, -⟩
      cases hphase
  obtain ⟨w, k, x, hrun, haction, hk, hx, hen, hupset⟩ := hrun
  exact ⟨_, w, _, k, x, hrun, haction, hk, hx, teardown_safe rfl hrun hen hupset⟩

/-- The server is destroyed with a half-closed connection: its interest is
still there when `remove` is reached. -/
theorem not_teardown_halfClosed : ¬ ∀ ls w l,
    (reactor.restrict fun _ l => ServerOnly l).Run (World.init {} {}) ls w →
    reactor.enabled w l → ServerOnly l → TearsDown w l := by
  intro hlaw
  have hrun : ∃ w k x,
      (reactor.restrict fun _ l => ServerOnly l).Run (World.init {} {})
        [.poll 0 [], .accept 7, .shutdown (some 0) 0, .destroyServer] w ∧
      w.Enabled .destroyNext ∧
      w.action .destroyNext = some (some 0, 0, .destoryConnection) ∧ w.conns 0 = some k ∧
      k.loop_ = 0 ∧
      ConnRun.stopIfConnected ⟨some 0, (w.loops k.loop_).epoller_, k, []⟩ = .ok x ∧
      x.conn.channel_.isNoneEvent = false := by
    refine ⟨_, _, _, .cons ⟨⟨?_, trivial⟩, rfl⟩ (.cons ⟨⟨?_, trivial⟩, rfl⟩
      (.cons ⟨⟨?_, trivial⟩, rfl⟩ (.cons ⟨⟨?_, trivial⟩, rfl⟩ (.nil _)))), ?_, rfl, rfl, rfl, rfl,
      rfl⟩
    · exact ⟨rfl, not_busy rfl rfl, .nil, by simp⟩
    · exact ⟨rfl, ⟨_, rfl⟩, not_busy rfl rfl, fun _ _ h => by cases h⟩
    · exact ⟨fun _ _ _ h => (by cases h), fun h => by cases h⟩
    · exact ⟨rfl, rfl, fun _ _ _ h => by cases h⟩
    · exact ⟨_, _, rfl⟩
  obtain ⟨w, k, x, hrun, hen, haction, hk, hloop, hx, hinterest⟩ := hrun
  have hnone := (hlaw _ w .destroyNext hrun hen trivial _ 0 k x haction hk (by rw [hloop]) hx).1
  rw [hinterest] at hnone
  cases hnone

end Ham.Net
