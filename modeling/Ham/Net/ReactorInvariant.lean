import Ham.Net.ReactorSteps

/-!
# Invariants of every run

`Sound`: connections, channels, epollers and the kernel's sets agree.
`Tidy`: queues and active channels are about connections that exist or have
existed. `Announced`: a connection is established once, and until it is
destroyed its `connectionCallback_` has seen nothing else. They hold in every
state of every run (`reachable_sound`, `reachable_announced`).
-/

namespace Ham.Net

open Ham.Lib

namespace World

variable {w w' : World} {t : Thread} {c : ConnId} {a : Action} {k : TcpConnection} {y : ConnRun}

/-! ## Channels and epollers -/

structure Sound (w : World) : Prop where
  ident : ∀ c k, w.conns c = some k → k.self = c ∧ k.channel_.self = c
  fresh : ∀ c k, w.conns c = some k → c < w.nextConn
  map : ∀ c k, w.conns c = some k → k.channel_.status_ ≠ .kNew →
    (w.loops k.loop_).epoller_.channelMap_ k.channel_.fd_ = some c
  kernel : ∀ ℓ fd e c, (w.loops ℓ).epoller_.kernel fd = some (e, c) →
    ∃ k, w.conns c = some k ∧ k.loop_ = ℓ ∧ k.channel_.fd_ = fd ∧ k.channel_.status_ = .kAdded

theorem Sound.of_same (h : Sound w) (hconns : w'.conns = w.conns)
    (hnext : w'.nextConn = w.nextConn)
    (hepoller : ∀ ℓ, (w'.loops ℓ).epoller_ = (w.loops ℓ).epoller_) : Sound w' where
  ident := by rw [hconns]; exact h.ident
  fresh := by rw [hconns, hnext]; exact h.fresh
  map := by
    intro c k hc hs
    rw [hconns] at hc
    rw [hepoller]
    exact h.map c k hc hs
  kernel := by
    intro ℓ fd e c hk
    rw [hepoller] at hk
    rw [hconns]
    exact h.kernel ℓ fd e c hk

theorem Sound.next (h : Sound w) : w.conns w.nextConn = none := by
  cases hc : w.conns w.nextConn with
  | none => rfl
  | some k => exact absurd (h.fresh _ _ hc) (Nat.lt_irrefl _)

/-- A new connection with a new channel. -/
theorem Sound.alloc (h : Sound w) (hself : k.self = w.nextConn)
    (hchannel : k.channel_.self = w.nextConn) (hnew : k.channel_.status_ = .kNew) :
    Sound (w.alloc k) where
  ident := by
    intro c k' hc
    by_cases hcn : c = w.nextConn
    · subst hcn
      simp only [World.alloc, Function.update_self, Option.some.injEq] at hc
      subst hc
      exact ⟨hself, hchannel⟩
    · simp only [World.alloc, Function.update_of_ne hcn] at hc
      exact h.ident c k' hc
  fresh := by
    intro c k' hc
    by_cases hcn : c = w.nextConn
    · subst hcn
      exact Nat.lt_succ_self _
    · simp only [World.alloc, Function.update_of_ne hcn] at hc
      exact Nat.lt_succ_of_lt (h.fresh c k' hc)
  map := by
    intro c k' hc hs
    by_cases hcn : c = w.nextConn
    · subst hcn
      simp only [World.alloc, Function.update_self, Option.some.injEq] at hc
      subst hc
      exact absurd hnew hs
    · simp only [World.alloc, Function.update_of_ne hcn] at hc
      exact h.map c k' hc hs
  kernel := by
    intro ℓ fd e c hk
    obtain ⟨k', hc, hrest⟩ := h.kernel ℓ fd e c hk
    have hcn : c ≠ w.nextConn := fun hcn => by
      rw [hcn, h.next] at hc
      cases hc
    exact ⟨k', by simp only [World.alloc, Function.update_of_ne hcn]; exact hc, hrest⟩

/-- A released connection takes its descriptor out of the kernel's set. -/
theorem Sound.release (h : Sound w) (c : ConnId) : Sound (w.prepare (.release c)) := by
  simp only [prepare]
  cases hc : w.conns c with
  | none => exact h
  | some k =>
      dsimp only
      have hother : ∀ d k', (Function.update w.conns c none) d = some k' →
          d ≠ c ∧ w.conns d = some k' := by
        intro d k' hd
        by_cases hdc : d = c
        · subst hdc
          simp at hd
        · rw [Function.update_of_ne hdc] at hd
          exact ⟨hdc, hd⟩
      refine ⟨fun d k' hd => ?_, fun d k' hd => ?_, fun d k' hd hs => ?_, fun ℓ fd e d hk => ?_⟩
      · exact h.ident d k' (hother d k' hd).2
      · exact h.fresh d k' (hother d k' hd).2
      · have hmap := h.map d k' (hother d k' hd).2 hs
        by_cases hℓ : k'.loop_ = k.loop_
        · rw [← hℓ]
          simpa [onLoop, EventLoop.closeFd] using hmap
        · simpa [onLoop, hℓ] using hmap
      · have hold : (w.loops ℓ).epoller_.kernel fd = some (e, d) ∧
            ¬ (ℓ = k.loop_ ∧ fd = k.channel_.fd_) := by
          by_cases hℓ : ℓ = k.loop_
          · subst hℓ
            by_cases hfd : fd = k.channel_.fd_
            · subst hfd
              simp [onLoop, EventLoop.closeFd] at hk
            · simp only [onLoop, EventLoop.closeFd, Function.update_self,
                Function.update_of_ne hfd] at hk
              exact ⟨hk, fun h => hfd h.2⟩
          · simp only [onLoop, Function.update_of_ne hℓ] at hk
            exact ⟨hk, fun h => hℓ h.1⟩
        obtain ⟨k', hd, hloop, hfd, hadded⟩ := h.kernel ℓ fd e d hold.1
        have hdc : d ≠ c := fun hdc => by
          rw [hdc, hc] at hd
          cases hd
          exact hold.2 ⟨hloop.symm, hfd.symm⟩
        exact ⟨k', by simp only [onLoop, Function.update_of_ne hdc]; exact hd, hloop, hfd, hadded⟩

theorem Sound.prepare (h : Sound w) (l : Label) : Sound (w.prepare l) := by
  have honLoop : ∀ (ℓ : LoopId) (f : EventLoop → EventLoop),
      (∀ e, (f e).epoller_ = e.epoller_) → Sound (w.onLoop ℓ f) := by
    intro ℓ f hf
    exact h.of_same rfl rfl fun ℓ' => onLoop_same (hf (w.loops ℓ))
  cases l with
  | poll ℓ active => exact honLoop ℓ (EventLoop.wake active) fun _ => rfl
  | handleEvent ℓ read =>
      exact honLoop ℓ (EventLoop.beginEvent read) fun e => by
        unfold EventLoop.beginEvent
        split <;> rfl
  | handleEventWrite ℓ left write =>
      exact honLoop ℓ EventLoop.endEvent fun e => by
        unfold EventLoop.endEvent
        split <;> rfl
  | beginFunctors ℓ => exact honLoop ℓ EventLoop.swapFunctors fun _ => rfl
  | runFunctor ℓ write =>
      exact honLoop ℓ EventLoop.popFunctor fun e => by
        unfold EventLoop.popFunctor
        split <;> rfl
  | endFunctors ℓ => exact honLoop ℓ EventLoop.wait fun _ => rfl
  | accept fd =>
      exact Sound.of_same (h.alloc (k := w.newTcpConnection _ _ fd _ _) rfl rfl rfl) rfl rfl
        fun _ => rfl
  | newConnection fd peer =>
      exact Sound.of_same (h.alloc (k := w.newTcpConnection _ _ fd _ _) rfl rfl rfl) rfl rfl
        fun _ => rfl
  | advance i =>
      simp only [World.prepare, World.advance]
      split
      · exact h
      · exact h.of_same rfl rfl fun _ => rfl
      · exact h.of_same rfl rfl fun ℓ' => onLoop_same rfl
  | release c => exact h.release c
  | _ => exact h.of_same rfl rfl fun _ => rfl

/-- The run of a member function starts in agreement. -/
theorem Sound.synced (h : Sound w) (hc : w.conns c = some k) :
    ConnRun.Synced ⟨t, (w.loops k.loop_).epoller_, k, []⟩ where
  map := by
    intro hs
    rw [(h.ident c k hc).2]
    exact h.map c k hc hs
  kernel := by
    intro fd e hk
    rw [show (ConnRun.mk t (w.loops k.loop_).epoller_ k []).conn.channel_.self = c from
      (h.ident c k hc).2] at hk
    obtain ⟨k', hc', -, hfd, hadded⟩ := h.kernel _ fd e c hk
    rw [hc] at hc'
    cases hc'
    exact ⟨hfd.symm, hadded⟩

theorem Sound.acted (h : Sound w) (hact : Acted w t c a w' k y) : Sound w' := by
  have hc := hact.before
  have hframe := hact.ran.toFramed
  have hsync := hframe.synced (h.synced hc)
  obtain ⟨hself, hchannel⟩ := h.ident c k hc
  have hloop : y.conn.loop_ = k.loop_ := hframe.loop
  have hself' : y.conn.channel_.self = c := hframe.channelSelf.trans hchannel
  refine ⟨fun d k' hd => ?_, fun d k' hd => ?_, fun d k' hd hs => ?_, fun ℓ fd e d hk => ?_⟩
  · rcases hact.cases hd with ⟨rfl, rfl⟩ | ⟨-, hd⟩
    · exact ⟨hframe.self.trans hself, hself'⟩
    · exact h.ident d k' hd
  · rw [hact.nextConn]
    rcases hact.cases hd with ⟨rfl, rfl⟩ | ⟨-, hd⟩
    · exact h.fresh d k hc
    · exact h.fresh d k' hd
  · rcases hact.cases hd with ⟨rfl, rfl⟩ | ⟨hdc, hd⟩
    · rw [hact.epoller, if_pos hloop, ← hself']
      exact hsync.map hs
    · have hmap := h.map d k' hd hs
      rw [hact.epoller]
      split
      · rename_i hℓ
        rw [hℓ] at hmap
        exact (hframe.map _ d (fun hd' => hdc (hd'.trans hchannel))).mpr hmap
      · exact hmap
  · rw [hact.epoller] at hk
    rw [hact.conns]
    have hold : (w.loops ℓ).epoller_.kernel fd = some (e, d) → d ≠ c → ∃ k', 
        Function.update w.conns c (some y.conn) d = some k' ∧ k'.loop_ = ℓ ∧
        k'.channel_.fd_ = fd ∧ k'.channel_.status_ = .kAdded := by
      intro hk hdc
      rw [Function.update_of_ne hdc]
      exact h.kernel ℓ fd e d hk
    split at hk
    · rename_i hℓ
      subst hℓ
      by_cases hdc : d = c
      · subst hdc
        rw [← hself'] at hk
        obtain ⟨hfd, hadded⟩ := hsync.kernel fd e hk
        exact ⟨y.conn, Function.update_self _ _ _, hloop, hfd.symm, hadded⟩
      · exact hold (hframe.kernel fd e d (fun hd' => hdc (hd'.trans hchannel)) hk) hdc
    · rename_i hℓ
      refine hold hk fun hdc => ?_
      subst hdc
      obtain ⟨k', hd, hloop', -⟩ := h.kernel ℓ fd e d hk
      rw [hc] at hd
      cases hd
      exact hℓ hloop'.symm

theorem Sound.step {l : Label} (h : Sound w) (hstep : reactor.Step w l w') : Sound w' := by
  rcases step_cases hstep.2 with rfl | ⟨t, c, a, k, y, -, hact⟩
  · exact h.prepare l
  · exact (h.prepare l).acted hact

theorem sound_init (server : TcpServer) (client : TcpClient) :
    Sound (World.init server client) where
  ident := fun _ _ h => by cases h
  fresh := fun _ _ h => by cases h
  map := fun _ _ h => by cases h
  kernel := fun _ _ _ _ h => by cases h

theorem reachable_sound {server : TcpServer} {client : TcpClient} {ls : List Label}
    (hrun : reactor.Run (World.init server client) ls w) : Sound w :=
  hrun.invariant (sound_init server client) fun _ _ _ h hstep => h.step hstep

/-! ## Queues and active channels -/

/-- Queues and active channels are about connections that have been made, and
a channel is active once. -/
structure Tidy (w : World) : Prop where
  queued : ∀ ℓ f, f ∈ w.queued ℓ → f.conn < w.nextConn
  nodup : ∀ ℓ, (w.loops ℓ).phase.touched.Nodup
  touched : ∀ ℓ c, c ∈ (w.loops ℓ).phase.touched → c < w.nextConn

theorem tidy_init (server : TcpServer) (client : TcpClient) : Tidy (World.init server client) where
  queued := fun _ _ h => by cases h
  nodup := fun _ => List.nodup_nil
  touched := fun _ _ h => by cases h

theorem Tidy.prepare {l : Label} (h : Tidy w) (hsound : Sound w) (hen : w.Enabled l) :
    Tidy (w.prepare l) where
  queued := fun ℓ f hf =>
    Nat.lt_of_lt_of_le (h.queued ℓ f (prepare_queued_mem hen hf)) (prepare_nextConn w l)
  nodup := by
    intro ℓ
    rcases prepare_touched hen ℓ with ⟨active, rfl, hphase⟩ | hsub
    · rw [hphase]
      exact hen.2.2.1
    · exact hsub.nodup (h.nodup ℓ)
  touched := by
    intro ℓ c hc
    refine Nat.lt_of_lt_of_le ?_ (prepare_nextConn w l)
    rcases prepare_touched hen ℓ with ⟨active, rfl, hphase⟩ | hsub
    · rw [hphase] at hc
      obtain ⟨a, ha, rfl⟩ := List.mem_map.mp hc
      obtain ⟨k, -, hk, -⟩ := hen.2.2.2 a ha
      exact hsound.fresh a.1 k hk
    · exact h.touched ℓ c (hsub.mem hc)

theorem Tidy.acted (h : Tidy w) (hold : k.self < w.nextConn) (hact : Acted w t c a w' k y) :
    Tidy w' where
  queued := by
    intro ℓ f hf
    rw [hact.nextConn]
    rcases hact.queued_cases hf with hf | hadd
    · exact h.queued ℓ f hf
    · exact hadd.conn ▸ hold
  nodup := by
    intro ℓ
    rw [hact.phase]
    exact h.nodup ℓ
  touched := by
    intro ℓ c hc
    rw [hact.phase] at hc
    rw [hact.nextConn]
    exact h.touched ℓ c hc

theorem Tidy.active {ℓ : LoopId} (h : Tidy w) (hc : c ∈ (w.loops ℓ).phase.active) :
    c < w.nextConn :=
  h.touched ℓ c ((Phase.active_sublist _).mem hc)

theorem Tidy.step {l : Label} (h : Tidy w) (hsound : Sound w) (hstep : reactor.Step w l w') :
    Tidy w' := by
  obtain ⟨hen, hstep⟩ := hstep
  rcases step_cases hstep with rfl | ⟨t, c, a, k, y, -, hact⟩
  · exact h.prepare hsound hen
  · refine (h.prepare hsound hen).acted ?_ hact
    rw [((hsound.prepare l).ident c k hact.before).1]
    exact (hsound.prepare l).fresh c k hact.before

/-! ## Calls of `connectionCallback_` -/

structure Announced (w : World) : Prop where
  /-- A connection waits for `establishConnection` on its own loop, once, and
  in silence. -/
  waiting : ∀ ℓ c, .establishConnection c ∈ w.queued ℓ →
    c < w.nextConn ∧ (w.queued ℓ).count (.establishConnection c) = 1 ∧
    ∀ k, w.conns c = some k → k.loop_ = ℓ ∧ k.log.connectionCalls = []
  /-- Stores of other threads are those of `shutdown` and `forceClose`. -/
  stores : ∀ c state ℓ f, .store c state ℓ f ∈ w.handovers → state = .kDisconnecting
  silent : ∀ c k, w.conns c = some k → k.log.connectionCalls = [] → k.state_ ≠ .kConnected
  calls : ∀ c k, w.conns c = some k → k.log.destroyed = false →
    k.log.connectionCalls = [] ∨ k.log.connectionCalls = [true]

theorem announced_init (server : TcpServer) (client : TcpClient) :
    Announced (World.init server client) where
  waiting := fun _ _ h => by cases h
  stores := fun _ _ _ _ h => by cases h
  silent := fun _ _ h => by cases h
  calls := fun _ _ h => by cases h

theorem Announced.prepare {l : Label} (h : Announced w) (hen : w.Enabled l) :
    Announced (w.prepare l) where
  waiting := by
    intro ℓ c hc
    have hcount := prepare_queued hen ℓ (.establishConnection c)
    have hpos := List.count_pos_iff.mpr hc
    obtain ⟨hlt, hone, hk⟩ := h.waiting ℓ c (List.count_pos_iff.mp (by omega))
    refine ⟨Nat.lt_of_lt_of_le hlt (prepare_nextConn w l), by omega, fun k hconn => ?_⟩
    rcases prepare_conns hconn with hconn | ⟨rfl, -⟩
    · exact hk k hconn
    · exact absurd hlt (Nat.lt_irrefl _)
  stores := fun c state ℓ f hs => h.stores c state ℓ f (prepare_stores hs)
  silent := by
    intro c k hc hcalls
    rcases prepare_conns hc with hc | ⟨-, ℓ, name, fd, cb, wc, rfl, -⟩
    · exact h.silent c k hc hcalls
    · exact fun h => by cases h
  calls := by
    intro c k hc hd
    rcases prepare_conns hc with hc | ⟨-, ℓ, name, fd, cb, wc, rfl, -⟩
    · exact h.calls c k hc hd
    · exact .inl rfl

theorem Announced.acted (h : Announced w) (hself : k.self = c) (hact : Acted w t c a w' k y)
    (hest : a = .establishConnection ∨ a = .runEstablish →
      c < w.nextConn ∧ k.log.connectionCalls = [] ∧ ∀ ℓ, .establishConnection c ∉ w.queued ℓ)
    (hstore : ∀ value, a = .store value → value = .kDisconnecting) : Announced w' where
  waiting := by
    intro ℓ d hd
    rw [hact.nextConn]
    by_cases hadd : (Functor.establishConnection d).AddedBy a t k y.effects ℓ
    · -- the functor is new: the connection waits from now on
      obtain ⟨rfl, rfl, rfl, hout⟩ := hadd
      subst hself
      obtain ⟨hlt, hcalls, hno⟩ := hest (.inr rfl)
      have hy := hact.runEstablish_outside hout
      refine ⟨hlt, ?_, fun k' hk' => ?_⟩
      · rw [hact.queued, List.count_eq_zero.mpr (hno _), hy]
        simp [ConnRun.emit, Effect.adds]
      · rw [hact.after, hy] at hk'
        cases hk'
        exact ⟨rfl, hcalls⟩
    · have hold := hact.queued_same hadd
      have hmem : .establishConnection d ∈ w.queued ℓ :=
        List.count_pos_iff.mp (hold ▸ List.count_pos_iff.mpr hd)
      obtain ⟨hlt, hone, hk⟩ := h.waiting ℓ d hmem
      refine ⟨hlt, hold.trans hone, fun k' hk' => ?_⟩
      rcases hact.cases hk' with ⟨rfl, rfl⟩ | ⟨-, hk'⟩
      · obtain ⟨hloop, hcalls⟩ := hk k hact.before
        refine ⟨hact.ran.loop.trans hloop, ?_⟩
        rcases hact.ran.moves.connectionCalls with heq | ⟨ha, -⟩ | ⟨-, hconnected, -⟩
        · exact heq.trans hcalls
        · exact absurd hmem ((hest ha).2.2 ℓ)
        · exact absurd hconnected (h.silent d k hact.before hcalls)
      · exact hk k' hk'
  stores := by
    intro d state ℓ f hs
    rcases hact.stores_cases hs with hs | ⟨-, hstate, -⟩
    · exact h.stores d state ℓ f hs
    · exact hstate
  silent := by
    intro d k' hd hcalls
    -- the state becomes `kConnected` together with the first notification
    rcases hact.cases hd with ⟨rfl, rfl⟩ | ⟨-, hd⟩
    · rcases hact.ran.moves.connectionCalls with heq | ⟨-, heq, -⟩ | ⟨-, -, heq, -⟩
      · exact hact.ran.moves.not_connected (h.silent d k hact.before (heq ▸ hcalls)) heq
          fun value hv => by simp [hstore value hv]
      · simp [heq] at hcalls
      · simp [heq] at hcalls
    · exact h.silent d k' hd hcalls
  calls := by
    intro d k' hd hdestroyed
    -- the second notification comes with the end
    rcases hact.cases hd with ⟨rfl, rfl⟩ | ⟨-, hd⟩
    · rcases hact.ran.moves.connectionCalls with heq | ⟨ha, heq, hsame⟩ | ⟨-, -, -, htrue⟩
      · have hk : k.log.destroyed = false := by
          rcases hact.ran.moves.destroyed with hsame | ⟨-, htrue⟩
          · exact hsame ▸ hdestroyed
          · rw [htrue] at hdestroyed
            cases hdestroyed
        rw [heq]
        exact h.calls d k hact.before hk
      · refine .inr ?_
        rw [heq, (hest ha).2.1]
        rfl
      · rw [htrue] at hdestroyed
        cases hdestroyed
    · exact h.calls d k' hd hdestroyed

/-- What makes a connection established is due to it. -/
theorem Announced.due {l : Label} (h : Announced w) (hsound : Sound w) (hen : w.Enabled l)
    (hruns : w.Runs l t c a) (hc : (w.prepare l).conns c = some k)
    (ha : a = .establishConnection ∨ a = .runEstablish) :
    c < (w.prepare l).nextConn ∧ k.log.connectionCalls = [] ∧
    ∀ ℓ, .establishConnection c ∉ (w.prepare l).queued ℓ := by
  -- a new connection is in no queue
  have hnew : c = w.nextConn → k.log.connectionCalls = [] ∧
      ∀ ℓ, .establishConnection c ∉ (w.prepare l).queued ℓ := by
    intro hcn
    refine ⟨?_, fun ℓ hmem => ?_⟩
    · rcases prepare_conns hc with hold | ⟨-, _, _, _, _, _, rfl, -⟩
      · rw [hcn, hsound.next] at hold
        cases hold
      · rfl
    · have hcount := prepare_queued hen ℓ (.establishConnection c)
      have hpos := List.count_pos_iff.mpr hmem
      have hlt := (h.waiting ℓ c (List.count_pos_iff.mp (by omega))).1
      exact absurd hlt (hcn ▸ Nat.lt_irrefl _)
  cases hruns with
  | accept => exact ⟨Nat.lt_succ_self _, hnew rfl⟩
  | newConnection => exact ⟨Nat.lt_succ_self _, hnew rfl⟩
  | @functor ℓ write f batch a phase act =>
      cases f with
      | establishConnection d =>
          have hpop : w.popped (.runFunctor ℓ write) = [(ℓ, .establishConnection d)] := by
            simp [popped, EventLoop.batch, phase]
          have hmem : .establishConnection d ∈ w.queued ℓ := by
            simp [queued, EventLoop.batch, phase]
          obtain ⟨hlt, hone, hk⟩ := h.waiting ℓ d hmem
          have hk := hk k hc
          refine ⟨hlt, hk.2, fun ℓ' hmem' => ?_⟩
          have hcount := prepare_queued hen ℓ' (.establishConnection d)
          have hpos := List.count_pos_iff.mpr hmem'
          have hℓ := ((h.waiting ℓ' d (List.count_pos_iff.mp (by
            simp only [Functor.conn] at hpos
            omega))).2.2 k hc).1
          rw [hk.1] at hℓ
          subst hℓ
          rw [hpop] at hcount
          simp only [Functor.conn] at hpos
          simp at hcount
          omega
      | _ => rcases ha with rfl | rfl <;> cases act
  | _ => rcases ha with ha | ha <;> cases ha

theorem Announced.store_value {l : Label} {value : State} (h : Announced w)
    (hruns : w.Runs l t c (.store value)) : value = .kDisconnecting := by
  obtain ⟨i, ℓ, f, -, handover⟩ := hruns.store_inv
  exact h.stores _ _ _ _ (List.mem_of_getElem? handover)

theorem Announced.step {l : Label} (h : Announced w) (hsound : Sound w)
    (hstep : reactor.Step w l w') : Announced w' := by
  obtain ⟨hen, hstep⟩ := hstep
  rcases step_cases hstep with rfl | ⟨t, c, a, k, y, haction, hact⟩
  · exact h.prepare hen
  · have hruns := action_runs haction
    exact (h.prepare hen).acted ((hsound.prepare l).ident c k hact.before).1 hact
      (h.due hsound hen hruns hact.before) fun value ha => h.store_value (ha ▸ hruns)

theorem reachable_announced {server : TcpServer} {client : TcpClient} {ls : List Label}
    (hrun : reactor.Run (World.init server client) ls w) : Announced w :=
  (hrun.invariant (I := fun w => Sound w ∧ Announced w)
    ⟨sound_init server client, announced_init server client⟩
    fun _ _ _ h hstep => ⟨h.1.step hstep, h.2.step h.1 hstep⟩).2

end World

end Ham.Net
