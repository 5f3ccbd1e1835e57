import Ham.Net.ReactorInvariant

/-!
# Every connection on its own loop

Between the base loop, which accepts and removes, and the loop of a connection
everything goes through a queue, and the queues are the right ones (`Homed`): a
functor waits at the loop of its connection, or it is `removeConnectionInLoop`
and waits at the base loop. So what belongs to a connection's loop runs on its
thread (`OwnLoop`), with one exception: `~TcpServer` calls `destoryConnection`
by itself, on the base loop, whatever loop the connection is on.
-/

namespace Ham.Net

open Ham.Lib

/-- Code that begins with `loop_->assertInLoopThread()`, or is a handler of the
channel. -/
def Action.inLoop : Action → Bool
  | .establishConnection | .destoryConnection | .handleEvent _ _ | .handleEventWrite _ _ _
  | .sendInLoop _ _ | .shutdownInLoop | .forceCloseInLoop => true
  | .runEstablish | .removeConnectionInLoop | .send _ _ | .shutdown | .forceClose | .store _
  | .detach _ => false

/-- The loop on which a functor may wait, for a connection of a given loop. -/
def Functor.home (ℓ : LoopId) : Functor → LoopId
  | .removeConnectionInLoop _ => 0
  | _ => ℓ

/-- `~TcpClient` installs `detail::removeConnection`. -/
theorem ConnRun.detach_closeCb {x y : ConnRun} {unique : Bool}
    (h : (Action.detach unique).run x = .ok y) : y.conn.closeCallback_ = .detail := by
  simp only [Action.run] at h
  split at h
  · exact (ConnRun.forceClose_kept h).1.closeCb
  · cases h
    rfl

theorem ConnRun.forceClose_elsewhere {x : ConnRun} (hout : x.isInLoopThread = false) :
    ∃ y, x.forceClose = .ok y := by
  simp only [ConnRun.forceClose, hout]
  split <;> exact ⟨_, rfl⟩

/-- What may be called from any thread returns, on a thread that is not the
loop's: it reaches no `assertInLoopThread`. -/
theorem Action.run_elsewhere {x : ConnRun} {a : Action} (hout : x.isInLoopThread = false)
    (ha : a.inLoop = false) : ∃ y, a.run x = .ok y := by
  cases a with
  | runEstablish => exact ⟨_, by rw [Action.run, hout]; rfl⟩
  | removeConnectionInLoop => exact ⟨_, rfl⟩
  | send msg write =>
      simp only [Action.run, ConnRun.send, hout]
      split <;> exact ⟨_, rfl⟩
  | shutdown =>
      simp only [Action.run, ConnRun.shutdown, hout]
      split <;> exact ⟨_, rfl⟩
  | forceClose => exact ConnRun.forceClose_elsewhere hout
  | store state => exact ⟨_, rfl⟩
  | detach unique =>
      cases unique with
      | false => exact ⟨_, rfl⟩
      | true => exact ConnRun.forceClose_elsewhere hout
  | _ => cases ha

namespace World

variable {w w' : World} {t : Thread} {c : ConnId} {a : Action} {k : TcpConnection} {y : ConnRun}
  {l : Label}

/-! ## The invariant -/

structure Homed (w : World) : Prop where
  queued : ∀ ℓ f k, f ∈ w.queued ℓ → w.conns f.conn = some k → ℓ = f.home k.loop_
  touched : ∀ ℓ c k, c ∈ (w.loops ℓ).phase.touched → w.conns c = some k → ℓ = k.loop_
  /-- `TcpClient` has its connections on its own loop. -/
  client : ∀ c k, w.conns c = some k → k.closeCallback_ = .client → k.loop_ = w.client.loop_

theorem homed_init (server : TcpServer) (client : TcpClient) :
    Homed (World.init server client) where
  queued := fun _ _ _ h => by cases h
  touched := fun _ _ _ h => by cases h
  client := fun _ _ h => by cases h

theorem prepare_client_loop (w : World) (l : Label) :
    (w.prepare l).client.loop_ = w.client.loop_ := by
  cases l with
  | advance i =>
      simp only [prepare, advance]
      split <;> rfl
  | release c =>
      simp only [prepare]
      split <;> rfl
  | _ => rfl

theorem Homed.prepare (h : Homed w) (hsound : Sound w) (htidy : Tidy w) (hen : w.Enabled l) :
    Homed (w.prepare l) where
  queued := by
    intro ℓ f k hf hk
    have hmem := prepare_queued_mem hen hf
    rcases prepare_conns hk with hk | ⟨hc, -⟩
    · exact h.queued ℓ f k hmem hk
    · exact absurd (htidy.queued ℓ f hmem) (hc ▸ Nat.lt_irrefl _)
  touched := by
    intro ℓ c k hc hk
    rcases prepare_touched hen ℓ with ⟨active, rfl, hphase⟩ | hsub
    · -- the kernel reports what is registered with this loop
      rw [hphase] at hc
      obtain ⟨a, ha, rfl⟩ := List.mem_map.mp hc
      obtain ⟨k₀, e, -, hkernel⟩ := hen.2.2.2 a ha
      obtain ⟨k₁, hk₁, hloop, -⟩ := hsound.kernel ℓ _ e a.1 hkernel
      have hk : w.conns a.1 = some k := hk
      rw [hk] at hk₁
      cases hk₁
      exact hloop.symm
    · have hmem := hsub.mem hc
      rcases prepare_conns hk with hk | ⟨rfl, -⟩
      · exact h.touched ℓ c k hmem hk
      · exact absurd (htidy.touched ℓ _ hmem) (Nat.lt_irrefl _)
  client := by
    intro c k hk hclient
    rw [prepare_client_loop]
    rcases prepare_conns hk with hk | ⟨-, ℓ, name, fd, cb, wc, rfl, hcb⟩
    · exact h.client c k hk hclient
    · exact hcb hclient

/-- A functor comes to the queue of its connection's loop, or to that of the
base loop. -/
theorem AddedBy.home {es : List Effect} {ℓ : LoopId} {f : Functor}
    (h : f.AddedBy a t k es ℓ) : ℓ = f.home k.loop_ := by
  cases f with
  | removeConnectionInLoop d => exact h.2.1
  | establishConnection d => exact h.2.1
  | destoryConnection d => exact h.2.1
  | sendInLoop d msg => exact h.2.1
  | shutdownInLoop d => exact h.2.1
  | forceCloseInLoop d => exact h.2
  | writeCompleteCallback d => exact h.2
  | highWaterMarkCallback d n => exact h.2

theorem Homed.acted (h : Homed w) (hself : k.self = c) (hact : Acted w t c a w' k y) :
    Homed w' where
  queued := by
    intro ℓ f k' hf hk'
    have hloop : ∀ k₁, w'.conns f.conn = some k₁ → ∃ k₀, w.conns f.conn = some k₀ ∧
        k₁.loop_ = k₀.loop_ := by
      intro k₁ hk₁
      rcases hact.cases hk₁ with ⟨hc, rfl⟩ | ⟨-, hk₁⟩
      · exact ⟨k, hc ▸ hact.before, hact.ran.loop⟩
      · exact ⟨k₁, hk₁, rfl⟩
    obtain ⟨k₀, hk₀, hloop⟩ := hloop k' hk'
    rw [hloop]
    rcases hact.queued_cases hf with hold | hadd
    · exact h.queued ℓ f k₀ hold hk₀
    · rw [hadd.conn, hself, hact.before] at hk₀
      cases hk₀
      exact AddedBy.home hadd
  touched := by
    intro ℓ d k' hd hk'
    rw [hact.phase] at hd
    rcases hact.cases hk' with ⟨rfl, rfl⟩ | ⟨-, hk'⟩
    · exact (h.touched ℓ d k hd hact.before).trans hact.ran.loop.symm
    · exact h.touched ℓ d k' hd hk'
  client := by
    intro d k' hk' hclient
    rw [hact.client]
    rcases hact.cases hk' with ⟨rfl, rfl⟩ | ⟨-, hk'⟩
    · rw [show y.conn.loop_ = k.loop_ from hact.ran.loop]
      rcases hact.ran.closeCb with hsame | ⟨unique, rfl⟩
      · exact h.client d k hact.before (hsame.symm.trans hclient)
      · -- `~TcpClient` has put another callback in its place
        rw [ConnRun.detach_closeCb hact.returned] at hclient
        cases hclient
    · exact h.client d k' hk' hclient

theorem Homed.step (h : Homed w) (hsound : Sound w) (htidy : Tidy w)
    (hstep : reactor.Step w l w') : Homed w' := by
  obtain ⟨hen, hstep⟩ := hstep
  rcases step_cases hstep with rfl | ⟨t, c, a, k, y, -, hact⟩
  · exact h.prepare hsound htidy hen
  · exact (h.prepare hsound htidy hen).acted ((hsound.prepare l).ident c k hact.before).1 hact

theorem reachable_homed {server : TcpServer} {client : TcpClient} {ls : List Label}
    (hrun : reactor.Run (World.init server client) ls w) : Homed w :=
  (hrun.invariant (I := fun w => Sound w ∧ Tidy w ∧ Homed w)
    ⟨sound_init server client, tidy_init server client, homed_init server client⟩
    fun _ _ _ h hstep => ⟨h.1.step hstep, h.2.1.step h.1 hstep, h.2.2.step h.1 h.2.1 hstep⟩).2.2

/-! ## What a step runs -/

/-- A step keeps to the loops. -/
structure OwnLoop (w : World) (l : Label) : Prop where
  /-- What belongs to a connection's loop runs on its thread, -/
  inLoop : ∀ t c a k, w.action l = some (t, c, a) → (w.prepare l).conns c = some k →
    a.inLoop = true → t = some k.loop_
  /-- on another thread no `assertInLoopThread` is reached, -/
  elsewhere : ∀ t c a k, w.action l = some (t, c, a) → (w.prepare l).conns c = some k →
    t ≠ some k.loop_ → a.run ⟨t, ((w.prepare l).loops k.loop_).epoller_, k, []⟩ ≠ .error .critical
  /-- nor does one fail in what the connection asks of its server or client. -/
  owner : ∀ t c a k y, w.action l = some (t, c, a) → (w.prepare l).conns c = some k →
    a.run ⟨t, ((w.prepare l).loops k.loop_).epoller_, k, []⟩ = .ok y →
    ∀ e ∈ y.effects, ∀ v : World, v.client.loop_ = w.client.loop_ →
      v.effect t y.conn e ≠ .error .critical

/-- `~TcpServer` comes to a connection of another loop. -/
def Strays (w : World) : Label → Prop
  | .destroyNext => ∃ c rest k, w.server.destroying = some (c :: rest) ∧ w.conns c = some k ∧
      k.loop_ ≠ 0
  | _ => False

theorem Homed.inLoop (h : Homed w) (hen : w.Enabled l) (hstray : ¬ Strays w l)
    (haction : w.action l = some (t, c, a)) (hk : (w.prepare l).conns c = some k)
    (ha : a.inLoop = true) : t = some k.loop_ := by
  have hruns := action_runs haction
  cases hruns with
  | @handleEvent ℓ read c revents active phase =>
      refine congrArg some (h.touched ℓ c k ?_ hk)
      simp [Phase.touched, phase]
  | @handleEventWrite ℓ left write c revents inMessage active phase =>
      refine congrArg some (h.touched ℓ c k ?_ hk)
      simp [Phase.touched, phase]
  | @functor ℓ write f batch a phase act =>
      have hhome := h.queued ℓ f k (functor_popped hen phase).1 hk
      cases f with
      | removeConnectionInLoop d =>
          cases act
          cases ha
      | _ => exact congrArg some hhome
  | newConnection =>
      have hk : Function.update w.conns w.nextConn (some (w.newTcpConnection w.client.loop_ _ _
        .client w.client.writeCompleteCallback_)) w.nextConn = some k := hk
      rw [Function.update_self] at hk
      cases hk
      rfl
  | @destroyNext c rest destroying =>
      by_contra hne
      exact hstray ⟨c, rest, k, destroying, hk, fun hzero => hne (by rw [hzero])⟩
  | _ => cases ha

/-- The server and the client are asked on their own threads. -/
theorem Homed.effect (h : Homed w) (hen : w.Enabled l) (haction : w.action l = some (t, c, a))
    (hsound : Sound w) (htidy : Tidy w) (hk : (w.prepare l).conns c = some k)
    (hrun : a.run ⟨t, ((w.prepare l).loops k.loop_).epoller_, k, []⟩ = .ok y)
    {e : Effect} (he : e ∈ y.effects) {v : World} (hv : v.client.loop_ = w.client.loop_) :
    v.effect t y.conn e ≠ .error .critical := by
  have hran := Action.run_spec hrun
  have hloop : y.conn.loop_ = k.loop_ := hran.loop
  obtain ⟨es, hes, hof, -⟩ := hran.effects
  rw [List.nil_append] at hes
  -- `removeConnectionInLoop` finds itself on the base loop
  have hremove : t = some 0 → v.removeConnectionInLoop t y.conn ≠ .error .critical := by
    intro ht
    unfold removeConnectionInLoop
    rw [if_neg (not_not.mpr ht)]
    split_ifs with halive
    · simp
    · simp
  cases e with
  | queueInLoop f => simp [World.effect]
  | storeThenQueue state f => simp [World.effect]
  | removeConnectionInLoop =>
      apply hremove
      rcases hof _ (hes ▸ he) with habout | ⟨-, heq, -⟩ | ⟨ha, -⟩
      · cases habout
      · cases heq
      · subst ha
        obtain ⟨ℓ, write, batch, rfl, phase⟩ := (action_runs haction).removeConnectionInLoop_inv
        have haction' : w.action (.runFunctor ℓ write) =
            some (some ℓ, c, .removeConnectionInLoop) := by
          simp [World.action, phase, Functor.action, Functor.conn]
        cases haction.symm.trans haction'
        exact congrArg some (h.queued ℓ _ k (functor_popped hen phase).1 hk)
  | closeCallback =>
      have hin : t = some k.loop_ := by
        rcases hof _ (hes ▸ he) with habout | ⟨-, heq, -⟩ | ⟨-, heq⟩
        · exact of_decide_eq_true habout
        · cases heq
        · cases heq
      show v.closeCallback t y.conn ≠ _
      unfold closeCallback
      split
      · split_ifs with halive ht
        · exact hremove ht
        · simp
        · simp
      · rename_i hclient
        have hhere : t = some v.client.loop_ := by
          have hhome := (h.prepare hsound htidy hen).client c k hk
          rcases hran.closeCb with hsame | ⟨unique, rfl⟩
          · rw [hin, hv, hhome (hsame.symm.trans hclient), prepare_client_loop]
          · rw [ConnRun.detach_closeCb hrun] at hclient
            cases hclient
        rw [if_neg (not_not.mpr hhere)]
        split_ifs with halive
        · simp
        · simp
      · simp

theorem Homed.ownLoop (h : Homed w) (hsound : Sound w) (htidy : Tidy w) (hen : w.Enabled l)
    (hstray : ¬ Strays w l) : OwnLoop w l where
  inLoop := fun _ _ _ _ haction hk ha => h.inLoop hen hstray haction hk ha
  elsewhere := by
    intro t c a k haction hk hout
    cases ha : a.inLoop with
    | true => exact absurd (h.inLoop hen hstray haction hk ha) hout
    | false =>
        obtain ⟨y, hy⟩ := Action.run_elsewhere (x := ⟨t, _, k, []⟩) (decide_eq_false hout) ha
        rw [hy]
        simp
  owner := fun _ _ _ _ _ haction hk hrun _ he _ hv =>
    h.effect hen haction hsound htidy hk hrun he hv

end World

open World

/-- In every state of every run, with any number of IO threads, what can happen
next keeps to the loops if and only if it is not `~TcpServer` coming to a
connection of another loop. -/
theorem ownLoop_iff {server : TcpServer} {client : TcpClient} {ls : List Label} {w : World}
    {l : Label} (hrun : reactor.Run (World.init server client) ls w)
    (hen : reactor.enabled w l) : OwnLoop w l ↔ ¬ Strays w l := by
  obtain ⟨hsound, htidy⟩ := hrun.invariant (I := fun w => Sound w ∧ Tidy w)
    ⟨sound_init server client, tidy_init server client⟩
    fun _ _ _ h hstep => ⟨h.1.step hstep, h.2.step h.1 hstep⟩
  constructor
  · intro hown hstray
    cases l with
    | destroyNext =>
        obtain ⟨c, rest, k, hdestroying, hk, hne⟩ := hstray
        have haction : w.action .destroyNext = some (some 0, c, .destoryConnection) := by
          simp [World.action, hdestroying]
        exact hne (Option.some.inj (hown.inLoop _ _ _ k haction hk rfl)).symm
    | _ => cases hstray
  · exact (reachable_homed hrun).ownLoop hsound htidy hen

/-- A connection accepted on the base loop is established on that of the pool. -/
theorem ownLoop_establish : ∃ ls w,
    reactor.Run (World.init { numOfThreads_ := 1 } {}) ls w ∧
    w.action (.runFunctor 1 (.wrote 0)) = some (some 1, 0, .establishConnection) ∧
    OwnLoop w (.runFunctor 1 (.wrote 0)) := by
  have hrun : ∃ w, reactor.Run (World.init { numOfThreads_ := 1 } {})
      [.poll 0 [], .accept 7, .advance 0, .poll 1 [], .beginFunctors 1] w ∧
      w.action (.runFunctor 1 (.wrote 0)) = some (some 1, 0, .establishConnection) ∧
      reactor.enabled w (.runFunctor 1 (.wrote 0)) := by
    refine ⟨_, .cons ⟨?_, rfl⟩ (.cons ⟨?_, rfl⟩ (.cons ⟨?_, rfl⟩ (.cons ⟨?_, rfl⟩
      (.cons ⟨?_, rfl⟩ (.nil _))))), rfl, ?_⟩
    · exact ⟨rfl, not_busy rfl rfl, .nil, by simp⟩
    · exact ⟨rfl, ⟨_, rfl⟩, not_busy rfl rfl, fun _ _ h => by cases h⟩
    · exact Nat.zero_lt_one
    · exact ⟨rfl, not_busy rfl rfl, .nil, by simp⟩
    · exact ⟨rfl, not_busy rfl rfl⟩
    · exact ⟨_, _, rfl, not_busy rfl rfl, Nat.zero_le _⟩
  obtain ⟨w, hrun, haction, hen⟩ := hrun
  exact ⟨_, w, hrun, haction, (ownLoop_iff hrun hen).mpr id⟩

/-- The server is destroyed with that connection alive: its `destoryConnection`
aborts on the base loop. -/
theorem not_ownLoop_destroyServer : ∃ ls w,
    reactor.Run (World.init { numOfThreads_ := 1 } {}) ls w ∧ reactor.enabled w .destroyNext ∧
    w.step .destroyNext = .error .critical ∧ ¬ OwnLoop w .destroyNext := by
  have hrun : ∃ w k, reactor.Run (World.init { numOfThreads_ := 1 } {})
      [.poll 0 [], .accept 7, .advance 0, .poll 1 [], .beginFunctors 1, .runFunctor 1 (.wrote 0),
        .destroyServer] w ∧ reactor.enabled w .destroyNext ∧
      w.step .destroyNext = .error .critical ∧
      w.action .destroyNext = some (some 0, 0, .destoryConnection) ∧
      (w.prepare .destroyNext).conns 0 = some k ∧ k.loop_ = 1 := by
    refine ⟨_, _, .cons ⟨?_, rfl⟩ (.cons ⟨?_, rfl⟩ (.cons ⟨?_, rfl⟩ (.cons ⟨?_, rfl⟩
      (.cons ⟨?_, rfl⟩ (.cons ⟨?_, rfl⟩ (.cons ⟨?_, rfl⟩ (.nil _))))))), ?_, rfl, rfl, rfl, rfl⟩
    · exact ⟨rfl, not_busy rfl rfl, .nil, by simp⟩
    · exact ⟨rfl, ⟨_, rfl⟩, not_busy rfl rfl, fun _ _ h => by cases h⟩
    · exact Nat.zero_lt_one
    · exact ⟨rfl, not_busy rfl rfl, .nil, by simp⟩
    · exact ⟨rfl, not_busy rfl rfl⟩
    · exact ⟨_, _, rfl, not_busy rfl rfl, Nat.zero_le _⟩
    · exact ⟨rfl, rfl, fun _ _ _ h => by cases h⟩
    · exact ⟨_, _, rfl⟩
  obtain ⟨w, k, hrun, hen, hstep, haction, hk, hloop⟩ := hrun
  refine ⟨_, w, hrun, hen, hstep, fun hown => ?_⟩
  have hhere := hown.inLoop _ _ _ k haction hk rfl
  rw [hloop] at hhere
  cases hhere

end Ham.Net
