import Ham.Net.Standing

/-!
# Who keeps a connection

A connection of a server at work is stored in `connections_` until its
`removeConnectionInLoop`, then on its way to `destoryConnection` in the queue of
its loop, and then destroyed: one of the three at a time (`Owns`). So the last
`shared_ptr` goes only behind `destoryConnection`, when no epoller, no queue and
no poll knows the connection (`Owns.forgotten`), which is what `Standing` asks
for. With the invariants of the modules before (`AtWork`) no step faults
(`server_faultless`), and no connection is lost or left over
(`connections_owned`).
-/

namespace Ham.Net

open Ham.Lib

namespace World

variable {w w' : World} {t : Thread} {c : ConnId} {a : Action} {k : TcpConnection} {y : ConnRun}
  {l : Label} {ℓ : LoopId} {f : Functor} {hostPost : Bytes}

/-! ## What a step does to a queue and to an entry -/

/-- A functor leaves a queue only to run. -/
theorem step_queued (hstep : reactor.Step w l w') (hf : f ∈ w.queued ℓ) :
    f ∈ w'.queued ℓ ∨
    ∃ write batch, l = .runFunctor ℓ write ∧ (w.loops ℓ).phase = .functors (f :: batch) := by
  obtain ⟨hen, hstep⟩ := hstep
  by_cases hpop : (ℓ, f) ∈ w.popped l
  · refine .inr ?_
    cases l with
    | runFunctor ℓ₀ write =>
        obtain ⟨g, batch, hphase, -⟩ := hen
        simp only [popped, EventLoop.batch, hphase, List.take_succ_cons, List.take_zero,
          List.map_cons, List.map_nil, List.mem_singleton, Prod.mk.injEq] at hpop
        obtain ⟨rfl, rfl⟩ := hpop
        exact ⟨write, batch, rfl, hphase⟩
    | _ => exact absurd hpop List.not_mem_nil
  · have hcount := prepare_queued hen ℓ f
    rw [List.count_eq_zero.mpr hpop, Nat.add_zero] at hcount
    have hpre : f ∈ (w.prepare l).queued ℓ :=
      List.count_pos_iff.mp (hcount ▸ List.count_pos_iff.mpr hf)
    rcases step_cases hstep with rfl | ⟨t, c, a, k, y, -, hact⟩
    · exact .inl hpre
    · refine .inl (List.count_pos_iff.mp ?_)
      rw [hact.queued]
      exact Nat.lt_of_lt_of_le (List.count_pos_iff.mpr hpre) (Nat.le_add_right _ _)

/-- The only new entry is that of a connection just accepted. -/
theorem step_entry (hstep : w.step l = .ok w') {name : Bytes} {d : ConnId}
    (hd : w'.server.connections_[name]? = some d) :
    w.server.connections_[name]? = some d ∨ d = w.nextConn := by
  have hpre : (w.prepare l).server.connections_[name]? = some d := by
    rcases step_cases hstep with rfl | ⟨t, c, a, k, y, -, hact⟩
    · exact hd
    · exact hact.connections name d hd
  cases l with
  | accept fd =>
      have hpre : (w.newConnectionCallback fd).server.connections_[name]? = some d := hpre
      rw [(newConnectionCallback_server w fd).2.2.1, Std.ExtTreeMap.getElem?_insert] at hpre
      split_ifs at hpre
      · exact .inr (Option.some.inj hpre).symm
      · exact .inl hpre
  | advance i =>
      rw [show (w.prepare (.advance i)).server = w.server from advance_server w i] at hpre
      exact .inl hpre
  | release c =>
      rw [release_server] at hpre
      exact .inl hpre
  | destroyServerEnd => simp [World.prepare] at hpre
  | _ => exact .inl hpre

/-- Where a connection behind a step comes from. -/
theorem step_origin (hstep : w.step l = .ok w') (hserver : ServerOnly l) {k' : TcpConnection}
    (hk : w'.conns c = some k') :
    (∃ k, w.conns c = some k ∧ k'.name_ = k.name_ ∧ k'.loop_ = k.loop_ ∧
      (k'.log.connectionCalls = [] → k.log.connectionCalls = []) ∧
      (k'.log.destroyed = k.log.destroyed ∨ ∃ t, w.action l = some (t, c, .destoryConnection))) ∨
    ∃ fd, l = .accept fd ∧ c = w.nextConn ∧ k'.name_ = w.server.nextName ∧
      k'.log.destroyed = false := by
  rcases step_cases hstep with rfl | ⟨t, c', a, k, y, haction, hact⟩
  · rcases prepare_new hserver hk with hold | ⟨fd, rfl, rfl, rfl⟩
    · exact .inl ⟨k', hold, rfl, rfl, id, .inl rfl⟩
    · exact .inr ⟨fd, rfl, rfl, rfl, rfl⟩
  · rcases hact.cases hk with ⟨rfl, rfl⟩ | ⟨-, hk⟩
    · have hname : y.conn.name_ = k.name_ := hact.ran.name
      rcases prepare_new hserver hact.before with hold | ⟨fd, rfl, rfl, rfl⟩
      · refine .inl ⟨k, hold, hname, hact.ran.loop, fun hnil => ?_,
          hact.ran.moves.destroyed.imp id ?_⟩
        · rcases hact.ran.moves.connectionCalls with heq | ⟨-, heq, -⟩ | ⟨-, -, heq, -⟩
          · exact heq.symm.trans hnil
          · exact absurd (heq.symm.trans hnil) (by simp)
          · exact absurd (heq.symm.trans hnil) (by simp)
        · rintro ⟨rfl, -⟩
          exact ⟨t, haction⟩
      · refine .inr ⟨fd, rfl, rfl, hname, ?_⟩
        rcases hact.ran.moves.destroyed with hsame | ⟨rfl, -⟩
        · exact hsame
        · cases haction
    · rcases prepare_new hserver hk with hold | ⟨fd, rfl, rfl, rfl⟩
      · exact .inl ⟨k', hold, rfl, rfl, id, .inl rfl⟩
      · exact .inr ⟨fd, rfl, rfl, rfl, rfl⟩

/-! ## `removeConnectionInLoop` and `destoryConnection` -/

/-- `removeConnectionInLoop` erases the entry of its connection. -/
theorem effects_removed {es : List Effect} (h : es.foldlM (effect t k) w = .ok w')
    (hremoves : ∃ e ∈ es, e.Removes t k) : w'.server.connections_[k.name_]? = none := by
  induction es generalizing w with
  | nil =>
      obtain ⟨e, he, -⟩ := hremoves
      cases he
  | cons e es ih =>
      simp only [List.foldlM_cons, bind_eq_ok] at h
      obtain ⟨v, hv, h⟩ := h
      obtain ⟨e', he', hremoves⟩ := hremoves
      rcases List.mem_cons.mp he' with rfl | he'
      · have hremove : ∃ u, w.removeConnectionInLoop t k = .ok u ∧ u = v := by
          cases e' with
          | queueInLoop f => exact absurd hremoves id
          | storeThenQueue state f => exact absurd hremoves id
          | removeConnectionInLoop => exact ⟨v, hv, rfl⟩
          | closeCallback =>
              obtain ⟨hcb, ht⟩ := hremoves
              have hv : w.closeCallback t k = .ok v := hv
              simp only [closeCallback, hcb, ht, if_true] at hv
              split at hv
              · cases hv
              · exact ⟨v, ht ▸ hv, rfl⟩
        obtain ⟨u, hu, rfl⟩ := hremove
        have hnone := (removeConnectionInLoop_effected (e := .removeConnectionInLoop) rfl hu).2.2
        -- what comes behind only erases
        refine Option.eq_none_iff_forall_ne_some.mpr fun d hd => ?_
        have hthere := (effects_effected h).connections _ _ hd
        rw [hnone] at hthere
        cases hthere
      · exact ih h ⟨e', he', hremoves⟩

/-- Behind `removeConnectionInLoop` the entry is erased, and `destoryConnection`
is queued. -/
theorem Removes.step (h : w.Removes l c) (hsound : Sound w) (hstep : w.step l = .ok w') :
    ∃ k', w'.conns c = some k' ∧ .destoryConnection c ∈ w'.queued k'.loop_ ∧
      w'.server.connections_[k'.name_]? = none := by
  obtain ⟨t, a, k, y, haction, hk, hrun, e, he, hremoves⟩ := h
  obtain ⟨k₁, y₁, hact⟩ := step_acted haction hstep
  cases hact.before.symm.trans hk
  cases hact.returned.symm.trans hrun
  have hself : y.conn.self = c :=
    hact.ran.self.trans ((hsound.prepare l).ident c k hk).1
  refine ⟨y.conn, hact.after, ?_, ?_⟩
  · have hadds : (y.conn.loop_, Functor.destoryConnection c) ∈ e.adds t y.conn := by
      cases e with
      | queueInLoop f => exact absurd hremoves id
      | storeThenQueue state f => exact absurd hremoves id
      | removeConnectionInLoop => simp [Effect.adds, hself]
      | closeCallback =>
          obtain ⟨hcb, ht⟩ := hremoves
          simp [Effect.adds, hcb, ht, hself]
    refine List.count_pos_iff.mp ?_
    rw [hact.queued]
    have hpos := List.count_pos_iff.mpr (List.mem_flatMap.mpr ⟨e, he, hadds⟩)
    omega
  · have hfold := hstep
    simp only [World.step, haction, onConn, hk, hrun, ok_bind] at hfold
    exact effects_removed hfold ⟨e, he, hremoves⟩

/-- And nothing else queues it. -/
theorem removes_of_queued (hsound : Sound w) (hstanding : Standing w') (hstep : w.step l = .ok w')
    (hen : w.Enabled l) (hold : .destoryConnection c ∉ w.queued ℓ)
    (hnew : .destoryConnection c ∈ w'.queued ℓ) : w.Removes l c := by
  have hpre : .destoryConnection c ∉ (w.prepare l).queued ℓ :=
    fun hmem => hold (prepare_queued_mem hen hmem)
  rcases step_cases hstep with rfl | ⟨t, d, a, k, y, haction, hact⟩
  · exact absurd hnew hpre
  · have hpos := List.count_pos_iff.mpr hnew
    rw [hact.queued, List.count_eq_zero.mpr hpre, Nat.zero_add, List.count_pos_iff] at hpos
    obtain ⟨e, he, hadds⟩ := List.mem_flatMap.mp hpos
    have hself : y.conn.self = d :=
      hact.ran.self.trans ((hsound.prepare l).ident d k hact.before).1
    obtain ⟨hremoves, hc⟩ : e.Removes t y.conn ∧ c = y.conn.self := by
      cases e with
      | queueInLoop f =>
          simp only [Effect.adds, List.mem_singleton, Prod.mk.injEq] at hadds
          obtain ⟨-, rfl⟩ := hadds
          rcases hact.effect_of he with ⟨habout, -⟩ | ⟨-, heq, -⟩ | ⟨-, heq⟩
          · cases habout
          · cases heq
          · cases heq
      | storeThenQueue state f =>
          simp only [Effect.adds, List.mem_singleton, Prod.mk.injEq] at hadds
          obtain ⟨-, rfl⟩ := hadds
          rcases hact.effect_of he with ⟨habout, -⟩ | ⟨-, heq, -⟩ | ⟨-, heq⟩
          · cases habout
          · cases heq
          · cases heq
      | removeConnectionInLoop =>
          simp only [Effect.adds, List.mem_singleton, Prod.mk.injEq] at hadds
          exact ⟨trivial, Functor.destoryConnection.inj hadds.2⟩
      | closeCallback =>
          have hcb := hstanding.callback d y.conn hact.after
          simp only [Effect.adds, hcb] at hadds
          split at hadds
          · simp only [List.mem_singleton, Prod.mk.injEq] at hadds
            exact ⟨⟨hcb, ‹_›⟩, Functor.destoryConnection.inj hadds.2⟩
          · simp only [List.mem_singleton, Prod.mk.injEq] at hadds
            cases hadds.2
    rw [hc, hself]
    exact ⟨t, a, k, y, haction, hact.before, hact.returned, e, he, hremoves⟩

/-- `destoryConnection` destroys. -/
theorem step_destroys (hstep : w.step l = .ok w')
    (haction : w.action l = some (t, c, .destoryConnection)) {k' : TcpConnection}
    (hk : w'.conns c = some k') : k'.log.destroyed = true := by
  obtain ⟨k, y, hact⟩ := step_acted haction hstep
  cases hact.after.symm.trans hk
  have hspec := (ConnRun.destoryConnection_ok hact.returned).2.2.2
  split at hspec <;> rw [hspec]

/-- A connection that closes leaves `connections_`, or waits to. -/
theorem step_closed (hsound : Sound w) (hserver : ServerOnly l) (hstanding : Standing w')
    (hstep : w.step l = .ok w') {k' : TcpConnection} (hk : w'.conns c = some k')
    (hclosed : k'.log.closeCalls ≠ 0) :
    (∃ k, w.conns c = some k ∧ k.log.closeCalls ≠ 0) ∨ w.Removes l c ∨
      .removeConnectionInLoop c ∈ w'.queued 0 := by
  have hold : ∀ k, (w.prepare l).conns c = some k → k.log.closeCalls ≠ 0 →
      ∃ k, w.conns c = some k ∧ k.log.closeCalls ≠ 0 := by
    intro k hk hclosed
    rcases prepare_new hserver hk with hk | ⟨fd, -, -, rfl⟩
    · exact ⟨k, hk, hclosed⟩
    · exact absurd rfl hclosed
  rcases step_cases hstep with rfl | ⟨t, d, a, k, y, haction, hact⟩
  · exact .inl (hold k' hk hclosed)
  rcases hact.cases hk with ⟨rfl, rfl⟩ | ⟨-, hk⟩
  swap
  · exact .inl (hold k' hk hclosed)
  by_cases hclose : .closeCallback ∈ y.effects
  · have hcb := hstanding.callback c y.conn hact.after
    by_cases ht : t = some 0
    · exact .inr (.inl ⟨t, a, k, y, haction, hact.before, hact.returned, _, hclose, hcb, ht⟩)
    · have hself : y.conn.self = c :=
        hact.ran.self.trans ((hsound.prepare l).ident c k hact.before).1
      have hadds : (0, Functor.removeConnectionInLoop c) ∈
          Effect.closeCallback.adds t y.conn := by
        simp [Effect.adds, hcb, ht, hself]
      refine .inr (.inr (List.count_pos_iff.mp ?_))
      rw [hact.queued]
      have hpos := List.count_pos_iff.mpr (List.mem_flatMap.mpr ⟨_, hclose, hadds⟩)
      omega
  · refine .inl (hold k hact.before ?_)
    rwa [hact.closeCalls, List.count_eq_zero.mpr hclose] at hclosed

/-- `removeConnectionInLoop` out of the queue. -/
theorem removes_of_run {write : WriteResult} {batch : List Functor} (hsound : Sound w)
    (hphase : (w.loops 0).phase = .functors (.removeConnectionInLoop c :: batch))
    (hk : w.conns c = some k) : w.Removes (.runFunctor 0 write) c := by
  refine ⟨some 0, .removeConnectionInLoop, k, _, by simp [World.action, hphase, Functor.action,
    Functor.conn], prepare_keeps hk ?_ (by simp), rfl, .removeConnectionInLoop,
    List.mem_singleton_self _, trivial⟩
  rintro rfl
  rw [hsound.next] at hk
  cases hk

/-- Behind `establishConnection` the user has been told. -/
theorem step_establishes (hstep : w.step l = .ok w')
    (haction : w.action l = some (t, c, .establishConnection)) {k' : TcpConnection}
    (hk : w'.conns c = some k') : k'.log.connectionCalls ≠ [] := by
  obtain ⟨k, y, hact⟩ := step_acted haction hstep
  cases hact.after.symm.trans hk
  rw [(ConnRun.establishConnection_ok hact.returned).2.2.2]
  simp

/-- A new connection is established, or waits to be. -/
theorem accept_establishes {fd : Fd} (hsound : Sound w) (hstep : w.step (.accept fd) = .ok w')
    {k' : TcpConnection} (hk : w'.conns w.nextConn = some k') :
    k'.log.connectionCalls ≠ [] ∨ .establishConnection w.nextConn ∈ w'.queued k'.loop_ := by
  obtain ⟨k, y, hact⟩ := step_acted rfl hstep
  cases hact.after.symm.trans hk
  by_cases ht : some 0 = some k.loop_
  · have hreturned := hact.returned
    simp only [Action.run, ConnRun.isInLoopThread, decide_eq_true_eq, if_pos ht] at hreturned
    refine .inl ?_
    rw [(ConnRun.establishConnection_ok hreturned).2.2.2]
    simp
  · have hself : k.self = w.nextConn := ((hsound.prepare _).ident _ k hact.before).1
    have hqueued := hact.queued
    rw [hact.runEstablish_outside ht] at hqueued ⊢
    refine .inr (List.count_pos_iff.mp ?_)
    rw [hqueued]
    simp [ConnRun.emit, Effect.adds, hself]

/-! ## The client stays out -/

theorem queueInLoop_client (w : World) (t : Thread) (ℓ : LoopId) (f : Functor) :
    (w.queueInLoop t ℓ f).client = w.client := by
  unfold queueInLoop
  split <;> rfl

theorem effects_client {es : List Effect} (h : es.foldlM (effect t k) w = .ok w')
    (hcb : k.closeCallback_ = .server) : w'.client = w.client := by
  have hremove : ∀ {v v' : World}, v.removeConnectionInLoop t k = .ok v' →
      v'.client = v.client := by
    intro v v' h
    unfold removeConnectionInLoop at h
    split_ifs at h
    cases h
    exact queueInLoop_client _ t k.loop_ _
  induction es generalizing w with
  | nil =>
      cases h
      rfl
  | cons e es ih =>
      simp only [List.foldlM_cons, bind_eq_ok] at h
      obtain ⟨v, hv, h⟩ := h
      refine (ih h).trans ?_
      cases e with
      | queueInLoop f =>
          cases hv
          exact queueInLoop_client w t k.loop_ f
      | storeThenQueue state f =>
          cases hv
          rfl
      | removeConnectionInLoop => exact hremove hv
      | closeCallback =>
          have hv : w.closeCallback t k = .ok v := hv
          simp only [closeCallback, hcb] at hv
          split_ifs at hv
          · exact hremove hv
          · cases hv
            exact queueInLoop_client w t 0 _

theorem step_client (hstep : w.step l = .ok w') (hserver : ServerOnly l)
    (hstanding : Standing w') : w'.client = w.client := by
  have hpre : (w.prepare l).client = w.client := by
    cases l with
    | newConnection fd peer => exact absurd hserver id
    | newConnectionReturn => exact absurd hserver id
    | destroyClient unique => exact absurd hserver id
    | advance i =>
        simp only [World.prepare, World.advance]
        split <;> rfl
    | release d =>
        simp only [World.prepare]
        split <;> rfl
    | _ => rfl
  cases haction : w.action l with
  | none =>
      simp only [World.step, haction] at hstep
      cases hstep
      exact hpre
  | some act =>
      obtain ⟨t, c, a⟩ := act
      obtain ⟨k, y, hact⟩ := step_acted haction hstep
      simp only [World.step, haction, onConn, hact.before, hact.returned, ok_bind] at hstep
      exact (effects_client hstep (hstanding.callback c y.conn hact.after)).trans hpre

/-! ## The owners of a connection -/

/-- Who keeps a connection, while there is no client. -/
structure Owns (w : World) : Prop where
  /-- It is established, or waits to be; -/
  arriving : ∀ c k, w.conns c = some k → k.log.connectionCalls = [] →
    .establishConnection c ∈ w.queued k.loop_
  /-- The server does, or the call of `destoryConnection` that is queued, or it
  is destroyed; -/
  kept : ∀ c k, w.conns c = some k → w.server.connections_[k.name_]? = some c ∨
    .destoryConnection c ∈ w.queued k.loop_ ∨ k.log.destroyed = true
  /-- the server does so until it closes; -/
  leaving : ∀ c k, w.conns c = some k → w.server.connections_[k.name_]? = some c →
    k.log.closeCalls = 0 ∨ .removeConnectionInLoop c ∈ w.queued 0
  /-- and from then on it does not. -/
  gone : ∀ c k, w.conns c = some k → w.server.connections_[k.name_]? = some c →
    .destoryConnection c ∉ w.queued k.loop_ ∧ k.log.destroyed = false
  established : w.client.establishedConnection_ = none
  establishing : w.client.establishing = none

theorem owns_init (server : TcpServer) (client : TcpClient) : Owns (World.init server client) where
  arriving := fun _ _ h => by cases h
  leaving := fun _ _ h => by cases h
  kept := fun _ _ h => by cases h
  gone := fun _ _ h => by cases h
  established := rfl
  establishing := rfl

/-- A functor with a `shared_ptr` holds its connection, wherever it waits. -/
theorem held_of_queued (hf : f ∈ w.queued ℓ) (howning : f.owning = true) : w.HeldByLoop f.conn := by
  rcases List.mem_append.mp hf with hf | hf
  · exact .inl ⟨ℓ, f, hf, howning, rfl⟩
  · obtain ⟨x, hx, rfl⟩ := List.mem_map.mp hf
    exact .inr (.inl ⟨x, (List.mem_filter.mp hx).1, rfl⟩)

/-- The last `shared_ptr` goes behind `destoryConnection`, when nothing points
to the connection any more. -/
theorem Owns.forgotten (h : Owns w) (hstanding : Standing w) (honce : Once w)
    (hen : w.Enabled (.release c)) : Forgotten w c := by
  have hqueued : ∀ ℓ f, f ∈ w.queued ℓ → f.conn ≠ c := by
    rintro ℓ f hf rfl
    refine hen (.inr (.inr (.inr (held_of_queued hf ?_))))
    cases f with
    | sendInLoop d msg => exact absurd hf (honce.sendInLoop ℓ d msg)
    | shutdownInLoop d => exact absurd hf (honce.shutdownInLoop ℓ d)
    | _ => rfl
  have hdestroyed : ∀ k, w.conns c = some k → k.log.destroyed = true := by
    intro k hk
    rcases h.kept c k hk with hstored | hmem | hdestroyed
    · exact absurd (.inl ⟨k.name_, hstored⟩) hen
    · exact absurd rfl (hqueued _ _ hmem)
    · exact hdestroyed
  refine ⟨hdestroyed, hqueued, fun ℓ hmem => ?_⟩
  obtain ⟨k, hk, -⟩ := hstanding.touched ℓ c hmem
  -- a channel whose turn is to come is up, and one in its turn is held by its event
  have hactive : c ∉ (w.loops ℓ).phase.active := by
    intro hactive
    have hfalse := honce.not_destroyed hk (honce.active ℓ c k hactive hk).2.2
    rw [hdestroyed k hk] at hfalse
    cases hfalse
  cases hphase : (w.loops ℓ).phase with
  | waiting => simp [Phase.touched, hphase] at hmem
  | functors batch => simp [Phase.touched, hphase] at hmem
  | events active =>
      rw [hphase] at hmem hactive
      exact hactive hmem
  | handling d revents inMessage active =>
      rw [hphase] at hmem hactive
      rcases List.mem_cons.mp hmem with rfl | hmem
      · exact hen (.inr (.inr (.inr (.inr (.inr ⟨ℓ, revents, inMessage, active, hphase⟩)))))
      · exact hactive hmem

/-- Who runs `destoryConnection` took it from the queue. -/
theorem Owns.destroying (hstanding : Standing w) (hsound : Sound w) (honce : Once w)
    (hen : w.Enabled l) (hproper : Proper w l)
    (haction : w.action l = some (t, c, .destoryConnection)) (hk : w.conns c = some k) :
    .destoryConnection c ∈ w.queued k.loop_ := by
  have hloop := (hstanding.onLoopThread hsound honce hen hproper).2 t c _ k haction hk (by simp)
  have hruns := action_runs haction
  cases hruns with
  | @functor ℓ write f batch a phase act =>
      cases hloop
      have hmem := (functor_popped hen phase).1
      cases f with
      | destoryConnection d => exact hmem
      | _ => cases act
  | destroyNext destroying =>
      rw [hstanding.whole] at destroying
      cases destroying

/-! ## What a step keeps -/

/-- Nothing but `establishConnection` takes the functor away. -/
theorem Owns.step_arriving (h : Owns w) (hsound : Sound w) (hstep : reactor.Step w l w')
    (hserver : ServerOnly l) {k' : TcpConnection} (hk : w'.conns c = some k')
    (hnil : k'.log.connectionCalls = []) : .establishConnection c ∈ w'.queued k'.loop_ := by
  rcases step_origin hstep.2 hserver hk with ⟨k, hold, -, hloop, hcalls, -⟩ | ⟨fd, rfl, rfl, -, -⟩
  · rcases step_queued hstep (h.arriving c k hold (hcalls hnil)) with
      hmem | ⟨write, batch, rfl, hphase⟩
    · exact hloop ▸ hmem
    · refine absurd hnil (step_establishes (t := some k.loop_) hstep.2 ?_ hk)
      simp [World.action, hphase, Functor.action, Functor.conn]
  · exact (accept_establishes hsound hstep.2 hk).resolve_left (not_not.mpr hnil)

/-- The server lets go by queueing `destoryConnection`. -/
theorem Owns.step_kept (h : Owns w) (hregistry : Registry hostPost w) (hsound : Sound w)
    (halive : w'.server.alive = true) (hstep : reactor.Step w l w') (hproper : Proper w l)
    {k' : TcpConnection} (hk : w'.conns c = some k') :
    w'.server.connections_[k'.name_]? = some c ∨ .destoryConnection c ∈ w'.queued k'.loop_ ∨
      k'.log.destroyed = true := by
  have hok := hstep.2
  rcases step_origin hok hproper.serverOnly hk with
    ⟨k, hold, hname, hloop, -, hdestroyed⟩ | ⟨fd, rfl, rfl, hname, -⟩
  · rcases h.kept c k hold with hstored | hmem | htrue
    · rcases hregistry.keeps hsound hstep hproper.serverOnly hproper.apart halive hstored with
        hstored | hremoves
      · exact .inl (hname ▸ hstored)
      · obtain ⟨k₁, hk₁, hmem, -⟩ := hremoves.step hsound hok
        cases hk₁.symm.trans hk
        exact .inr (.inl hmem)
    · rcases step_queued hstep hmem with hmem | ⟨write, batch, rfl, hphase⟩
      · exact .inr (.inl (hloop ▸ hmem))
      · refine .inr (.inr (step_destroys (t := some k.loop_) hok ?_ hk))
        simp [World.action, hphase, Functor.action, Functor.conn]
    · refine .inr (.inr ?_)
      rcases hdestroyed with hsame | ⟨t, haction⟩
      · exact hsame.trans htrue
      · exact step_destroys hok haction hk
  · exact .inl (hname ▸ accept_entry hok)

/-- An entry behind a step was there, or is that of the connection accepted. -/
theorem stored_before (hsound : Sound w) (hstep : w.step l = .ok w') {k k' : TcpConnection}
    (hk : w.conns c = some k) (hname : k'.name_ = k.name_)
    (hstored : w'.server.connections_[k'.name_]? = some c) :
    w.server.connections_[k.name_]? = some c := by
  rcases step_entry hstep hstored with hold | rfl
  · exact hname ▸ hold
  · rw [hsound.next] at hk
    cases hk

theorem Owns.step_leaving (h : Owns w) (hsound : Sound w) (hstanding : Standing w')
    (hstep : reactor.Step w l w') (hserver : ServerOnly l) {k' : TcpConnection}
    (hk : w'.conns c = some k') (hstored : w'.server.connections_[k'.name_]? = some c) :
    k'.log.closeCalls = 0 ∨ .removeConnectionInLoop c ∈ w'.queued 0 := by
  have hstays : ¬ w.Removes l c := by
    intro hremoves
    obtain ⟨k₁, hk₁, -, herased⟩ := hremoves.step hsound hstep.2
    cases hk₁.symm.trans hk
    rw [hstored] at herased
    cases herased
  by_cases hclosed : k'.log.closeCalls = 0
  · exact .inl hclosed
  refine .inr ?_
  rcases step_closed hsound hserver hstanding hstep.2 hk hclosed with
    ⟨k, hold, hclosed⟩ | hremoves | hmem
  · have hname : k'.name_ = k.name_ := by
      rcases step_origin hstep.2 hserver hk with ⟨k₁, hk₁, hname, -⟩ | ⟨fd, -, rfl, -⟩
      · cases hk₁.symm.trans hold
        exact hname
      · rw [hsound.next] at hold
        cases hold
    have hmem := (h.leaving c k hold (stored_before hsound hstep.2 hold hname hstored)).resolve_left
      hclosed
    rcases step_queued hstep hmem with hmem | ⟨write, batch, rfl, hphase⟩
    · exact hmem
    · exact absurd (removes_of_run hsound hphase hold) hstays
  · exact absurd hremoves hstays
  · exact hmem

/-- What is stored has no `destoryConnection` before it or behind it. -/
theorem Owns.step_gone (h : Owns w) (hstanding : Standing w) (hstanding' : Standing w')
    (hsound : Sound w) (htidy : Tidy w) (honce : Once w) (hstep : reactor.Step w l w')
    (hproper : Proper w l) {k' : TcpConnection} (hk : w'.conns c = some k')
    (hstored : w'.server.connections_[k'.name_]? = some c) :
    .destoryConnection c ∉ w'.queued k'.loop_ ∧ k'.log.destroyed = false := by
  obtain ⟨hen, hok⟩ := id hstep
  have hnotqueued : .destoryConnection c ∉ w.queued k'.loop_ →
      .destoryConnection c ∉ w'.queued k'.loop_ := by
    intro hold hnew
    obtain ⟨k₁, hk₁, -, herased⟩ :=
      (removes_of_queued hsound hstanding' hok hen hold hnew).step hsound hok
    cases hk₁.symm.trans hk
    rw [hstored] at herased
    cases herased
  rcases step_origin hok hproper.serverOnly hk with
    ⟨k, hold, hname, hloop, -, hdestroyed⟩ | ⟨fd, rfl, rfl, -, hfalse⟩
  · obtain ⟨hmem, hfalse⟩ := h.gone c k hold (stored_before hsound hok hold hname hstored)
    refine ⟨hnotqueued (hloop ▸ hmem), ?_⟩
    rcases hdestroyed with hsame | ⟨t, haction⟩
    · exact hsame.trans hfalse
    · exact absurd (Owns.destroying hstanding hsound honce hen hproper haction hold) hmem
  · exact ⟨hnotqueued fun hmem => absurd (htidy.queued _ _ hmem) (Nat.lt_irrefl _), hfalse⟩

theorem Owns.step (h : Owns w) (hregistry : Registry hostPost w) (hstanding : Standing w)
    (hstanding' : Standing w') (hsound : Sound w) (htidy : Tidy w) (honce : Once w)
    (hstep : reactor.Step w l w') (hproper : Proper w l) : Owns w' := by
  have hclient := step_client hstep.2 hproper.serverOnly hstanding'
  exact {
    arriving := fun _ _ => h.step_arriving hsound hstep hproper.serverOnly
    kept := fun _ _ => h.step_kept hregistry hsound hstanding'.alive hstep hproper
    leaving := fun _ _ => h.step_leaving hsound hstanding' hstep hproper.serverOnly
    gone := fun _ _ => h.step_gone hstanding hstanding' hsound htidy honce hstep hproper
    established := hclient ▸ h.established
    establishing := hclient ▸ h.establishing }

/-! ## Over every run -/

/-- What holds of a server at work. -/
structure AtWork (hostPost : Bytes) (w : World) : Prop where
  sound : Sound w
  tidy : Tidy w
  announced : Announced w
  once : Once w
  registry : Registry hostPost w
  standing : Standing w
  owns : Owns w

theorem atWork_init {server : TcpServer} (client : TcpClient) (hid : server.nextConnId_ = 1) :
    AtWork server.hostPost_ (World.init server client) where
  sound := sound_init server client
  tidy := tidy_init server client
  announced := announced_init server client
  once := once_init server client
  registry := registry_init client hid
  standing := standing_init server client
  owns := owns_init server client

theorem AtWork.forgotten (h : AtWork hostPost w) (hen : w.Enabled l) :
    ∀ c, l = .release c → Forgotten w c := by
  rintro c rfl
  exact h.owns.forgotten h.standing h.once hen

theorem AtWork.step (h : AtWork hostPost w) (hstep : reactor.Step w l w')
    (hproper : Proper w l) : AtWork hostPost w' := by
  have hloop := h.standing.onLoopThread h.sound h.once hstep.1 hproper
  have hstanding := h.standing.step h.sound h.tidy h.announced h.once hstep hproper
    (h.forgotten hstep.1)
  exact {
    sound := h.sound.step hstep
    tidy := h.tidy.step h.sound hstep
    announced := h.announced.step h.sound hstep
    once := h.once.step h.sound h.tidy h.announced hstep hloop hproper.closes
    registry := h.registry.step h.sound hstep hproper.serverOnly hproper.apart
    standing := hstanding
    owns := h.owns.step h.registry h.standing hstanding h.sound h.tidy h.once hstep hproper }

theorem reachable_atWork {server : TcpServer} {client : TcpClient} {ls : List Label}
    (hid : server.nextConnId_ = 1)
    (hrun : (reactor.restrict Proper).Run (World.init server client) ls w) :
    AtWork server.hostPost_ w :=
  hrun.invariant (atWork_init client hid) fun _ _ _ h hstep =>
    have hstep := System.restrict_step.mp hstep
    h.step hstep.1 hstep.2

/-- Who keeps the connection: the server, the calls of `destoryConnection` that
wait, and the one that is over. -/
def owners (w : World) (c : ConnId) (k : TcpConnection) : Nat :=
  (if w.server.connections_[k.name_]? = some c then 1 else 0) +
    (w.queued k.loop_).count (.destoryConnection c) + k.log.destroyed.toNat

/-- Every loop is in `epoll_wait` with nothing to run. -/
def Resting (w : World) : Prop :=
  ∀ ℓ, (w.loops ℓ).phase = .waiting ∧ w.queued ℓ = []

/-- The connection serves: it is stored, established, not closed, and its loop
waits for its input. -/
structure Serves (w : World) (c : ConnId) (k : TcpConnection) : Prop where
  stored : w.server.connections_[k.name_]? = some c
  up : k.Up
  kernel : (w.loops k.loop_).epoller_.kernel k.channel_.fd_ = some (k.channel_.event_, c)
  reading : k.channel_.event_.epollin = true

structure Owned (w : World) : Prop where
  one : ∀ c k, w.conns c = some k → w.owners c k = 1
  /-- The last `shared_ptr` goes when nothing else points to the connection. -/
  last : ∀ c, w.Enabled (.release c) → Forgotten w c ∧
    ∀ ℓ fd, (w.loops ℓ).epoller_.channelMap_ fd ≠ some c ∧
      ∀ events, (w.loops ℓ).epoller_.kernel fd ≠ some (events, c)
  /-- No connection is left over. -/
  rest : w.Resting → ∀ c k, w.conns c = some k → w.Serves c k ∨ w.Enabled (.release c)

theorem AtWork.one (h : AtWork hostPost w) (hk : w.conns c = some k) : w.owners c k = 1 := by
  have hself : k.self = c := (h.sound.ident c k hk).1
  have hle := (h.once.accounted c k hk).trans (h.once.stage c k hk).closeCalls_le
  unfold teardowns at hle
  rw [hself] at hle
  unfold owners
  split
  · rename_i hstored
    obtain ⟨hmem, hfalse⟩ := h.owns.gone c k hk hstored
    rw [List.count_eq_zero.mpr hmem, hfalse]
    rfl
  · rename_i hstored
    rcases (h.owns.kept c k hk).resolve_left hstored with hmem | hdestroyed
    · have hpos := List.count_pos_iff.mpr hmem
      omega
    · rw [hdestroyed, Bool.toNat_true] at hle ⊢
      omega

/-- What is destroyed is in no epoller. -/
theorem AtWork.unregistered (h : AtWork hostPost w) (hforgotten : Forgotten w c) (ℓ : LoopId)
    (fd : Fd) : (w.loops ℓ).epoller_.channelMap_ fd ≠ some c ∧
      ∀ events, (w.loops ℓ).epoller_.kernel fd ≠ some (events, c) := by
  have hnew : ∀ k, w.conns c = some k → k.channel_.status_ = .kNew := fun k hk =>
    (h.standing.labelled c k hk).mpr (.inr (hforgotten.destroyed k hk))
  refine ⟨fun hmap => ?_, fun events hkernel => ?_⟩
  · obtain ⟨k, hk, rfl, rfl⟩ := h.standing.map ℓ fd c hmap
    have hnone := (h.standing.holds c k hk).map
    rw [if_pos (hnew k hk), hmap] at hnone
    cases hnone
  · obtain ⟨k, hk, -, -, hadded⟩ := h.sound.kernel ℓ fd events c hkernel
    rw [hnew k hk] at hadded
    cases hadded

/-- At rest nothing holds a connection but the server. -/
theorem AtWork.release_of_rest (h : AtWork hostPost w) (hrest : w.Resting)
    (hk : w.conns c = some k) (hstored : w.server.connections_[k.name_]? ≠ some c) :
    w.Enabled (.release c) := by
  rintro (⟨name, hname⟩ | hclient | hclient | hloop)
  · obtain ⟨k', hk', rfl⟩ := h.registry.stored name c hname
    cases hk'.symm.trans hk
    exact hstored hname
  · rw [h.owns.established] at hclient
    cases hclient
  · rw [h.owns.establishing] at hclient
    cases hclient
  · rcases hloop with ⟨ℓ, f, hf, -, -⟩ | ⟨x, hx, -⟩ | ⟨ℓ, revents, inMessage, active, hphase⟩
    · have hmem : f ∈ w.queued ℓ := List.mem_append_left _ hf
      rw [(hrest ℓ).2] at hmem
      cases hmem
    · have hmem : x.functor ∈ w.queued x.loop := List.mem_append_right _
        (List.mem_map_of_mem (List.mem_filter.mpr ⟨hx, decide_eq_true rfl⟩))
      rw [(hrest x.loop).2] at hmem
      cases hmem
    · rw [(hrest ℓ).1] at hphase
      cases hphase

/-- At rest a stored connection serves. -/
theorem AtWork.serves_of_rest (h : AtWork hostPost w) (hrest : w.Resting)
    (hk : w.conns c = some k) (hstored : w.server.connections_[k.name_]? = some c) :
    w.Serves c k := by
  have hnone : ∀ ℓ f, f ∉ w.queued ℓ := fun ℓ f hf => by
    rw [(hrest ℓ).2] at hf
    cases hf
  have hup : k.Up := ⟨fun hnil => hnone _ _ (h.owns.arriving c k hk hnil),
    (h.owns.leaving c k hk hstored).resolve_right (hnone _ _)⟩
  obtain ⟨hin, hadded⟩ := (h.once.stage c k hk).of_up hup
  have hkernel := (h.standing.holds c k hk).kernel
  rw [if_pos hadded, (h.sound.ident c k hk).2] at hkernel
  exact ⟨hstored, hup, hkernel, hin⟩

/-- A step of the loops or the kernel. -/
theorem proper_uncalled (hserver : ServerOnly l) (hstays : l ≠ .destroyServer)
    (huncalled : l.calls = none) (hcloses : ¬ ClosesTwice w l) (hapart : ¬ Collides w l) :
    Proper w l where
  serverOnly := hserver
  stays := hstays
  home := fun _ _ _ hcalls => by
    rw [huncalled] at hcalls
    cases hcalls
  closes := hcloses
  apart := hapart

end World

open World

/-- Every connection of a server at work has one owner at a time, and goes when
it has none. -/
theorem connections_owned {server : TcpServer} {client : TcpClient} {ls : List Label} {w : World}
    (hid : server.nextConnId_ = 1)
    (hrun : (reactor.restrict Proper).Run (World.init server client) ls w) : Owned w := by
  have h := reachable_atWork hid hrun
  refine ⟨fun c k hk => h.one hk, fun c hen => ?_, fun hrest c k hk => ?_⟩
  · have hforgotten := h.owns.forgotten h.standing h.once hen
    exact ⟨hforgotten, h.unregistered hforgotten⟩
  · by_cases hstored : w.server.connections_[k.name_]? = some c
    · exact .inl (h.serves_of_rest hrest hk hstored)
    · exact .inr (h.release_of_rest hrest hk hstored)

/-- A connection that the peer has closed: erased, and not yet destroyed. -/
theorem connections_owned_closed : ∃ ls w k, (reactor.restrict Proper).Run
    (World.init {} {}) ls w ∧ w.conns 0 = some k ∧ k.log.closeCalls = 1 ∧
    k.log.destroyed = false ∧ Owned w := by
  have hrun : ∃ w k, (reactor.restrict Proper).Run (World.init {} {})
      [.poll 0 [], .accept 7, .beginFunctors 0, .endFunctors 0,
        .poll 0 [(0, { epollin := true })], .handleEvent 0 .eof] w ∧
      w.conns 0 = some k ∧ k.log.closeCalls = 1 ∧ k.log.destroyed = false := by
    refine ⟨_, _, .cons ⟨⟨?_, proper_uncalled trivial (by simp) rfl id id⟩, rfl⟩
      (.cons ⟨⟨?_, proper_uncalled trivial (by simp) rfl id ?_⟩, rfl⟩
      (.cons ⟨⟨?_, proper_uncalled trivial (by simp) rfl id id⟩, rfl⟩
      (.cons ⟨⟨?_, proper_uncalled trivial (by simp) rfl id id⟩, rfl⟩
      (.cons ⟨⟨?_, proper_uncalled trivial (by simp) rfl id id⟩, rfl⟩
      (.cons ⟨⟨?_, proper_uncalled trivial (by simp) rfl ?_ id⟩, rfl⟩ (.nil _)))))),
      rfl, rfl, rfl⟩
    · exact ⟨rfl, not_busy rfl rfl, .nil, by simp⟩
    · exact ⟨rfl, ⟨_, rfl⟩, not_busy rfl rfl, fun _ _ h => by cases h⟩
    · rintro ⟨c, k, hk, -⟩
      cases hk
    · exact ⟨rfl, not_busy rfl rfl⟩
    · exact ⟨rfl, not_busy rfl rfl⟩
    · refine ⟨rfl, not_busy rfl rfl, by simp, fun a ha => ?_⟩
      cases List.mem_singleton.mp ha
      exact ⟨_, _, rfl, rfl⟩
    · exact ⟨⟨_, _, rfl⟩, not_busy rfl rfl, by simp⟩
    · rintro ⟨c, revents, active, hphase, hdouble⟩
      cases hphase
      exact absurd hdouble.1 (by decide)
  obtain ⟨w, k, hrun, hk, hclosed, hdestroyed⟩ := hrun
  exact ⟨_, w, k, hrun, hk, hclosed, hdestroyed, connections_owned rfl hrun⟩

end Ham.Net
