import Ham.Net.ReactorInvariant

/-!
# `forceClose`

`forceClose` marks the connection `kDisconnecting` and queues
`forceCloseInLoop`, which closes only what it finds `kConnected` or
`kDisconnecting`. A half-close in between (`HalfCloses`) sets `kDisconnected`
and turns the functor into nothing, and on a connection that is half-closed
already `forceClose` does nothing at all. Otherwise the loop's next round of
functors closes the connection (`forceClose_closes`).
-/

namespace Ham.Net

open Ham.Lib

namespace World

variable {w w' : World} {c : ConnId} {ℓ : LoopId} {k : TcpConnection} {l : Label}

/-- The step half-closes a connection that is not closed yet: `shutdownInLoop`
finds no output pending, or a writable event takes the last of it. -/
def HalfCloses (w : World) (c : ConnId) : Label → Prop
  | .runFunctor ℓ _ => ∃ batch k,
      (w.loops ℓ).phase = .functors (.shutdownInLoop c :: batch) ∧ w.conns c = some k ∧
      k.log.closeCalls = 0 ∧ k.channel_.isWriting = false
  | .handleEventWrite ℓ _ write => ∃ revents inMessage active k,
      (w.loops ℓ).phase = .handling c revents inMessage active ∧ w.conns c = some k ∧
      k.log.closeCalls = 0 ∧ revents.epollout = true ∧ Drains k write
  | _ => False

/-- `closeCallback_` of the connection has been called. -/
def Closed (w : World) (c : ConnId) : Prop := ∃ k, w.conns c = some k ∧ 1 ≤ k.log.closeCalls

/-- An established connection that `forceClose` has marked and nobody has
closed. -/
structure Doomed (w : World) (c : ConnId) (ℓ : LoopId) (k : TcpConnection) : Prop where
  conn : w.conns c = some k
  loop : k.loop_ = ℓ
  established : k.log.connectionCalls ≠ []
  open_ : k.log.closeCalls = 0
  state : k.state_ = .kDisconnecting

/-- The functor that will close the connection is on its way. -/
def Waits (w : World) (c : ConnId) (ℓ : LoopId) : Prop :=
  .forceCloseInLoop c ∈ (w.loops ℓ).batch ++ (w.loops ℓ).pendingFunctors_

/-- A connection with a functor on its way is not released. -/
theorem Waits.held (h : Waits w c ℓ) : w.Held c :=
  .inr (.inr (.inr (.inl ⟨ℓ, _, h, rfl, rfl⟩)))

theorem Doomed.prepare (h : Doomed w c ℓ k) (hsound : Sound w) (hwait : Waits w c ℓ)
    (hen : w.Enabled l) : Doomed (w.prepare l) c ℓ k where
  conn := prepare_keeps h.conn (Nat.ne_of_lt (hsound.fresh c k h.conn))
    fun hl => by
      subst hl
      exact hen hwait.held
  loop := h.loop
  established := h.established
  open_ := h.open_
  state := h.state

/-- An action on a doomed connection closes it, half-closes it, or leaves it
doomed. -/
theorem Doomed.acted {t : Thread} {a : Action} {y : ConnRun} (h : Doomed w c ℓ k)
    (hact : Acted w t c a w' k y)
    (hestablish : ¬ (a = .establishConnection ∨ a = .runEstablish))
    (hstore : ∀ value, a = .store value → value = .kDisconnecting)
    (hhalf : a = .shutdownInLoop → k.channel_.isWriting ≠ false)
    (hdrain : ∀ revents left write, a = .handleEventWrite revents left write →
      revents.epollout = true → ¬ Drains k write) :
    Closed w' c ∨ Doomed w' c ℓ y.conn := by
  have hloop : y.conn.loop_ = ℓ := hact.ran.loop.trans h.loop
  have hkeep : SameLog k y.conn → y.conn.state_ = .kDisconnecting → Doomed w' c ℓ y.conn :=
    fun hlog hstate => ⟨hact.after, hloop, hlog.connectionCalls ▸ h.established,
      hlog.closeCalls.trans h.open_, hstate⟩
  have hstate := h.state
  cases hact.ran.moves with
  | idle life channel => exact .inr (hkeep life.toSameLog (life.state.trans hstate))
  | rearm data write by_ rearms life channel =>
      exact .inr (hkeep life.toSameLog (life.state.trans hstate))
  | drain revents left write by_ out drains => exact absurd drains (hdrain _ _ _ by_ out)
  | close n by_ pos state channel connectionCalls closeCalls =>
      exact .inl ⟨y.conn, hact.after, by rw [closeCalls]; omega⟩
  | halfClose by_ idle =>
      rcases by_ with ha | ⟨-, hconnected⟩
      · exact absurd idle (hhalf ha)
      · rw [hstate] at hconnected
        cases hconnected
  | disconnecting by_ before state log => exact .inr (hkeep log state)
  | store value by_ state log => exact .inr (hkeep log (state.trans (hstore value by_)))
  | establish by_ => exact absurd by_ hestablish
  | stop by_ before =>
      rw [hstate] at before
      cases before
  | remove by_ before state channel connectionCalls closeCalls =>
      exact .inr ⟨hact.after, hloop, connectionCalls ▸ h.established,
        closeCalls.trans h.open_, state.trans hstate⟩

/-- The functor meets the doomed connection. -/
theorem Doomed.forceCloseInLoop {t : Thread} {y : ConnRun} (h : Doomed w c ℓ k)
    (hact : Acted w t c .forceCloseInLoop w' k y) : Closed w' c := by
  obtain ⟨-, hspec⟩ := ConnRun.forceCloseInLoop_ok hact.returned
  rw [if_pos (.inr h.state)] at hspec
  obtain ⟨-, -, -, hconn⟩ := ConnRun.handleClose_ok hspec
  exact ⟨y.conn, hact.after, by rw [hconn]; exact Nat.le_add_left 1 _⟩

/-- A step on a doomed connection closes it or leaves it doomed. -/
theorem Doomed.life (h : Doomed w c ℓ k) (hsound : Sound w) (hann : Announced w)
    (hwait : Waits w c ℓ) (hstep : reactor.Step w l w') (hhalf : ¬ HalfCloses w c l) :
    Closed w' c ∨ ∃ k', Doomed w' c ℓ k' := by
  obtain ⟨hen, hstep⟩ := hstep
  have hpre := h.prepare hsound hwait hen
  rcases step_cases hstep with rfl | ⟨t, d, a, k₀, y, haction, hact⟩
  · exact .inr ⟨k, hpre⟩
  · have hruns := action_runs haction
    by_cases hdc : c = d
    · subst hdc
      have hk₀ : k₀ = k := by
        have hbefore := hact.before
        rw [hpre.conn] at hbefore
        exact (Option.some.inj hbefore).symm
      subst hk₀
      refine (hpre.acted hact (fun ha => ?_) (fun value ha => ?_) (fun ha hw => ?_)
        fun revents left write ha hout hdrains => ?_).imp id fun hdoomed => ⟨_, hdoomed⟩
      · exact h.established (hann.due hsound hen hruns hact.before ha).2.1
      · subst ha
        exact hann.store_value hruns
      · subst ha
        obtain ⟨ℓ', write, batch, rfl, phase⟩ := hruns.shutdownInLoop_inv
        exact hhalf ⟨batch, k₀, phase, h.conn, h.open_, hw⟩
      · subst ha
        obtain ⟨ℓ', inMessage, active, rfl, phase⟩ := hruns.handleEventWrite_inv
        exact hhalf ⟨_, _, _, k₀, phase, h.conn, h.open_, hout, hdrains⟩
    · have hconn : w'.conns c = some k := by
        rw [hact.conns, Function.update_of_ne hdc]
        exact hpre.conn
      exact .inr ⟨k, hconn, h.loop, h.established, h.open_, h.state⟩

/-- The functor is run. -/
theorem Doomed.runFunctor (h : Doomed w c ℓ k) {write : WriteResult} {batch : List Functor}
    (hphase : (w.loops ℓ).phase = .functors (.forceCloseInLoop c :: batch))
    (hstep : reactor.Step w (.runFunctor ℓ write) w') : Closed w' c := by
  have haction : w.action (.runFunctor ℓ write) = some (some ℓ, c, .forceCloseInLoop) := by
    simp [World.action, hphase, Functor.action, Functor.conn]
  obtain ⟨k₀, y, hact⟩ := step_acted haction hstep.2
  have hbefore : w.conns c = some k₀ := hact.before
  rw [h.conn] at hbefore
  cases hbefore
  exact Doomed.forceCloseInLoop ⟨hact.before, h.loop, h.established, h.open_, h.state⟩ hact

/-- A step with the functor in the batch. -/
theorem Doomed.step_batch (h : Doomed w c ℓ k) (hsound : Sound w) (hann : Announced w)
    (hbatch : .forceCloseInLoop c ∈ (w.loops ℓ).batch) (hstep : reactor.Step w l w')
    (hhalf : ¬ HalfCloses w c l) :
    Closed w' c ∨
    ((∃ k', Doomed w' c ℓ k') ∧ .forceCloseInLoop c ∈ (w'.loops ℓ).batch) := by
  rcases World.step_batch hstep hbatch with hstays | ⟨write, batch, rfl, hphase⟩
  · have hlife := h.life hsound hann (List.mem_append_left _ hbatch) hstep hhalf
    exact hlife.imp id fun hdoomed => ⟨hdoomed, hstays⟩
  · exact .inl (h.runFunctor hphase hstep)

/-- A step with the functor anywhere on its way. -/
theorem Doomed.step (h : Doomed w c ℓ k) (hsound : Sound w) (hann : Announced w)
    (hwait : Waits w c ℓ) (hstep : reactor.Step w l w') (hhalf : ¬ HalfCloses w c l) :
    Closed w' c ∨ ((∃ k', Doomed w' c ℓ k') ∧ Waits w' c ℓ) := by
  rcases List.mem_append.mp hwait with hbatch | hpending
  · have hstays := h.step_batch hsound hann hbatch hstep hhalf
    exact hstays.imp id fun hdoomed => ⟨hdoomed.1, List.mem_append_left _ hdoomed.2⟩
  · have hlife := h.life hsound hann hwait hstep hhalf
    refine hlife.imp id fun hdoomed => ⟨hdoomed, ?_⟩
    rcases step_pending hstep hpending with hpending | ⟨-, hbatch⟩
    · exact List.mem_append_right _ hpending
    · exact List.mem_append_left _ hbatch

/-- `forceClose` on the thread of the loop. -/
theorem forceClose_inLoop {x : ConnRun} (hloop : x.isInLoopThread = true)
    (hstate : x.conn.state_ = .kConnected ∨ x.conn.state_ = .kDisconnecting) :
    x.forceClose = .ok ((x.setState .kDisconnecting).emit
      (.queueInLoop (.forceCloseInLoop x.conn.self))) := by
  rw [ConnRun.forceClose, if_pos hstate, if_pos hloop]

theorem forceClose_doomed (hk : w.conns c = some k) (hself : k.self = c)
    (hestablished : k.log.connectionCalls ≠ []) (hopen : k.log.closeCalls = 0)
    (hstate : k.state_ = .kConnected ∨ k.state_ = .kDisconnecting)
    (hcall : reactor.Step w (.forceClose (some k.loop_) c) w') :
    (∃ k', Doomed w' c k.loop_ k') ∧ Waits w' c k.loop_ := by
  have hstep : w.onConn (some k.loop_) c .forceClose = .ok w' := hcall.2
  have hrun := forceClose_inLoop (x := ⟨some k.loop_, (w.loops k.loop_).epoller_, k, []⟩)
    (by simp [ConnRun.isInLoopThread]) hstate
  simp only [onConn, hk, Action.run, hrun] at hstep
  have hw' : World.queueInLoop _ (some k.loop_) k.loop_ (.forceCloseInLoop k.self) = w' :=
    Except.ok.inj hstep
  rw [World.queueInLoop, if_pos rfl] at hw'
  subst hw' hself
  refine ⟨⟨{ k with state_ := .kDisconnecting }, Function.update_self _ _ _, rfl, hestablished,
    hopen, rfl⟩, ?_⟩
  refine List.mem_append_right _ ?_
  rw [onLoop_self, EventLoop.enqueue]
  simp

/-- The whole of what carries a run from `forceClose` to the close. -/
structure Pending (w : World) (c : ConnId) (ℓ : LoopId) : Prop where
  sound : Sound w
  announced : Announced w
  doomed : ∃ k, Doomed w c ℓ k
  waits : Waits w c ℓ

theorem Pending.step (h : Pending w c ℓ) (hstep : reactor.Step w l w')
    (hhalf : ¬ HalfCloses w c l) : Closed w' c ∨ Pending w' c ℓ := by
  obtain ⟨k, hdoomed⟩ := h.doomed
  refine (hdoomed.step h.sound h.announced h.waits hstep hhalf).imp id fun hnext => ?_
  exact ⟨h.sound.step hstep, h.announced.step h.sound hstep, hnext.1, hnext.2⟩

/-- The swap takes the functor into the batch. -/
theorem Pending.beginFunctors (h : Pending w c ℓ) (hstep : reactor.Step w (.beginFunctors ℓ) w') :
    Pending w' c ℓ ∧ .forceCloseInLoop c ∈ (w'.loops ℓ).batch := by
  obtain ⟨k, hdoomed⟩ := h.doomed
  have hw' : w' = w.prepare (.beginFunctors ℓ) := (Except.ok.inj hstep.2).symm
  have hbatch : .forceCloseInLoop c ∈ (w'.loops ℓ).batch := by
    rcases List.mem_append.mp h.waits with hbatch | hpending
    · rw [EventLoop.batch, hstep.1.1] at hbatch
      cases hbatch
    · rw [hw', World.prepare, onLoop_self]
      exact hpending
  refine ⟨⟨h.sound.step hstep, h.announced.step h.sound hstep, ⟨k, ?_⟩,
    List.mem_append_left _ hbatch⟩, hbatch⟩
  rw [hw']
  exact hdoomed.prepare h.sound h.waits hstep.1

variable {ls : List Label}

/-- The rounds up to the swap. -/
theorem Pending.run (h : Pending w c ℓ)
    (hrun : (reactor.restrict fun w l => ¬ HalfCloses w c l).Run w ls w') :
    (∃ done rest v, ls = done ++ rest ∧ reactor.Run w done v ∧ Closed v c) ∨
    Pending w' c ℓ := by
  refine (hrun.until (G := fun w => Closed w c) (I := fun w => Pending w c ℓ) h
    fun u l u' hu hstep => ?_).imp ?_ id
  · obtain ⟨hstep, hhalf⟩ := System.restrict_step.mp hstep
    exact hu.step hstep hhalf
  · rintro ⟨done, rest, v, rfl, hdone, hclosed⟩
    exact ⟨done, rest, v, rfl, hdone.of_restrict, hclosed⟩

/-- The round itself. -/
theorem Pending.run_batch (h : Pending w c ℓ) (hbatch : .forceCloseInLoop c ∈ (w.loops ℓ).batch)
    (hrun : (reactor.restrict fun w l => ¬ HalfCloses w c l).Run w ls w') :
    (∃ done rest v, ls = done ++ rest ∧ reactor.Run w done v ∧ Closed v c) ∨
    .forceCloseInLoop c ∈ (w'.loops ℓ).batch := by
  refine (hrun.until (G := fun w => Closed w c)
    (I := fun w => Pending w c ℓ ∧ .forceCloseInLoop c ∈ (w.loops ℓ).batch) ⟨h, hbatch⟩
    fun u l u' hu hstep => ?_).imp ?_ And.right
  · obtain ⟨hstep, hhalf⟩ := System.restrict_step.mp hstep
    obtain ⟨⟨hsound, hann, ⟨k, hdoomed⟩, -⟩, hbatch⟩ := hu
    refine (hdoomed.step_batch hsound hann hbatch hstep hhalf).imp id fun hnext => ?_
    exact ⟨⟨hsound.step hstep, hann.step hsound hstep, hnext.1, List.mem_append_left _ hnext.2⟩,
      hnext.2⟩
  · rintro ⟨done, rest, v, rfl, hdone, hclosed⟩
    exact ⟨done, rest, v, rfl, hdone.of_restrict, hclosed⟩

end World

open World

/-- Whatever happens between the call and the end of the loop's next round of
functors, unless it half-closes the connection, the connection has been closed
by then. -/
theorem forceClose_closes {server : TcpServer} {client : TcpClient} {ls pre post : List Label}
    {w w₁ w₂ : World} {c : ConnId} {k : TcpConnection}
    (hrun : reactor.Run (World.init server client) ls w) (hk : w.conns c = some k)
    (hestablished : k.log.connectionCalls ≠ []) (hopen : k.log.closeCalls = 0)
    (hstate : k.state_ = .kConnected ∨ k.state_ = .kDisconnecting)
    (hcall : reactor.Step w (.forceClose (some k.loop_) c) w₁)
    (hround : (reactor.restrict fun w l => ¬ w.HalfCloses c l).Run w₁
      (pre ++ .beginFunctors k.loop_ :: post ++ [.endFunctors k.loop_]) w₂) :
    ∃ done rest v, pre ++ .beginFunctors k.loop_ :: post ++ [.endFunctors k.loop_] = done ++ rest ∧
      reactor.Run w₁ done v ∧ v.Closed c := by
  have hsound := reachable_sound hrun
  have hann := reachable_announced hrun
  obtain ⟨hdoomed, hwait⟩ := forceClose_doomed hk (hsound.ident c k hk).1 hestablished hopen hstate
    hcall
  have hpending : Pending w₁ c k.loop_ :=
    ⟨hsound.step hcall, hann.step hsound hcall, hdoomed, hwait⟩
  obtain ⟨v₃, hmost, hend⟩ := hround.split
  obtain ⟨v₁, hpre, hrest⟩ := hmost.split
  cases hrest with
  | cons hbegin hpost =>
      rename_i v₂
      -- closed before the round
      rcases hpending.run hpre with ⟨done, rest, v, rfl, hdone, hclosed⟩ | hpending
      · exact ⟨done, _, v, by simp only [List.append_assoc]; rfl, hdone, hclosed⟩
      have hbegin := (System.restrict_step.mp hbegin).1
      obtain ⟨hpending, hbatch⟩ := hpending.beginFunctors hbegin
      rcases hpending.run_batch hbatch hpost with ⟨done, rest, v, rfl, hdone, hclosed⟩ | hbatch
      -- closed by the round
      · refine ⟨pre ++ .beginFunctors k.loop_ :: done, rest ++ [.endFunctors k.loop_], v,
          by simp, ?_, hclosed⟩
        exact hpre.of_restrict.append (.cons hbegin hdone)
      -- the round does not end with the functor in the batch
      · cases hend with
        | cons hend _ =>
            have hempty := (System.restrict_step.mp hend).1.1.1
            rw [EventLoop.batch, hempty] at hbatch
            cases hbatch

/-- `forceClose` in the callback of a new connection. -/
theorem forceClose_closes_accepted : ∃ ls w k w₁ w₂ done v,
    reactor.Run (World.init {} {}) ls w ∧ w.conns 0 = some k ∧ k.log.closeCalls = 0 ∧
    reactor.Step w (.forceClose (some 0) 0) w₁ ∧
    reactor.Run w₁ [.beginFunctors 0, .runFunctor 0 (.wrote 0), .endFunctors 0] w₂ ∧
    reactor.Run w₁ done v ∧ v.Closed 0 := by
  have hrun : ∃ w k w₁ w₂, reactor.Run (World.init {} {}) [.poll 0 [], .accept 7] w ∧
      w.conns 0 = some k ∧ k.loop_ = 0 ∧ k.log.connectionCalls ≠ [] ∧ k.log.closeCalls = 0 ∧
      k.state_ = .kConnected ∧ reactor.Step w (.forceClose (some 0) 0) w₁ ∧
      (reactor.restrict fun w l => ¬ w.HalfCloses 0 l).Run w₁
        [.beginFunctors 0, .runFunctor 0 (.wrote 0), .endFunctors 0] w₂ := by
    refine ⟨_, _, _, _, .cons ⟨?_, rfl⟩ (.cons ⟨?_, rfl⟩ (.nil _)), rfl, rfl, by decide, rfl, rfl,
      ⟨?_, rfl⟩, .cons ⟨⟨?_, ?_⟩, rfl⟩ (.cons ⟨⟨?_, ?_⟩, rfl⟩ (.cons ⟨⟨?_, ?_⟩, rfl⟩ (.nil _)))⟩
    · exact ⟨rfl, not_busy rfl rfl, .nil, by simp⟩
    · exact ⟨rfl, ⟨_, rfl⟩, not_busy rfl rfl, fun _ _ h => by cases h⟩
    · exact ⟨fun _ _ _ h => (by cases h), fun h => by cases h⟩
    · exact ⟨rfl, not_busy rfl rfl⟩
    · exact id
    · exact ⟨_, _, rfl, not_busy rfl rfl, Nat.zero_le _⟩
    · rintro ⟨batch, k, hphase, -⟩
      cases hphase
    · exact ⟨rfl, not_busy rfl rfl⟩
    · exact id
  obtain ⟨w, k, w₁, w₂, hrun, hk, hloop, hup, hopen, hstate, hcall, hround⟩ := hrun
  have hround' : (reactor.restrict fun w l => ¬ w.HalfCloses 0 l).Run w₁
      ([] ++ .beginFunctors k.loop_ :: [.runFunctor 0 (.wrote 0)] ++ [.endFunctors k.loop_])
      w₂ := by
    rw [hloop]
    exact hround
  obtain ⟨done, -, v, -, hdone, hclosed⟩ := forceClose_closes hrun hk hup hopen (.inl hstate)
    (by rw [hloop]; exact hcall) hround'
  exact ⟨_, w, k, w₁, w₂, done, v, hrun, hk, hopen, hcall, hround.of_restrict, hdone, hclosed⟩

/-- A round without functors touches no connection. -/
theorem emptyRound_conns {ls : List Label} {w w' : World} (hrun : reactor.Run w ls w')
    (hls : ∀ l ∈ ls, ∃ ℓ, l = .beginFunctors ℓ ∨ l = .endFunctors ℓ) : w'.conns = w.conns := by
  induction hrun with
  | nil => rfl
  | @cons s s' s'' l ls hstep _ ih =>
      rw [ih fun l hl => hls l (List.mem_cons_of_mem _ hl)]
      obtain ⟨ℓ, rfl | rfl⟩ := hls l List.mem_cons_self
      · rw [← Except.ok.inj hstep.2]
        rfl
      · rw [← Except.ok.inj hstep.2]
        rfl

/-- `shutdown` without pending output, then `forceClose`: nothing is queued and
the round closes nothing. -/
theorem not_forceClose_closes_halfClosed : ¬ ∀ ls pre post w w₁ w₂ c k,
    reactor.Run (World.init {} {}) ls w → w.conns c = some k → k.log.connectionCalls ≠ [] →
    k.log.closeCalls = 0 → reactor.Step w (.forceClose (some k.loop_) c) w₁ →
    reactor.Run w₁ (pre ++ .beginFunctors k.loop_ :: post ++ [.endFunctors k.loop_]) w₂ →
    ∃ done rest v, pre ++ .beginFunctors k.loop_ :: post ++ [.endFunctors k.loop_] = done ++ rest ∧
      reactor.Run w₁ done v ∧ v.Closed c := by
  intro hlaw
  have hrun : ∃ w k w₁ w₂ k₁,
      reactor.Run (World.init {} {}) [.poll 0 [], .accept 7, .shutdown (some 0) 0] w ∧
      w.conns 0 = some k ∧ k.loop_ = 0 ∧ k.log.connectionCalls ≠ [] ∧ k.log.closeCalls = 0 ∧
      reactor.Step w (.forceClose (some 0) 0) w₁ ∧
      reactor.Run w₁ [.beginFunctors 0, .endFunctors 0] w₂ ∧
      w₁.conns 0 = some k₁ ∧ k₁.log.closeCalls = 0 := by
    refine ⟨_, _, _, _, _, .cons ⟨?_, rfl⟩ (.cons ⟨?_, rfl⟩ (.cons ⟨?_, rfl⟩ (.nil _))), rfl, rfl,
      by decide, rfl, ⟨?_, rfl⟩, .cons ⟨?_, rfl⟩ (.cons ⟨?_, rfl⟩ (.nil _)), rfl, rfl⟩
    · exact ⟨rfl, not_busy rfl rfl, .nil, by simp⟩
    · exact ⟨rfl, ⟨_, rfl⟩, not_busy rfl rfl, fun _ _ h => by cases h⟩
    · exact ⟨fun _ _ _ h => (by cases h), fun h => by cases h⟩
    · exact ⟨fun _ _ _ h => (by cases h), fun h => by cases h⟩
    · exact ⟨rfl, not_busy rfl rfl⟩
    · exact ⟨rfl, not_busy rfl rfl⟩
  obtain ⟨w, k, w₁, w₂, k₁, hrun, hk, hloop, hup, hopen, hcall, hround, hk₁, hopen₁⟩ := hrun
  obtain ⟨done, rest, v, hdone, hv, k₂, hk₂, hclosed⟩ := hlaw _ [] [] w w₁ w₂ 0 k hrun hk hup hopen
    (by rw [hloop]; exact hcall) (by rw [hloop]; exact hround)
  have hconns := emptyRound_conns hv fun l hl => by
    have hmem : l ∈ done ++ rest := List.mem_append_left _ hl
    rw [← hdone] at hmem
    simp only [List.nil_append, List.cons_append, List.mem_cons, List.not_mem_nil, or_false] at hmem
    exact ⟨_, hmem⟩
  rw [hconns, hk₁] at hk₂
  cases hk₂
  omega

end Ham.Net
