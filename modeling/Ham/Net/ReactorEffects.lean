import Ham.Net.ActionSpec

/-!
# What a member function does to the program

Frame lemmas for the reactor: the effects of a member function leave every
connection, epoller and phase alone and only add to queues (`Calm`,
`Effected`), so a call is one change to one connection (`Acted`). Which functor
can come to which queue that way is `Functor.AddedBy`.
-/

namespace Ham.Net

open Ham.Lib

namespace World

variable {w w' w'' : World} {t : Thread} {k : TcpConnection}

/-- Nothing but queues and registries has changed. -/
structure Calm (w w' : World) : Prop where
  conns : w'.conns = w.conns
  nextConn : w'.nextConn = w.nextConn
  epoller : ∀ ℓ, (w'.loops ℓ).epoller_ = (w.loops ℓ).epoller_
  phase : ∀ ℓ, (w'.loops ℓ).phase = (w.loops ℓ).phase
  pending : ∀ ℓ, ∃ new, (w'.loops ℓ).pendingFunctors_ = (w.loops ℓ).pendingFunctors_ ++ new
  alive : w'.server.alive = w.server.alive
  destroying : w'.server.destroying = w.server.destroying
  threads : w'.server.numOfThreads_ = w.server.numOfThreads_
  connections : ∀ (name : Bytes) c, w'.server.connections_[name]? = some c →
    w.server.connections_[name]? = some c
  client : w'.client.loop_ = w.client.loop_

theorem Calm.refl (w : World) : Calm w w where
  conns := rfl
  nextConn := rfl
  epoller := fun _ => rfl
  phase := fun _ => rfl
  pending := fun _ => ⟨[], by simp⟩
  alive := rfl
  destroying := rfl
  threads := rfl
  connections := fun _ _ h => h
  client := rfl

theorem Calm.trans (h : Calm w w') (h' : Calm w' w'') : Calm w w'' where
  conns := h'.conns.trans h.conns
  nextConn := h'.nextConn.trans h.nextConn
  epoller := fun ℓ => (h'.epoller ℓ).trans (h.epoller ℓ)
  phase := fun ℓ => (h'.phase ℓ).trans (h.phase ℓ)
  pending := by
    intro ℓ
    obtain ⟨new, hnew⟩ := h.pending ℓ
    obtain ⟨new', hnew'⟩ := h'.pending ℓ
    exact ⟨new ++ new', by rw [hnew', hnew, List.append_assoc]⟩
  alive := h'.alive.trans h.alive
  destroying := h'.destroying.trans h.destroying
  threads := h'.threads.trans h.threads
  connections := fun name c hc => h.connections name c (h'.connections name c hc)
  client := h'.client.trans h.client

section

variable {ℓ ℓ' : LoopId} {f : EventLoop → EventLoop}

theorem onLoop_self (w : World) (ℓ : LoopId) (f : EventLoop → EventLoop) :
    (w.onLoop ℓ f).loops ℓ = f (w.loops ℓ) :=
  Function.update_self _ _ _

theorem onLoop_of_ne (w : World) (f : EventLoop → EventLoop) (h : ℓ' ≠ ℓ) :
    (w.onLoop ℓ f).loops ℓ' = w.loops ℓ' :=
  Function.update_of_ne h _ _

/-- What an update of one loop leaves alone there is as before in every loop. -/
theorem onLoop_same {α : Type} {g : EventLoop → α} (h : g (f (w.loops ℓ)) = g (w.loops ℓ)) :
    g ((w.onLoop ℓ f).loops ℓ') = g (w.loops ℓ') := by
  by_cases hℓ : ℓ' = ℓ
  · subst hℓ
    rw [onLoop_self, h]
  · rw [onLoop_of_ne w f hℓ]

theorem onLoop_queued (h : (f (w.loops ℓ)).batch ++ (f (w.loops ℓ)).pendingFunctors_ =
      (w.loops ℓ).batch ++ (w.loops ℓ).pendingFunctors_) (ℓ' : LoopId) :
    (w.onLoop ℓ f).queued ℓ' = w.queued ℓ' := by
  have hsame : ((w.onLoop ℓ f).loops ℓ').batch ++ ((w.onLoop ℓ f).loops ℓ').pendingFunctors_ =
      (w.loops ℓ').batch ++ (w.loops ℓ').pendingFunctors_ :=
    onLoop_same (g := fun e => e.batch ++ e.pendingFunctors_) h
  unfold queued
  rw [hsame]
  rfl

end

theorem queueInLoop_calm (w : World) (t : Thread) (ℓ : LoopId) (f : Functor) :
    Calm w (w.queueInLoop t ℓ f) := by
  unfold queueInLoop
  split
  · refine ⟨rfl, rfl, fun ℓ' => onLoop_same rfl, fun ℓ' => onLoop_same rfl, fun ℓ' => ?_, rfl,
      rfl, rfl, fun _ _ h => h, rfl⟩
    by_cases hℓ : ℓ' = ℓ
    · subst hℓ
      exact ⟨[f], by simp [onLoop, EventLoop.enqueue]⟩
    · exact ⟨[], by simp [onLoop, hℓ]⟩
  · exact ⟨rfl, rfl, fun _ => rfl, fun _ => rfl, fun _ => ⟨[], by simp⟩, rfl, rfl, rfl,
      fun _ _ h => h, rfl⟩

theorem batch_of_phase {e e' : EventLoop} (h : e'.phase = e.phase) : e'.batch = e.batch := by
  unfold EventLoop.batch
  rw [h]

theorem queueInLoop_queued (w : World) (t : Thread) (ℓ ℓ' : LoopId) (f g : Functor) :
    ((w.queueInLoop t ℓ f).queued ℓ').count g =
      (w.queued ℓ').count g + [(ℓ, f)].count (ℓ', g) := by
  unfold queueInLoop
  by_cases hℓ : ℓ' = ℓ
  · subst hℓ
    split
    · simp [queued, onLoop, EventLoop.enqueue, EventLoop.batch, List.count_cons]
      omega
    · simp [queued, Handover.loop, Handover.functor, List.count_cons]
      omega
  · split
    · simp [queued, onLoop, hℓ, Ne.symm hℓ]
    · simp [queued, Handover.loop, Ne.symm hℓ]

end World

/-- The functors an effect puts on the way to a loop. -/
def Effect.adds (t : Thread) (k : TcpConnection) : Effect → List (LoopId × Functor)
  | .queueInLoop f | .storeThenQueue _ f => [(k.loop_, f)]
  | .closeCallback =>
      match k.closeCallback_ with
      | .server =>
          if t = some 0 then [(k.loop_, .destoryConnection k.self)]
          else [(0, .removeConnectionInLoop k.self)]
      | .client | .detail => [(k.loop_, .destoryConnection k.self)]
  | .removeConnectionInLoop => [(k.loop_, .destoryConnection k.self)]

namespace World

variable {w w' w'' : World} {t : Thread} {k : TcpConnection}

/-- What effects do: they are calm, they add what they say they add, and
stores of other threads come from the calls that announce them. -/
structure Effected (t : Thread) (k : TcpConnection) (es : List Effect) (w w' : World) : Prop
    extends Calm w w' where
  queued : ∀ ℓ g, (w'.queued ℓ).count g =
    (w.queued ℓ).count g + (es.flatMap (Effect.adds t k)).count (ℓ, g)
  handovers : ∀ h ∈ w'.handovers, h ∈ w.handovers ∨ (∃ ℓ f, h = .queue ℓ f) ∨
    ∃ state f, .storeThenQueue state f ∈ es ∧ h = .store k.self state k.loop_ f

theorem Effected.trans {es es' : List Effect} (h : Effected t k es w w')
    (h' : Effected t k es' w' w'') : Effected t k (es ++ es') w w'' where
  toCalm := h.toCalm.trans h'.toCalm
  queued := by
    intro ℓ g
    rw [h'.queued, h.queued, List.flatMap_append, List.count_append, Nat.add_assoc]
  handovers := by
    intro x hx
    rcases h'.handovers x hx with hx | hx | ⟨state, f, hmem, rfl⟩
    · rcases h.handovers x hx with hx | hx | ⟨state, f, hmem, rfl⟩
      · exact .inl hx
      · exact .inr (.inl hx)
      · exact .inr (.inr ⟨state, f, List.mem_append_left _ hmem, rfl⟩)
    · exact .inr (.inl hx)
    · exact .inr (.inr ⟨state, f, List.mem_append_right _ hmem, rfl⟩)

theorem queueInLoop_handovers (w : World) (t : Thread) (ℓ : LoopId) (f : Functor) :
    ∀ h ∈ (w.queueInLoop t ℓ f).handovers, h ∈ w.handovers ∨ ∃ ℓ f, h = .queue ℓ f := by
  intro h hh
  unfold queueInLoop at hh
  split at hh
  · exact .inl hh
  · rcases List.mem_append.mp hh with hh | hh
    · exact .inl hh
    · exact .inr ⟨ℓ, f, List.mem_singleton.mp hh⟩

/-- An effect that ends in `queueInLoop`, after a change to the registries. -/
theorem effected_queueInLoop {e : Effect} (hcalm : Calm w w')
    (hqueued : ∀ ℓ, w'.queued ℓ = w.queued ℓ) (hhandovers : w'.handovers = w.handovers)
    {ℓ : LoopId} {f : Functor} (hadds : e.adds t k = [(ℓ, f)]) :
    Effected t k [e] w (w'.queueInLoop t ℓ f) where
  toCalm := hcalm.trans (queueInLoop_calm w' t ℓ f)
  queued := by
    intro ℓ' g
    rw [queueInLoop_queued, hqueued]
    simp [hadds]
  handovers := by
    intro h hh
    rcases queueInLoop_handovers w' t ℓ f h hh with hh | hh
    · exact .inl (hhandovers ▸ hh)
    · exact .inr (.inl hh)

theorem eraseConnection_calm (w : World) (name : Bytes) : Calm w (w.eraseConnection name) := by
  refine ⟨rfl, rfl, fun _ => rfl, fun _ => rfl, fun _ => ⟨[], (List.append_nil _).symm⟩, rfl, rfl,
    rfl, ?_, rfl⟩
  intro name' c hc
  simp only [eraseConnection, Std.ExtTreeMap.getElem?_erase] at hc
  split at hc
  · cases hc
  · exact hc

theorem resetEstablished_calm (w : World) : Calm w w.resetEstablished :=
  ⟨rfl, rfl, fun _ => rfl, fun _ => rfl, fun _ => ⟨[], (List.append_nil _).symm⟩, rfl, rfl, rfl,
    fun _ _ h => h, rfl⟩

theorem removeConnectionInLoop_effected {e : Effect}
    (hadds : e.adds t k = [(k.loop_, .destoryConnection k.self)])
    (h : w.removeConnectionInLoop t k = .ok w') :
    Effected t k [e] w w' ∧ w.server.alive = true ∧
      w'.server.connections_[k.name_]? = none := by
  unfold removeConnectionInLoop at h
  split at h
  · cases h
  · rename_i halive
    split at h
    · cases h
    · cases h
      refine ⟨effected_queueInLoop (eraseConnection_calm w k.name_) (fun _ => rfl) rfl hadds,
        by simpa using halive, ?_⟩
      refine Option.eq_none_iff_forall_not_mem.mpr fun c hc => ?_
      have hthere := (queueInLoop_calm _ t k.loop_ (.destoryConnection k.self)).connections _ _ hc
      simp [eraseConnection] at hthere

theorem effect_effected {e : Effect} (h : effect t k w e = .ok w') : Effected t k [e] w w' := by
  cases e with
  | queueInLoop f =>
      cases h
      exact effected_queueInLoop (.refl w) (fun _ => rfl) rfl rfl
  | storeThenQueue state f =>
      cases h
      refine ⟨⟨rfl, rfl, fun _ => rfl, fun _ => rfl, fun _ => ⟨[], by simp⟩, rfl, rfl, rfl,
        fun _ _ h => h, rfl⟩, fun ℓ g => ?_, fun x hx => ?_⟩
      · by_cases hℓ : k.loop_ = ℓ
        · subst hℓ
          simp [queued, Handover.loop, Handover.functor, Effect.adds, List.count_cons]
          omega
        · simp [queued, Handover.loop, Effect.adds, hℓ]
      · rcases List.mem_append.mp hx with hx | hx
        · exact .inl hx
        · exact .inr (.inr ⟨state, f, by simp, List.mem_singleton.mp hx⟩)
  | removeConnectionInLoop => exact (removeConnectionInLoop_effected rfl h).1
  | closeCallback =>
      have h : w.closeCallback t k = .ok w' := h
      unfold closeCallback at h
      split at h
      · rename_i hcb
        split at h
        · cases h
        · split at h
          · rename_i ht
            exact (removeConnectionInLoop_effected (by simp [Effect.adds, hcb, ht]) h).1
          · rename_i ht
            cases h
            exact effected_queueInLoop (.refl w) (fun _ => rfl) rfl (by simp [Effect.adds, hcb, ht])
      · rename_i hcb
        split at h
        · cases h
        · split at h
          · cases h
          · cases h
            exact effected_queueInLoop (resetEstablished_calm w) (fun _ => rfl) rfl
              (by simp [Effect.adds, hcb])
      · rename_i hcb
        cases h
        exact effected_queueInLoop (.refl w) (fun _ => rfl) rfl (by simp [Effect.adds, hcb])

/-- A list of effects. -/
theorem effects_effected {es : List Effect} (h : es.foldlM (effect t k) w = .ok w') :
    Effected t k es w w' := by
  induction es generalizing w with
  | nil =>
      cases h
      exact ⟨.refl _, by simp, fun x hx => .inl hx⟩
  | cons e es ih =>
      simp only [List.foldlM_cons, bind_eq_ok] at h
      obtain ⟨v, hv, h⟩ := h
      exact (effect_effected hv).trans (ih h)

/-- After its `closeCallback_` a connection of the server's own loop is off the
server's map, and the server was there to do it. -/
theorem effects_closed {es : List Effect} (h : es.foldlM (effect t k) w = .ok w')
    (hclose : .closeCallback ∈ es) (hcb : k.closeCallback_ = .server) (ht : t = some 0) :
    w.server.alive = true ∧ w'.server.connections_[k.name_]? = none := by
  induction es generalizing w with
  | nil => simp at hclose
  | cons e es ih =>
      simp only [List.foldlM_cons, bind_eq_ok] at h
      obtain ⟨v, hv, h⟩ := h
      have hcalm := (effect_effected hv).toCalm
      by_cases he : e = .closeCallback
      · subst he
        have hv : w.closeCallback t k = .ok v := hv
        simp only [closeCallback, hcb, ht, if_true] at hv
        split at hv
        · cases hv
        · obtain ⟨-, halive, hnone⟩ :=
            removeConnectionInLoop_effected (e := .removeConnectionInLoop) rfl hv
          refine ⟨halive, ?_⟩
          cases hget : w'.server.connections_[k.name_]? with
          | none => rfl
          | some c =>
              have := (effects_effected h).connections _ _ hget
              rw [hnone] at this
              cases this
      · have hmem : .closeCallback ∈ es := by
          rcases List.mem_cons.mp hclose with heq | hmem
          · exact absurd heq.symm he
          · exact hmem
        obtain ⟨halive, hnone⟩ := ih h hmem
        exact ⟨hcalm.alive ▸ halive, hnone⟩

/-- One member function on one connection. -/
structure Acted (w : World) (t : Thread) (c : ConnId) (a : Action) (w' : World)
    (k : TcpConnection) (y : ConnRun) : Prop where
  before : w.conns c = some k
  ran : Ran a ⟨t, (w.loops k.loop_).epoller_, k, []⟩ y
  returned : a.run ⟨t, (w.loops k.loop_).epoller_, k, []⟩ = .ok y
  conns : w'.conns = Function.update w.conns c (some y.conn)
  nextConn : w'.nextConn = w.nextConn
  epoller : ∀ ℓ, (w'.loops ℓ).epoller_ =
    if ℓ = k.loop_ then y.epoller else (w.loops ℓ).epoller_
  phase : ∀ ℓ, (w'.loops ℓ).phase = (w.loops ℓ).phase
  pending : ∀ ℓ, ∃ new, (w'.loops ℓ).pendingFunctors_ = (w.loops ℓ).pendingFunctors_ ++ new
  queued : ∀ ℓ g, (w'.queued ℓ).count g =
    (w.queued ℓ).count g + (y.effects.flatMap (Effect.adds t y.conn)).count (ℓ, g)
  handovers : ∀ h ∈ w'.handovers, h ∈ w.handovers ∨ (∃ ℓ f, h = .queue ℓ f) ∨
    ∃ state f, .storeThenQueue state f ∈ y.effects ∧
      h = .store y.conn.self state y.conn.loop_ f
  alive : w'.server.alive = w.server.alive
  destroying : w'.server.destroying = w.server.destroying
  threads : w'.server.numOfThreads_ = w.server.numOfThreads_
  connections : ∀ (name : Bytes) d, w'.server.connections_[name]? = some d →
    w.server.connections_[name]? = some d
  closed : .closeCallback ∈ y.effects → y.conn.closeCallback_ = .server → t = some 0 →
    w.server.alive = true ∧ w'.server.connections_[y.conn.name_]? = none
  client : w'.client.loop_ = w.client.loop_

theorem onConn_ok {c : ConnId} {a : Action} (h : w.onConn t c a = .ok w') :
    ∃ k y, Acted w t c a w' k y := by
  unfold onConn at h
  cases hk : w.conns c with
  | none =>
      rw [hk] at h
      cases h
  | some k =>
      rw [hk] at h
      simp only [bind_eq_ok] at h
      obtain ⟨y, hrun, h⟩ := h
      refine ⟨k, y, ?_⟩
      have heff := effects_effected h
      have hclosed := effects_closed h
      refine ⟨hk, Action.run_spec hrun, hrun, heff.conns, heff.nextConn, fun ℓ => ?_, fun ℓ => ?_,
        fun ℓ => ?_, fun ℓ g => ?_, heff.handovers, heff.alive, heff.destroying, heff.threads,
        heff.connections, hclosed, heff.client⟩
      · rw [heff.epoller]
        by_cases hℓ : ℓ = k.loop_
        · subst hℓ
          simp [onLoop, EventLoop.setEpoller]
        · simp [onLoop, hℓ]
      -- the epoller is all that has been set in the loop before the effects
      · rw [heff.phase]
        exact onLoop_same rfl
      · obtain ⟨new, hnew⟩ := heff.pending ℓ
        refine ⟨new, ?_⟩
        rw [hnew]
        congr 1
        exact onLoop_same rfl
      · rw [heff.queued]
        congr 2
        exact onLoop_queued rfl ℓ

namespace Acted

variable {c d : ConnId} {a : Action} {k' : TcpConnection} {y : ConnRun}

/-- A connection behind an action is the one acted on or an old one. -/
theorem cases (h : Acted w t c a w' k y) (hd : w'.conns d = some k') :
    (d = c ∧ k' = y.conn) ∨ (d ≠ c ∧ w.conns d = some k') := by
  rw [h.conns] at hd
  by_cases hdc : d = c
  · subst hdc
    rw [Function.update_self] at hd
    exact .inl ⟨rfl, (Option.some.inj hd).symm⟩
  · rw [Function.update_of_ne hdc] at hd
    exact .inr ⟨hdc, hd⟩

theorem after (h : Acted w t c a w' k y) : w'.conns c = some y.conn := by
  rw [h.conns, Function.update_self]

/-- `runInLoop(establishConnection)` from another thread only queues. -/
theorem runEstablish_outside (h : Acted w t c .runEstablish w' k y) (hout : t ≠ some k.loop_) :
    y = ConnRun.emit ⟨t, (w.loops k.loop_).epoller_, k, []⟩
      (.queueInLoop (.establishConnection k.self)) := by
  have hreturned := h.returned
  simp only [Action.run, ConnRun.isInLoopThread, decide_eq_true_eq, if_neg hout] at hreturned
  cases hreturned
  rfl

/-- An effect belongs to a member function that runs here, or is the one the
action is about. -/
theorem effect_of (h : Acted w t c a w' k y) {e : Effect} (he : e ∈ y.effects) :
    (e.About k.self (decide (t = some k.loop_)) ∧ a ≠ .removeConnectionInLoop ∧
      (a = .runEstablish → t = some k.loop_)) ∨
    (a = .runEstablish ∧ e = .queueInLoop (.establishConnection k.self) ∧ t ≠ some k.loop_) ∨
    (a = .removeConnectionInLoop ∧ e = .removeConnectionInLoop) := by
  by_cases hremove : a = .removeConnectionInLoop
  · subst hremove
    have hreturned := h.returned
    cases hreturned
    exact .inr (.inr ⟨rfl, List.mem_singleton.mp he⟩)
  by_cases houtside : a = .runEstablish ∧ t ≠ some k.loop_
  · obtain ⟨rfl, hout⟩ := houtside
    rw [h.runEstablish_outside hout] at he
    exact .inr (.inl ⟨rfl, List.mem_singleton.mp he, hout⟩)
  · obtain ⟨es, hes, hof, -⟩ := h.ran.effects
    rw [List.nil_append] at hes
    rcases hof e (hes ▸ he) with habout | ⟨ha, -, hin⟩ | ⟨ha, -⟩
    · exact .inl ⟨habout, hremove, fun ha => by_contra fun hout => houtside ⟨ha, hout⟩⟩
    · exact absurd ⟨ha, of_decide_eq_false hin⟩ houtside
    · exact absurd ha hremove

theorem closeCalls (h : Acted w t c a w' k y) :
    y.conn.log.closeCalls = k.log.closeCalls + y.effects.count .closeCallback := by
  obtain ⟨es, hes, -, hcalls⟩ := h.ran.effects
  rw [List.nil_append] at hes
  rw [hcalls, hes]

end Acted

end World

/-- How a functor can come to the queue of loop `ℓ` in an action on `k` with
effects `es`. -/
def Functor.AddedBy (a : Action) (t : Thread) (k : TcpConnection) (es : List Effect)
    (ℓ : LoopId) : Functor → Prop
  | .establishConnection d =>
      d = k.self ∧ ℓ = k.loop_ ∧ a = .runEstablish ∧ t ≠ some k.loop_
  | .destoryConnection d =>
      d = k.self ∧ ℓ = k.loop_ ∧ (.closeCallback ∈ es ∨ a = .removeConnectionInLoop)
  | .sendInLoop d _ | .shutdownInLoop d =>
      d = k.self ∧ ℓ = k.loop_ ∧ t ≠ some k.loop_ ∧ a ≠ .removeConnectionInLoop ∧
      a ≠ .runEstablish
  | .removeConnectionInLoop d => d = k.self ∧ ℓ = 0 ∧ .closeCallback ∈ es ∧ t ≠ some 0
  | .forceCloseInLoop d | .writeCompleteCallback d | .highWaterMarkCallback d _ =>
      d = k.self ∧ ℓ = k.loop_

theorem Functor.AddedBy.conn {a : Action} {t : Thread} {k : TcpConnection} {es : List Effect}
    {ℓ : LoopId} {g : Functor} (h : g.AddedBy a t k es ℓ) : g.conn = k.self := by
  cases g <;> exact h.1

namespace World

variable {w w' w'' : World} {t : Thread} {k : TcpConnection}

namespace Acted

variable {c d : ConnId} {a : Action} {y : ConnRun} {g : Functor} {ℓ : LoopId}

theorem addedBy (h : Acted w t c a w' k y) {e : Effect} (he : e ∈ y.effects)
    (hg : (ℓ, g) ∈ e.adds t y.conn) : g.AddedBy a t k y.effects ℓ := by
  have hself : y.conn.self = k.self := h.ran.self
  have hloop : y.conn.loop_ = k.loop_ := h.ran.loop
  have hof := h.effect_of he
  cases e with
  | queueInLoop f =>
      simp only [Effect.adds, List.mem_singleton, Prod.mk.injEq] at hg
      obtain ⟨rfl, rfl⟩ := hg
      rcases hof with ⟨habout, hremove, hin⟩ | ⟨rfl, heq, hout⟩ | ⟨-, heq⟩
      · cases g <;> simp_all [Effect.About, Functor.AddedBy]
      · cases heq
        exact ⟨rfl, hloop, rfl, hout⟩
      · cases heq
  | storeThenQueue state f =>
      simp only [Effect.adds, List.mem_singleton, Prod.mk.injEq] at hg
      obtain ⟨rfl, rfl⟩ := hg
      rcases hof with ⟨habout, hremove, hin⟩ | ⟨-, heq, -⟩ | ⟨-, heq⟩
      · cases g <;> simp_all [Effect.About, Functor.AddedBy]
      · cases heq
      · cases heq
  | removeConnectionInLoop =>
      simp only [Effect.adds, List.mem_singleton, Prod.mk.injEq] at hg
      obtain ⟨rfl, rfl⟩ := hg
      rcases hof with ⟨habout, -⟩ | ⟨-, heq, -⟩ | ⟨ha, -⟩
      · cases habout
      · cases heq
      · exact ⟨hself, hloop, .inr ha⟩
  | closeCallback =>
      simp only [Effect.adds] at hg
      split at hg
      · split at hg
        · simp only [List.mem_singleton, Prod.mk.injEq] at hg
          obtain ⟨rfl, rfl⟩ := hg
          exact ⟨hself, hloop, .inl he⟩
        · rename_i ht
          simp only [List.mem_singleton, Prod.mk.injEq] at hg
          obtain ⟨rfl, rfl⟩ := hg
          exact ⟨hself, rfl, he, ht⟩
      · simp only [List.mem_singleton, Prod.mk.injEq] at hg
        obtain ⟨rfl, rfl⟩ := hg
        exact ⟨hself, hloop, .inl he⟩
      · simp only [List.mem_singleton, Prod.mk.injEq] at hg
        obtain ⟨rfl, rfl⟩ := hg
        exact ⟨hself, hloop, .inl he⟩

/-- A functor in a queue was there before or came with the action. -/
theorem queued_cases (h : Acted w t c a w' k y) (hg : g ∈ w'.queued ℓ) :
    g ∈ w.queued ℓ ∨ g.AddedBy a t k y.effects ℓ := by
  have hpos := List.count_pos_iff.mpr hg
  rw [h.queued] at hpos
  rcases Nat.eq_zero_or_pos ((w.queued ℓ).count g) with hzero | hold
  · rw [hzero, Nat.zero_add, List.count_pos_iff] at hpos
    obtain ⟨e, he, hadds⟩ := List.mem_flatMap.mp hpos
    exact .inr (h.addedBy he hadds)
  · exact .inl (List.count_pos_iff.mp hold)

/-- A functor that cannot come with the action is counted as before. -/
theorem queued_same (h : Acted w t c a w' k y) (hg : ¬ g.AddedBy a t k y.effects ℓ) :
    (w'.queued ℓ).count g = (w.queued ℓ).count g := by
  have hnone : (y.effects.flatMap (Effect.adds t y.conn)).count (ℓ, g) = 0 := by
    refine List.count_eq_zero.mpr fun hmem => ?_
    obtain ⟨e, he, hadds⟩ := List.mem_flatMap.mp hmem
    exact hg (h.addedBy he hadds)
  rw [h.queued, hnone, Nat.add_zero]

/-- A store of another thread was there before or comes from a call on this
connection. -/
theorem stores_cases (h : Acted w t c a w' k y) {state : State} {f : Functor}
    (hs : .store d state ℓ f ∈ w'.handovers) :
    .store d state ℓ f ∈ w.handovers ∨
    (d = k.self ∧ state = .kDisconnecting ∧ t ≠ some k.loop_ ∧ a ≠ .removeConnectionInLoop ∧
      a ≠ .runEstablish) := by
  rcases h.handovers _ hs with hs | ⟨_, _, hs⟩ | ⟨state', f', hmem, hs⟩
  · exact .inl hs
  · cases hs
  · cases hs
    refine .inr ⟨h.ran.self, ?_⟩
    rcases h.effect_of hmem with ⟨habout, hremove, hin⟩ | ⟨-, heq, -⟩ | ⟨-, heq⟩
    · cases f <;> simp_all [Effect.About]
    · cases heq
    · cases heq

end Acted

end World

end Ham.Net
