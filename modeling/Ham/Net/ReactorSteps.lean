import Ham.Net.ReactorEffects

/-!
# What a step does to the program

A step is its bookkeeping (`World.prepare`) with at most one action behind it
(`step_cases`). The bookkeeping moves one loop from phase to phase
(`Phase.Next`), takes at most one functor off a queue (`prepare_queued`) and
adds or releases at most one connection (`prepare_conns`, `prepare_keeps`);
`Runs` lists the actions a label can stand for.
-/

namespace Ham.Net

open Ham.Lib

/-! ## The phases of a loop -/

namespace Phase

/-- The channels whose turn is still to come. -/
def active : Phase → List ConnId
  | .events active | .handling _ _ _ active => active.map (·.1)
  | _ => []

/-- The same with the one whose turn it is. -/
def touched : Phase → List ConnId
  | .events active => active.map (·.1)
  | .handling c _ _ active => c :: active.map (·.1)
  | _ => []

theorem active_sublist (p : Phase) : p.active.Sublist p.touched := by
  cases p with
  | handling c revents inMessage active => exact List.sublist_cons_self _ _
  | _ => exact List.Sublist.refl _

/-- What a label does to the phase of loop `ℓ`. -/
inductive Next (ℓ : LoopId) (pending : List Functor) : Label → Phase → Phase → Prop
  | poll {active : List (ConnId × Events)} :
      Next ℓ pending (.poll ℓ active) .waiting (.events active)
  | handleEvent {read : ReadResult} {c : ConnId} {revents : Events} {inMessage : Bool}
      {active : List (ConnId × Events)} :
      Next ℓ pending (.handleEvent ℓ read) (.events ((c, revents) :: active))
        (.handling c revents inMessage active)
  | handleEventWrite {left : Option Buffer} {write : WriteResult} {c : ConnId}
      {revents : Events} {inMessage : Bool} {active : List (ConnId × Events)} :
      Next ℓ pending (.handleEventWrite ℓ left write) (.handling c revents inMessage active)
        (.events active)
  | beginFunctors : Next ℓ pending (.beginFunctors ℓ) (.events []) (.functors pending)
  | runFunctor {write : WriteResult} {f : Functor} {batch : List Functor} :
      Next ℓ pending (.runFunctor ℓ write) (.functors (f :: batch)) (.functors batch)
  | endFunctors : Next ℓ pending (.endFunctors ℓ) (.functors []) .waiting

end Phase

namespace World

variable {w w' w'' : World} {t : Thread} {k : TcpConnection}

/-! ## The bookkeeping of a step -/

variable {l : Label} {ℓ ℓ' : LoopId}

/-- The functor a step takes off its loop. -/
def popped (w : World) : Label → List (LoopId × Functor)
  | .runFunctor ℓ _ => ((w.loops ℓ).batch.take 1).map fun f => (ℓ, f)
  | _ => []

theorem advance_queued (w : World) (i : Nat) (ℓ : LoopId) (g : Functor) :
    ((w.advance i).queued ℓ).count g = (w.queued ℓ).count g := by
  unfold advance
  split
  · rfl
  · rename_i c state ℓ' f hi
    obtain ⟨hlt, hget⟩ := List.getElem?_eq_some_iff.mp hi
    have hperm := List.set_perm_cons_eraseIdx hlt (.queue ℓ' f)
    have hperm' := List.getElem_cons_eraseIdx_perm hlt
    rw [hget] at hperm'
    unfold queued
    simp only [List.count_append]
    rw [((hperm.filter _).map _).count_eq, ← ((hperm'.filter _).map _).count_eq]
    by_cases hℓ : ℓ' = ℓ
    · simp [Handover.loop, Handover.functor, hℓ]
    · simp [Handover.loop, hℓ]
  · rename_i ℓ' f hi
    obtain ⟨hlt, hget⟩ := List.getElem?_eq_some_iff.mp hi
    have hperm := List.getElem_cons_eraseIdx_perm hlt
    rw [hget] at hperm
    unfold queued
    simp only [List.count_append]
    rw [← ((hperm.filter _).map _).count_eq]
    by_cases hℓ : ℓ = ℓ'
    · subst hℓ
      rw [onLoop_self]
      simp [onLoop, EventLoop.enqueue, EventLoop.batch, Handover.loop, Handover.functor,
        List.count_cons]
      omega
    · rw [onLoop_of_ne _ _ hℓ]
      simp [onLoop, Handover.loop, Ne.symm hℓ]

/-- A step takes at most one functor off a queue before it runs anything. -/
theorem prepare_queued (hen : w.Enabled l) (ℓ : LoopId) (g : Functor) :
    (w.queued ℓ).count g = ((w.prepare l).queued ℓ).count g + (w.popped l).count (ℓ, g) := by
  have hsame : (∀ ℓ', (w.prepare l).queued ℓ' = w.queued ℓ') → w.popped l = [] →
      (w.queued ℓ).count g = ((w.prepare l).queued ℓ).count g + (w.popped l).count (ℓ, g) := by
    intro hq hp
    rw [hq, hp]
    rfl
  cases l with
  | poll ℓ₀ active =>
      refine hsame (onLoop_queued ?_) rfl
      simp [EventLoop.wake, EventLoop.batch, hen.1]
  | handleEvent ℓ₀ read =>
      obtain ⟨⟨a, active, hphase⟩, -⟩ := hen
      refine hsame (onLoop_queued ?_) rfl
      simp [EventLoop.beginEvent, EventLoop.batch, hphase]
  | handleEventWrite ℓ₀ left write =>
      obtain ⟨c, revents, inMessage, active, k, hphase, -⟩ := hen
      refine hsame (onLoop_queued ?_) rfl
      simp [EventLoop.endEvent, EventLoop.batch, hphase]
  | beginFunctors ℓ₀ =>
      refine hsame (onLoop_queued ?_) rfl
      simp [EventLoop.swapFunctors, EventLoop.batch, hen.1]
  | runFunctor ℓ₀ write =>
      obtain ⟨f, batch, hphase, -⟩ := hen
      have hpop : w.popped (.runFunctor ℓ₀ write) = [(ℓ₀, f)] := by
        simp [popped, EventLoop.batch, hphase]
      rw [hpop]
      unfold queued
      simp only [prepare]
      by_cases hℓ : ℓ = ℓ₀
      · subst hℓ
        rw [onLoop_self]
        simp [onLoop, EventLoop.popFunctor, EventLoop.batch, hphase, List.count_cons]
      · rw [onLoop_of_ne _ _ hℓ]
        simp [onLoop, Ne.symm hℓ]
  | endFunctors ℓ₀ =>
      refine hsame (onLoop_queued ?_) rfl
      simp [EventLoop.wait, EventLoop.batch, hen.1]
  | advance i =>
      have hcount := advance_queued w i ℓ g
      simp only [prepare, popped, List.count_nil, Nat.add_zero]
      exact hcount.symm
  | release c =>
      refine hsame (fun ℓ' => ?_) rfl
      simp only [prepare]
      split
      · rfl
      · exact onLoop_queued (w := { w with conns := Function.update w.conns c none }) rfl ℓ'
  | _ => exact hsame (fun _ => rfl) rfl

theorem prepare_queued_mem {f : Functor} (hen : w.Enabled l)
    (hf : f ∈ (w.prepare l).queued ℓ) : f ∈ w.queued ℓ := by
  have hcount := prepare_queued hen ℓ f
  have hpos := List.count_pos_iff.mpr hf
  exact List.count_pos_iff.mp (by omega)

/-- Bookkeeping makes no new stores of other threads. -/
theorem prepare_stores {c : ConnId} {state : State} {f : Functor}
    (h : .store c state ℓ f ∈ (w.prepare l).handovers) : .store c state ℓ f ∈ w.handovers := by
  cases l with
  | advance i =>
      simp only [prepare, advance] at h
      split at h
      · exact h
      · rcases List.mem_or_eq_of_mem_set h with h | h
        · exact h
        · cases h
      · exact List.mem_of_mem_eraseIdx h
  | release c' =>
      simp only [prepare] at h
      split at h <;> exact h
  | _ => exact h

/-- A connection behind the bookkeeping was there before, or is new; one of the
client's is on its loop. -/
theorem prepare_conns {c : ConnId} (h : (w.prepare l).conns c = some k) :
    w.conns c = some k ∨
    (c = w.nextConn ∧ ∃ ℓ name fd cb wc, k = w.newTcpConnection ℓ name fd cb wc ∧
      (cb = .client → ℓ = w.client.loop_)) := by
  have halloc : ∀ ℓ name fd cb wc, (cb = .client → ℓ = w.client.loop_) →
      Function.update w.conns w.nextConn (some (w.newTcpConnection ℓ name fd cb wc)) c = some k →
      w.conns c = some k ∨
      (c = w.nextConn ∧ ∃ ℓ name fd cb wc, k = w.newTcpConnection ℓ name fd cb wc ∧
        (cb = .client → ℓ = w.client.loop_)) := by
    intro ℓ name fd cb wc hcb h
    by_cases hc : c = w.nextConn
    · subst hc
      rw [Function.update_self] at h
      exact .inr ⟨rfl, ℓ, name, fd, cb, wc, (Option.some.inj h).symm, hcb⟩
    · rw [Function.update_of_ne hc] at h
      exact .inl h
  cases l with
  | accept fd => exact halloc _ _ _ _ _ (by simp) h
  | newConnection fd peer => exact halloc _ _ _ _ _ (fun _ => rfl) h
  | advance i =>
      simp only [prepare, advance] at h
      split at h <;> exact .inl h
  | release d =>
      simp only [prepare] at h
      split at h
      · exact .inl h
      · have h : Function.update w.conns d none c = some k := h
        by_cases hc : c = d
        · subst hc
          simp at h
        · rw [Function.update_of_ne hc] at h
          exact .inl h
  | _ => exact .inl h

/-- Only `release` takes a connection away. -/
theorem prepare_keeps {c : ConnId} (hk : w.conns c = some k) (hold : c ≠ w.nextConn)
    (hl : l ≠ .release c) : (w.prepare l).conns c = some k := by
  cases l with
  | accept fd => exact (Function.update_of_ne hold _ _).trans hk
  | newConnection fd peer => exact (Function.update_of_ne hold _ _).trans hk
  | advance i =>
      simp only [prepare, advance]
      split <;> exact hk
  | release d =>
      simp only [prepare]
      split
      · exact hk
      · have hcd : c ≠ d := fun h => hl (by rw [h])
        exact (Function.update_of_ne hcd _ _).trans hk
  | _ => exact hk

theorem prepare_phase (hen : w.Enabled l) (ℓ : LoopId) :
    ((w.prepare l).loops ℓ).phase = (w.loops ℓ).phase ∨
    Phase.Next ℓ (w.loops ℓ).pendingFunctors_ l (w.loops ℓ).phase
      ((w.prepare l).loops ℓ).phase := by
  -- a label moves one loop
  have honLoop : ∀ (ℓ₀ : LoopId) (g : EventLoop → EventLoop),
      (ℓ₀ = ℓ → (g (w.loops ℓ)).phase = (w.loops ℓ).phase ∨
        Phase.Next ℓ (w.loops ℓ).pendingFunctors_ l (w.loops ℓ).phase (g (w.loops ℓ)).phase) →
      ((w.onLoop ℓ₀ g).loops ℓ).phase = (w.loops ℓ).phase ∨
      Phase.Next ℓ (w.loops ℓ).pendingFunctors_ l (w.loops ℓ).phase
        ((w.onLoop ℓ₀ g).loops ℓ).phase := by
    intro ℓ₀ g hg
    by_cases hℓ : ℓ = ℓ₀
    · subst hℓ
      rw [onLoop_self]
      exact hg rfl
    · rw [onLoop_of_ne _ _ hℓ]
      exact .inl rfl
  cases l with
  | poll ℓ₀ active =>
      refine honLoop ℓ₀ (EventLoop.wake active) fun h => .inr ?_
      subst h
      rw [hen.1]
      exact .poll
  | handleEvent ℓ₀ read =>
      obtain ⟨⟨⟨c, revents⟩, active, hphase⟩, -⟩ := hen
      refine honLoop ℓ₀ (EventLoop.beginEvent read) fun h => .inr ?_
      subst h
      simp only [EventLoop.beginEvent, hphase]
      exact .handleEvent
  | handleEventWrite ℓ₀ left write =>
      obtain ⟨c, revents, inMessage, active, k, hphase, -⟩ := hen
      refine honLoop ℓ₀ EventLoop.endEvent fun h => .inr ?_
      subst h
      simp only [EventLoop.endEvent, hphase]
      exact .handleEventWrite
  | beginFunctors ℓ₀ =>
      refine honLoop ℓ₀ EventLoop.swapFunctors fun h => .inr ?_
      subst h
      rw [hen.1]
      exact .beginFunctors
  | runFunctor ℓ₀ write =>
      obtain ⟨f, batch, hphase, -⟩ := hen
      refine honLoop ℓ₀ EventLoop.popFunctor fun h => .inr ?_
      subst h
      simp only [EventLoop.popFunctor, hphase]
      exact .runFunctor
  | endFunctors ℓ₀ =>
      refine honLoop ℓ₀ EventLoop.wait fun h => .inr ?_
      subst h
      rw [hen.1]
      exact .endFunctors
  | advance i =>
      simp only [prepare, advance]
      split
      · exact .inl rfl
      · exact .inl rfl
      · exact honLoop _ (EventLoop.enqueue _) fun _ => .inl rfl
  | release d =>
      simp only [prepare]
      split
      · exact .inl rfl
      · exact honLoop _ (EventLoop.closeFd _) fun _ => .inl rfl
  | _ => exact .inl rfl

/-- A channel is touched because `epoll_wait` has just returned it, or was
before. -/
theorem prepare_touched (hen : w.Enabled l) (ℓ : LoopId) :
    (∃ active, l = .poll ℓ active ∧
      ((w.prepare l).loops ℓ).phase = .events active) ∨
    ((w.prepare l).loops ℓ).phase.touched.Sublist (w.loops ℓ).phase.touched := by
  rcases prepare_phase hen ℓ with hsame | hnext
  · rw [hsame]
    exact .inr (List.Sublist.refl _)
  · generalize (w.loops ℓ).phase = p, ((w.prepare l).loops ℓ).phase = p' at hnext
    cases hnext with
    | poll => exact .inl ⟨_, rfl, rfl⟩
    | handleEvent => exact .inr (List.Sublist.refl _)
    | handleEventWrite => exact .inr (List.sublist_cons_self _ _)
    | beginFunctors => exact .inr (List.Sublist.refl _)
    | runFunctor => exact .inr (List.Sublist.refl _)
    | endFunctors => exact .inr (List.Sublist.refl _)

/-- The same for the channels whose turn is still to come. -/
theorem prepare_active (hen : w.Enabled l) (ℓ : LoopId) :
    (∃ active, l = .poll ℓ active ∧
      ((w.prepare l).loops ℓ).phase = .events active) ∨
    ((w.prepare l).loops ℓ).phase.active.Sublist (w.loops ℓ).phase.active := by
  rcases prepare_phase hen ℓ with hsame | hnext
  · rw [hsame]
    exact .inr (List.Sublist.refl _)
  · generalize (w.loops ℓ).phase = p, ((w.prepare l).loops ℓ).phase = p' at hnext
    cases hnext with
    | poll => exact .inl ⟨_, rfl, rfl⟩
    | handleEvent => exact .inr (List.sublist_cons_self _ _)
    | handleEventWrite => exact .inr (List.Sublist.refl _)
    | beginFunctors => exact .inr (List.Sublist.refl _)
    | runFunctor => exact .inr (List.Sublist.refl _)
    | endFunctors => exact .inr (List.Sublist.refl _)

theorem prepare_batch {f : Functor} (hen : w.Enabled l) (hf : f ∈ (w.loops ℓ).batch) :
    f ∈ ((w.prepare l).loops ℓ).batch ∨
    ∃ write batch, l = .runFunctor ℓ write ∧ (w.loops ℓ).phase = .functors (f :: batch) := by
  rcases prepare_phase hen ℓ with hsame | hnext
  · rw [batch_of_phase hsame]
    exact .inl hf
  · unfold EventLoop.batch at *
    generalize (w.loops ℓ).phase = p, ((w.prepare l).loops ℓ).phase = p' at *
    cases hnext with
    | @runFunctor write g batch =>
        rcases List.mem_cons.mp hf with rfl | hf
        · exact .inr ⟨write, batch, rfl, rfl⟩
        · exact .inl hf
    | _ => cases hf

theorem prepare_pending {f : Functor} (hf : f ∈ (w.loops ℓ).pendingFunctors_) :
    f ∈ ((w.prepare l).loops ℓ).pendingFunctors_ ∨
    (l = .beginFunctors ℓ ∧ f ∈ ((w.prepare l).loops ℓ).batch) := by
  have honLoop : ∀ (ℓ₀ : LoopId) (g : EventLoop → EventLoop),
      (∀ e, (g e).pendingFunctors_ = e.pendingFunctors_) →
      f ∈ ((w.onLoop ℓ₀ g).loops ℓ).pendingFunctors_ := by
    intro ℓ₀ g hg
    rw [onLoop_same (hg (w.loops ℓ₀))]
    exact hf
  cases l with
  | poll ℓ₀ active => exact .inl (honLoop ℓ₀ (EventLoop.wake active) fun _ => rfl)
  | handleEvent ℓ₀ read =>
      refine .inl (honLoop ℓ₀ (EventLoop.beginEvent read) fun e => ?_)
      unfold EventLoop.beginEvent
      split <;> rfl
  | handleEventWrite ℓ₀ left write =>
      refine .inl (honLoop ℓ₀ EventLoop.endEvent fun e => ?_)
      unfold EventLoop.endEvent
      split <;> rfl
  | beginFunctors ℓ₀ =>
      by_cases hℓ : ℓ = ℓ₀
      · subst hℓ
        refine .inr ⟨rfl, ?_⟩
        simp only [prepare]
        rw [onLoop_self]
        exact hf
      · refine .inl ?_
        simp only [prepare]
        rw [onLoop_of_ne _ _ hℓ]
        exact hf
  | endFunctors ℓ₀ => exact .inl (honLoop ℓ₀ EventLoop.wait fun _ => rfl)
  | runFunctor ℓ₀ write =>
      refine .inl (honLoop ℓ₀ EventLoop.popFunctor fun e => ?_)
      unfold EventLoop.popFunctor
      split <;> rfl
  | advance i =>
      refine .inl ?_
      simp only [prepare, advance]
      split
      · exact hf
      · exact hf
      · rename_i ℓ₀ g hi
        by_cases hℓ : ℓ = ℓ₀
        · subst hℓ
          rw [onLoop_self]
          exact List.mem_append_left _ hf
        · rw [onLoop_of_ne _ _ hℓ]
          exact hf
  | release d =>
      refine .inl ?_
      simp only [prepare]
      split
      · exact hf
      · exact honLoop _ (EventLoop.closeFd _) fun _ => rfl
  | _ => exact .inl hf

theorem prepare_nextConn (w : World) (l : Label) : w.nextConn ≤ (w.prepare l).nextConn := by
  cases l with
  | accept fd => exact Nat.le_succ _
  | newConnection fd peer => exact Nat.le_succ _
  | advance i =>
      simp only [prepare, advance]
      split <;> exact Nat.le_refl _
  | release d =>
      simp only [prepare]
      split <;> exact Nat.le_refl _
  | _ => exact Nat.le_refl _

/-! ## What runs in a step -/

/-- The actions a label can stand for, with the state that makes it so. -/
inductive Runs (w : World) : Label → Thread → ConnId → Action → Prop
  | handleEvent {ℓ : LoopId} {read : ReadResult} {c : ConnId} {revents : Events}
      {active : List (ConnId × Events)}
      (phase : (w.loops ℓ).phase = .events ((c, revents) :: active)) :
      Runs w (.handleEvent ℓ read) (some ℓ) c (.handleEvent revents read)
  | handleEventWrite {ℓ : LoopId} {left : Option Buffer} {write : WriteResult} {c : ConnId}
      {revents : Events} {inMessage : Bool} {active : List (ConnId × Events)}
      (phase : (w.loops ℓ).phase = .handling c revents inMessage active) :
      Runs w (.handleEventWrite ℓ left write) (some ℓ) c (.handleEventWrite revents left write)
  | functor {ℓ : LoopId} {write : WriteResult} {f : Functor} {batch : List Functor} {a : Action}
      (phase : (w.loops ℓ).phase = .functors (f :: batch)) (act : f.action write = some a) :
      Runs w (.runFunctor ℓ write) (some ℓ) f.conn a
  | accept {fd : Fd} : Runs w (.accept fd) (some 0) w.nextConn .runEstablish
  | newConnection {fd : Fd} {peer : Bytes} :
      Runs w (.newConnection fd peer) (some w.client.loop_) w.nextConn .establishConnection
  | send {t : Thread} {c : ConnId} {msg : Bytes} {write : WriteResult} :
      Runs w (.send t c msg write) t c (.send msg write)
  | shutdown {t : Thread} {c : ConnId} : Runs w (.shutdown t c) t c .shutdown
  | forceClose {t : Thread} {c : ConnId} : Runs w (.forceClose t c) t c .forceClose
  | store {i : Nat} {c : ConnId} {state : State} {ℓ : LoopId} {f : Functor}
      (handover : w.handovers[i]? = some (.store c state ℓ f)) :
      Runs w (.advance i) none c (.store state)
  | destroyNext {c : ConnId} {rest : List ConnId}
      (destroying : w.server.destroying = some (c :: rest)) :
      Runs w .destroyNext (some 0) c .destoryConnection
  | detach {unique : Bool} {c : ConnId}
      (established : w.client.establishedConnection_ = some c) :
      Runs w (.destroyClient unique) (some w.client.loop_) c (.detach unique)

theorem action_runs {c : ConnId} {a : Action} (h : w.action l = some (t, c, a)) :
    w.Runs l t c a := by
  unfold action at h
  split at h
  · split at h
    · cases h
      exact .handleEvent ‹_›
    · cases h
  · split at h
    · cases h
      exact .handleEventWrite ‹_›
    · cases h
  · split at h
    · obtain ⟨b, hb, heq⟩ := Option.map_eq_some_iff.mp h
      cases heq
      exact .functor ‹_› hb
    · cases h
  · cases h
    exact .accept
  · cases h
    exact .newConnection
  · cases h
    exact .send
  · cases h
    exact .shutdown
  · cases h
    exact .forceClose
  · split at h
    · cases h
      exact .store ‹_›
    · cases h
  · split at h
    · cases h
      exact .destroyNext ‹_›
    · cases h
  · obtain ⟨b, hb, heq⟩ := Option.map_eq_some_iff.mp h
    cases heq
    exact .detach hb
  all_goals cases h

/-- The bookkeeping of a step that runs `destoryConnection` is about queues
only. -/
theorem Runs.destoryConnection_conns {c : ConnId} (h : w.Runs l t c .destoryConnection) :
    (w.prepare l).conns = w.conns := by
  cases h with
  | functor phase act => rfl
  | destroyNext destroying => rfl

section

variable {c : ConnId} {ℓ : LoopId}

/-! An action tells which label has run it; that no functor stands for the
others is settled here, once. -/

theorem Runs.handleEvent_inv {revents : Events} {read : ReadResult}
    (h : w.Runs l t c (.handleEvent revents read)) :
    ∃ ℓ active, l = .handleEvent ℓ read ∧ t = some ℓ ∧
      (w.loops ℓ).phase = .events ((c, revents) :: active) := by
  cases h with
  | @handleEvent ℓ read c revents active phase => exact ⟨ℓ, active, rfl, rfl, phase⟩
  | @functor ℓ write f batch a phase act => cases f <;> cases act

theorem Runs.handleEventWrite_inv {revents : Events} {left : Option Buffer} {write : WriteResult}
    (h : w.Runs l t c (.handleEventWrite revents left write)) :
    ∃ ℓ inMessage active, l = .handleEventWrite ℓ left write ∧
      (w.loops ℓ).phase = .handling c revents inMessage active := by
  cases h with
  | @handleEventWrite ℓ left write c revents inMessage active phase =>
      exact ⟨ℓ, inMessage, active, rfl, phase⟩
  | @functor ℓ write f batch a phase act => cases f <;> cases act

theorem Runs.sendInLoop_inv {msg : Bytes} {write : WriteResult}
    (h : w.Runs l t c (.sendInLoop msg write)) :
    ∃ ℓ batch, l = .runFunctor ℓ write ∧
      (w.loops ℓ).phase = .functors (.sendInLoop c msg :: batch) := by
  cases h with
  | @functor ℓ write f batch a phase act =>
      cases f with
      | sendInLoop d msg' =>
          cases act
          exact ⟨ℓ, batch, rfl, phase⟩
      | _ => cases act

theorem Runs.shutdownInLoop_inv (h : w.Runs l t c .shutdownInLoop) :
    ∃ ℓ write batch, l = .runFunctor ℓ write ∧
      (w.loops ℓ).phase = .functors (.shutdownInLoop c :: batch) := by
  cases h with
  | @functor ℓ write f batch a phase act =>
      cases f with
      | shutdownInLoop d => exact ⟨ℓ, write, batch, rfl, phase⟩
      | _ => cases act

theorem Runs.removeConnectionInLoop_inv (h : w.Runs l t c .removeConnectionInLoop) :
    ∃ ℓ write batch, l = .runFunctor ℓ write ∧
      (w.loops ℓ).phase = .functors (.removeConnectionInLoop c :: batch) := by
  cases h with
  | @functor ℓ write f batch a phase act =>
      cases f with
      | removeConnectionInLoop d => exact ⟨ℓ, write, batch, rfl, phase⟩
      | _ => cases act

theorem Runs.runEstablish_inv (h : w.Runs l t c .runEstablish) :
    t = some 0 ∧ ∃ fd, l = .accept fd := by
  cases h with
  | @accept fd => exact ⟨rfl, fd, rfl⟩
  | @functor ℓ write f batch a phase act => cases f <;> cases act

theorem Runs.detach_inv {unique : Bool} (h : w.Runs l t c (.detach unique)) :
    l = .destroyClient unique := by
  cases h with
  | detach established => rfl
  | @functor ℓ write f batch a phase act => cases f <;> cases act

theorem Runs.store_inv {value : State} (h : w.Runs l t c (.store value)) :
    ∃ i ℓ f, l = .advance i ∧ w.handovers[i]? = some (.store c value ℓ f) := by
  cases h with
  | @store i c state ℓ f handover => exact ⟨i, ℓ, f, rfl, handover⟩
  | @functor ℓ write f batch a phase act => cases f <;> cases act

end

/-- The functor at the head of the batch is in the queue, and off it behind the
bookkeeping. -/
theorem functor_popped {write : WriteResult} {f : Functor} {batch : List Functor}
    (hen : w.Enabled (.runFunctor ℓ write)) (hphase : (w.loops ℓ).phase = .functors (f :: batch)) :
    f ∈ w.queued ℓ ∧
    (w.queued ℓ).count f = ((w.prepare (.runFunctor ℓ write)).queued ℓ).count f + 1 := by
  have hpop : w.popped (.runFunctor ℓ write) = [(ℓ, f)] := by
    simp [popped, EventLoop.batch, hphase]
  have hcount := prepare_queued hen ℓ f
  rw [hpop] at hcount
  refine ⟨by simp [queued, EventLoop.batch, hphase], ?_⟩
  simpa using hcount

/-- The thread of a loop is not busy outside the destructor of the server and
`TcpClient::newConnection`. -/
theorem not_busy (hserver : w.server.destroying = none) (hclient : w.client.establishing = none) :
    ¬ w.Busy ℓ := by
  rintro (⟨-, h⟩ | ⟨-, h⟩)
  · exact h hserver
  · exact h hclient

/-- A step that runs an action. -/
theorem step_acted {c : ConnId} {a : Action} (haction : w.action l = some (t, c, a))
    (h : w.step l = .ok w') : ∃ k y, Acted (w.prepare l) t c a w' k y := by
  simp only [step, haction] at h
  exact onConn_ok h

/-- A step is its bookkeeping, with at most one action behind it. -/
theorem step_cases (h : w.step l = .ok w') :
    w' = w.prepare l ∨
    ∃ t c a k y, w.action l = some (t, c, a) ∧ Acted (w.prepare l) t c a w' k y := by
  cases haction : w.action l with
  | none =>
      simp only [step, haction] at h
      cases h
      exact .inl rfl
  | some act =>
      obtain ⟨t, c, a⟩ := act
      obtain ⟨k, y, hact⟩ := step_acted haction h
      exact .inr ⟨t, c, a, k, y, rfl, hact⟩

/-- A swapped functor stays in the batch until it is run. -/
theorem step_batch {f : Functor} (hstep : reactor.Step w l w') (hf : f ∈ (w.loops ℓ).batch) :
    f ∈ (w'.loops ℓ).batch ∨
    ∃ write batch, l = .runFunctor ℓ write ∧ (w.loops ℓ).phase = .functors (f :: batch) := by
  rcases prepare_batch hstep.1 hf with hf | hrun
  · rcases step_cases hstep.2 with rfl | ⟨t, c, a, k, y, -, hact⟩
    · exact .inl hf
    · rw [batch_of_phase (hact.phase ℓ)]
      exact .inl hf
  · exact .inr hrun

/-- A pending functor stays pending until the queue is swapped. -/
theorem step_pending {f : Functor} (hstep : reactor.Step w l w')
    (hf : f ∈ (w.loops ℓ).pendingFunctors_) :
    f ∈ (w'.loops ℓ).pendingFunctors_ ∨
    (l = .beginFunctors ℓ ∧ f ∈ (w'.loops ℓ).batch) := by
  rcases step_cases hstep.2 with rfl | ⟨t, c, a, k, y, -, hact⟩
  · exact prepare_pending hf
  · rw [batch_of_phase (hact.phase ℓ)]
    obtain ⟨new, hnew⟩ := hact.pending ℓ
    rw [hnew]
    rcases prepare_pending hf with hf | hf
    · exact .inl (List.mem_append_left _ hf)
    · exact .inr hf

end World

end Ham.Net
