import Ham.Net.ReactorInvariant

/-!
# Up and down notifications

`connectionCallback_` is called in `establishConnection` and, for the down
call, in `destoryConnection` behind the test `state_ == kConnected`. Every
path through `handleClose` or `shutdownInLoop` has left `kConnected` by then,
so what `destoryConnection` finds in `state_` decides whether the user is told
at all (`upDown_iff`): only a connection that `~TcpServer` destroys while it is
connected goes down with a call.
-/

namespace Ham.Net

open Ham.Lib

namespace World

variable {w w' : World} {c : ConnId} {calls : List Bool}

/-- Connection `c` has had these calls and is no longer connected. -/
structure Over (w : World) (c : ConnId) (calls : List Bool) : Prop where
  old : c < w.nextConn
  calls : ∀ k, w.conns c = some k →
    k.log.connectionCalls = calls ∧ k.state_ ≠ .kConnected

theorem Over.prepare {l : Label} (h : Over w c calls) : Over (w.prepare l) c calls where
  old := Nat.lt_of_lt_of_le h.old (prepare_nextConn w l)
  calls := by
    intro k hk
    rcases prepare_conns hk with hk | ⟨rfl, -⟩
    · exact h.calls k hk
    · exact absurd h.old (Nat.lt_irrefl _)

/-- Nothing that can still happen to the connection is a call. -/
theorem Over.step {l : Label} (h : Over w c calls) (hne : calls ≠ []) (hsound : Sound w)
    (hann : Announced w) (hstep : reactor.Step w l w') : Over w' c calls := by
  obtain ⟨hen, hstep⟩ := hstep
  rcases step_cases hstep with rfl | ⟨t, d, a, k, y, haction, hact⟩
  · exact h.prepare
  · have hruns := action_runs haction
    have hpre : Over (w.prepare l) c calls := h.prepare
    refine ⟨hact.nextConn ▸ hpre.old, fun k' hk' => ?_⟩
    rcases hact.cases hk' with ⟨rfl, rfl⟩ | ⟨-, hk'⟩
    · obtain ⟨hcalls, hstate⟩ := hpre.calls k hact.before
      rcases hact.ran.moves.connectionCalls with heq | ⟨ha, -⟩ | ⟨-, hconnected, -⟩
      · refine ⟨heq.trans hcalls, hact.ran.moves.not_connected hstate heq fun value ha => ?_⟩
        subst ha
        rw [hann.store_value hruns]
        decide
      · exact absurd (hcalls ▸ (hann.due hsound hen hruns hact.before ha).2.1) hne
      · exact absurd hconnected hstate
    · exact hpre.calls k' hk'

theorem Over.run {ls : List Label} (h : Over w c calls) (hne : calls ≠ []) (hsound : Sound w)
    (hann : Announced w) (hrun : reactor.Run w ls w') : Over w' c calls :=
  (hrun.invariant (I := fun w => Sound w ∧ Announced w ∧ Over w c calls) ⟨hsound, hann, h⟩
    fun _ _ _ h hstep => ⟨h.1.step hstep, h.2.1.step h.1 hstep,
      h.2.2.step hne h.1 h.2.1 hstep⟩).2.2

variable {l : Label} {t : Thread} {k : TcpConnection}

theorem destoryConnection_acted (hk : w.conns c = some k)
    (hdestroy : w.action l = some (t, c, .destoryConnection)) (hstep : reactor.Step w l w') :
    ∃ y, Acted (w.prepare l) t c .destoryConnection w' k y := by
  obtain ⟨k₀, y, hact⟩ := step_acted hdestroy hstep.2
  have hbefore := hact.before
  rw [(action_runs hdestroy).destoryConnection_conns, hk] at hbefore
  cases hbefore
  exact ⟨y, hact⟩

/-- Where `destoryConnection` leaves a connection that was announced. -/
theorem destoryConnection_over (hsound : Sound w) (hk : w.conns c = some k)
    (hup : k.log.connectionCalls = [true])
    (hdestroy : w.action l = some (t, c, .destoryConnection)) (hstep : reactor.Step w l w') :
    w'.conns c ≠ none ∧
    Over w' c (if k.state_ = .kConnected then [true, false] else [true]) := by
  obtain ⟨y, hact⟩ := destoryConnection_acted hk hdestroy hstep
  have hafter := hact.after
  refine ⟨by rw [hafter]; exact Option.some_ne_none _, ?_, fun k' hk' => ?_⟩
  · rw [hact.nextConn]
    exact Nat.lt_of_lt_of_le (hsound.fresh c k hk) (prepare_nextConn w l)
  · rw [hafter] at hk'
    cases hk'
    obtain ⟨-, -, -, hspec⟩ := ConnRun.destoryConnection_ok hact.returned
    split at hspec
    · rename_i hstate
      rw [if_pos hstate, hspec]
      exact ⟨congrArg (· ++ [false]) hup, by simp⟩
    · rename_i hstate
      rw [if_neg hstate, hspec]
      exact ⟨hup, hstate⟩

end World

open World

/-- From `establishConnection` to `destoryConnection` and ever after: the user
has seen the connection come and go if and only if `destoryConnection` found
it connected. -/
theorem upDown_iff {server : TcpServer} {client : TcpClient} {ls : List Label} {w w' : World}
    {l : Label} {t : Thread} {c : ConnId} {k : TcpConnection}
    (hrun : reactor.Run (World.init server client) ls w) (hk : w.conns c = some k)
    (hestablished : k.log.connectionCalls ≠ []) (hfirst : k.log.destroyed = false)
    (hdestroy : w.action l = some (t, c, .destoryConnection)) (hstep : reactor.Step w l w') :
    w'.conns c ≠ none ∧
    ∀ ls' w'' k'', reactor.Run w' ls' w'' → w''.conns c = some k'' →
      (k''.log.connectionCalls = [true, false] ↔ k.state_ = .kConnected) := by
  have hsound := reachable_sound hrun
  have hann := reachable_announced hrun
  have hup : k.log.connectionCalls = [true] :=
    (hann.calls c k hk hfirst).resolve_left hestablished
  obtain ⟨hthere, hover⟩ := destoryConnection_over hsound hk hup hdestroy hstep
  refine ⟨hthere, fun ls' w'' k'' hrest hk'' => ?_⟩
  have hlater := hover.run (by split <;> decide) (hsound.step hstep) (hann.step hsound hstep) hrest
  rw [(hlater.calls k'' hk'').1]
  split
  · rename_i hstate
    exact ⟨fun _ => hstate, fun _ => rfl⟩
  · rename_i hstate
    exact ⟨fun h => absurd h (by decide), fun h => absurd h hstate⟩

/-- A server destroyed while its one connection is connected. -/
theorem upDown_destroyServer : ∃ ls w k w' k',
    reactor.Run (World.init {} {}) ls w ∧ w.conns 0 = some k ∧
    reactor.Step w .destroyNext w' ∧ w'.conns 0 = some k' ∧
    k'.log.connectionCalls = [true, false] := by
  have hrun : ∃ w k w' k',
      reactor.Run (World.init {} {}) [.poll 0 [], .accept 7, .destroyServer] w ∧
      w.conns 0 = some k ∧ k.state_ = .kConnected ∧ k.log.connectionCalls ≠ [] ∧
      k.log.destroyed = false ∧ w.action .destroyNext = some (some 0, 0, .destoryConnection) ∧
      reactor.Step w .destroyNext w' ∧ w'.conns 0 = some k' := by
    refine ⟨_, _, _, _, .cons ⟨?_, rfl⟩ (.cons ⟨?_, rfl⟩ (.cons ⟨?_, rfl⟩ (.nil _))), rfl, rfl,
      by decide, rfl, rfl, ⟨?_, rfl⟩, rfl⟩
    · exact ⟨rfl, not_busy rfl rfl, .nil, by simp⟩
    · exact ⟨rfl, ⟨_, rfl⟩, not_busy rfl rfl, fun _ _ h => by cases h⟩
    · exact ⟨rfl, rfl, fun _ _ _ h => by cases h⟩
    · exact ⟨_, _, rfl⟩
  obtain ⟨w, k, w', k', hrun, hk, hstate, hup, hfirst, hdestroy, hstep, hk'⟩ := hrun
  exact ⟨_, w, k, w', k', hrun, hk, hstep, hk',
    ((upDown_iff hrun hk hup hfirst hdestroy hstep).2 [] w' k' (.nil w') hk').mpr hstate⟩

/-- The peer closes: the user is not told. -/
theorem not_upDown_peerClose : ¬ ∀ ls w l t c k w' k',
    reactor.Run (World.init {} {}) ls w → w.conns c = some k → k.log.connectionCalls ≠ [] →
    k.log.destroyed = false → w.action l = some (t, c, .destoryConnection) →
    reactor.Step w l w' → w'.conns c = some k' → k'.log.connectionCalls = [true, false] := by
  intro hlaw
  have hrun : ∃ w k w' k',
      reactor.Run (World.init {} {}) [.poll 0 [], .accept 7, .beginFunctors 0, .endFunctors 0,
        .poll 0 [(0, { epollin := true })], .handleEvent 0 .eof,
        .handleEventWrite 0 none (.wrote 0), .beginFunctors 0] w ∧
      w.conns 0 = some k ∧ k.log.connectionCalls ≠ [] ∧ k.log.destroyed = false ∧
      w.action (.runFunctor 0 (.wrote 0)) = some (some 0, 0, .destoryConnection) ∧
      reactor.Step w (.runFunctor 0 (.wrote 0)) w' ∧ w'.conns 0 = some k' ∧
      k'.log.connectionCalls = [true] := by
    refine ⟨_, _, _, _, .cons ⟨?_, rfl⟩ (.cons ⟨?_, rfl⟩ (.cons ⟨?_, rfl⟩ (.cons ⟨?_, rfl⟩
      (.cons ⟨?_, rfl⟩ (.cons ⟨?_, rfl⟩ (.cons ⟨?_, rfl⟩ (.cons ⟨?_, rfl⟩ (.nil _)))))))), rfl,
      by decide, rfl, rfl, ⟨?_, rfl⟩, rfl, rfl⟩
    · exact ⟨rfl, not_busy rfl rfl, .nil, by simp⟩
    · exact ⟨rfl, ⟨_, rfl⟩, not_busy rfl rfl, fun _ _ h => by cases h⟩
    · exact ⟨rfl, not_busy rfl rfl⟩
    · exact ⟨rfl, not_busy rfl rfl⟩
    · refine ⟨rfl, not_busy rfl rfl, by simp, fun a ha => ?_⟩
      cases List.mem_singleton.mp ha
      exact ⟨_, _, rfl, rfl⟩
    · exact ⟨⟨_, _, rfl⟩, not_busy rfl rfl, by simp⟩
    · exact ⟨_, _, _, _, _, rfl, not_busy rfl rfl, .inl rfl, rfl, Nat.zero_le _⟩
    · exact ⟨rfl, not_busy rfl rfl⟩
    · exact ⟨_, _, rfl, not_busy rfl rfl, Nat.zero_le _⟩
  obtain ⟨w, k, w', k', hrun, hk, hup, hfirst, hdestroy, hstep, hk', hcalls⟩ := hrun
  have hboth := hlaw _ w _ _ 0 k w' k' hrun hk hup hfirst hdestroy hstep hk'
  rw [hcalls] at hboth
  cases hboth

end Ham.Net
