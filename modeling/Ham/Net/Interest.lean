import Ham.Net.Registration

/-!
# Channels without interest

The kernel reports hang-ups and errors of every descriptor in its set, also
under an empty mask. `updateChannel` takes a channel with an empty mask out of
the set if its status is `kAdded`; from the other two statuses it puts the
channel in. So a channel without interest stays out of the set as long as its
mask is emptied only while it is registered (`interest_polled`), and a second
`disableAll` undoes the first.
-/

namespace Ham.Net

open Ham.Lib

namespace Registrations

variable {live : Set ConnId} {fds : ConnId → Fd} {w w' : Registrations} {c : ConnId}

/-- No channel without interest is in the kernel's set. -/
def Quiet (w : Registrations) (live : Set ConnId) : Prop :=
  ∀ c ∈ live, (w.channel c).isNoneEvent = true → w.epoller.kernel (w.channel c).fd_ = none

/-- The mask of a channel is emptied only while the channel is registered. -/
def EmptiesRegistered (w : Registrations) (l : ConnId × ChannelOp) : Prop :=
  l.2 ≠ .remove → (l.2.masked (w.channel l.1)).isNoneEvent = true →
    (w.channel l.1).status_ = .kAdded

/-- A channel the epoller holds is in the kernel's set if it is registered. -/
theorem quiet_iff (h : Agree live fds w) :
    w.Quiet live ↔
      ∀ c ∈ live, (w.channel c).isNoneEvent = true → (w.channel c).status_ ≠ .kAdded := by
  refine forall₂_congr fun c hc => imp_congr_right fun _ => ?_
  rw [(h.holds c hc).kernel]
  split
  · rename_i hadded
    simp [hadded]
  · rename_i habsent
    simp [habsent]

/-- The channels behind a step. -/
theorem Agree.channel (h : Agree live fds w) {op : ChannelOp}
    (hst : (registrations live).Step w (c, op) w') :
    w'.channel = Function.update w.channel c (op.after (w.channel c)) := by
  obtain ⟨⟨hc, hremove⟩, hstep⟩ := hst
  obtain ⟨p', hrun, -⟩ := op.run_spec (h.holds c hc) hremove
  simp only [registrations, Registrations.step, hrun, ok_bind, pure_eq_ok, Except.ok.injEq] at hstep
  rw [← hstep]

theorem Agree.next (hfds : Set.InjOn fds live) (h : Agree live fds w) {l : ConnId × ChannelOp}
    (hst : (registrations live).Step w l w') : Agree live fds w' := by
  obtain ⟨w₁, hstep, hagree⟩ := h.step hfds hst.1
  cases hstep.symm.trans hst.2
  exact hagree

/-- The channel behind an operation is registered with an empty mask exactly if
its mask was emptied while it was not registered. -/
theorem after_polled (ch : Channel) (op : ChannelOp) :
    ((op.after ch).isNoneEvent = true → (op.after ch).status_ ≠ .kAdded) ↔
      (op ≠ .remove → (op.masked ch).isNoneEvent = true → ch.status_ = .kAdded) := by
  -- the four that change the mask end in `updateChannel`
  have hupdate : op ≠ .remove → ∀ masked : Channel, masked.status_ = ch.status_ →
      ((masked.isNoneEvent = true → Epoller.nextStatus masked ≠ .kAdded) ↔
        (op ≠ .remove → masked.isNoneEvent = true → ch.status_ = .kAdded)) := by
    intro hop masked hstatus
    rw [forall_prop_of_true hop]
    refine imp_congr_right fun hnone => ?_
    rw [Epoller.nextStatus, hstatus, hnone]
    by_cases hadded : ch.status_ = .kAdded
    · simp [hadded]
    · simp [hadded]
  cases op with
  | remove => simp [ChannelOp.after]
  | enableReading => exact hupdate (by simp) ch.setReading rfl
  | enableWriting => exact hupdate (by simp) (ch.setWriting true) rfl
  | disableWriting => exact hupdate (by simp) (ch.setWriting false) rfl
  | disableAll => exact hupdate (by simp) ch.setNone rfl

/-- From a quiet state, a step leads to a quiet state if and only if it empties
no mask of a channel that is not registered. -/
theorem quiet_step (hfds : Set.InjOn fds live) (h : Agree live fds w) (hquiet : w.Quiet live)
    {l : ConnId × ChannelOp} (hst : (registrations live).Step w l w') :
    w.EmptiesRegistered l ↔ w'.Quiet live := by
  obtain ⟨c, op⟩ := l
  rw [quiet_iff (h.next hfds hst), h.channel hst]
  rw [quiet_iff h] at hquiet
  have hself := after_polled (w.channel c) op
  constructor
  · intro hmeets d hd
    by_cases hdc : d = c
    · subst hdc
      rw [Function.update_self]
      exact hself.mpr hmeets
    · rw [Function.update_of_ne hdc]
      exact hquiet d hd
  · intro hafter
    have hc := hafter c hst.1.1
    rw [Function.update_self] at hc
    exact hself.mp hc

/-- `disableAll` after `disableAll`: the status goes to `kDismissed` or comes
back from it, and the kernel's entry with it. -/
theorem disableAll_twice (hfds : Set.InjOn fds live) (h : Agree live fds w) (hc : c ∈ live) :
    ∃ w₁ w₂, (registrations live).Run w [(c, .disableAll)] w₁ ∧
      (registrations live).Run w₁ [(c, .disableAll)] w₂ ∧
      (w₂.channel c).status_ ≠ (w₁.channel c).status_ ∧
      (w₂.epoller.kernel (fds c) = none ↔ w₁.epoller.kernel (fds c) ≠ none) ∧
      w₂.epoller.channelMap_ (fds c) = w₁.epoller.channelMap_ (fds c) := by
  obtain ⟨w₁, hstep₁, h₁⟩ := h.step hfds (l := (c, .disableAll)) ⟨hc, nofun⟩
  obtain ⟨w₂, hstep₂, h₂⟩ := h₁.step hfds (l := (c, .disableAll)) ⟨hc, nofun⟩
  have hst₁ : (registrations live).Step w (c, .disableAll) w₁ := ⟨⟨hc, nofun⟩, hstep₁⟩
  have hst₂ : (registrations live).Step w₁ (c, .disableAll) w₂ := ⟨⟨hc, nofun⟩, hstep₂⟩
  have hnext : ∀ ch : Channel, (ChannelOp.disableAll.after ch).status_ =
      if ch.status_ = .kAdded then .kDismissed else .kAdded := by
    intro ch
    show Epoller.nextStatus ch.setNone = _
    simp [Epoller.nextStatus, Channel.setNone, Channel.isNoneEvent]
  have hc₁ : (w₁.channel c).status_ =
      if (w.channel c).status_ = .kAdded then .kDismissed else .kAdded := by
    rw [h.channel hst₁, Function.update_self, hnext]
  have hc₂ : (w₂.channel c).status_ =
      if (w₁.channel c).status_ = .kAdded then .kDismissed else .kAdded := by
    rw [h₁.channel hst₂, Function.update_self, hnext]
  refine ⟨w₁, w₂, .cons hst₁ (.nil w₁), .cons hst₂ (.nil w₂), ?_⟩
  rw [← h₁.fd c, (h₁.holds c hc).kernel, (h₁.holds c hc).map, h₁.fd c, ← h₂.fd c,
    (h₂.holds c hc).kernel, (h₂.holds c hc).map, h₁.self, h₂.self, hc₂, hc₁]
  by_cases hadded : (w.channel c).status_ = .kAdded
  · simp [hadded]
  · simp [hadded]

end Registrations

/-- Over any operations on channels with distinct descriptors, channels without
interest are out of the kernel's set in every state on the way if and only if
every step that empties a mask is made on a registered channel. `disableAll`
is nowhere idempotent: a second call changes the status and the kernel's set
again. -/
theorem interest_polled (live : Set ConnId) (fds : ConnId → Fd) (hfds : Set.InjOn fds live)
    {ls : List (ConnId × ChannelOp)} {w : Registrations}
    (hrun : (registrations live).Run (.init fds) ls w) :
    (((registrations live).restrict Registrations.EmptiesRegistered).Run (.init fds) ls w ↔
      ∀ pre post w', ls = pre ++ post → (registrations live).Run (.init fds) pre w' →
        w'.Quiet live) ∧
    ∀ c ∈ live, ∃ w₁ w₂, (registrations live).Run w [(c, .disableAll)] w₁ ∧
      (registrations live).Run w₁ [(c, .disableAll)] w₂ ∧
      (w₂.channel c).status_ ≠ (w₁.channel c).status_ ∧
      (w₂.epoller.kernel (fds c) = none ↔ w₁.epoller.kernel (fds c) ≠ none) ∧
      w₂.epoller.channelMap_ (fds c) = w₁.epoller.channelMap_ (fds c) := by
  have hinit := Registrations.agree_init live fds
  have hquiet : (Registrations.init fds).Quiet live := fun _ _ _ => rfl
  refine ⟨?_, ?_⟩
  · exact hrun.restrict_iff hinit hquiet (fun _ _ _ h hst => h.next hfds hst)
      fun _ _ _ h hq hst => Registrations.quiet_step hfds h hq hst
  · intro c hc
    have h := hrun.invariant hinit fun _ _ _ h hst => h.next hfds hst
    exact Registrations.disableAll_twice hfds h hc

/-- A channel that is enabled, disabled and removed. -/
theorem interest_polled_disabled : ∃ w, (registrations {0, 1}).Run (.init (· + 5))
      [(0, .enableReading), (1, .enableWriting), (0, .disableAll), (0, .remove)] w ∧
    w.Quiet {0, 1} := by
  have hfds : Set.InjOn (fun c : ConnId => c + 5) {0, 1} := by
    intro a _ b _ h
    exact Nat.add_right_cancel h
  have hmeets : ∃ w, ((registrations {0, 1}).restrict Registrations.EmptiesRegistered).Run
      (.init (· + 5))
      [(0, .enableReading), (1, .enableWriting), (0, .disableAll), (0, .remove)] w :=
    ⟨_, .cons ⟨⟨⟨by simp, nofun⟩, fun _ => nofun⟩, rfl⟩
      (.cons ⟨⟨⟨by simp, nofun⟩, fun _ => nofun⟩, rfl⟩
      (.cons ⟨⟨⟨by simp, nofun⟩, fun _ _ => rfl⟩, rfl⟩
      (.cons ⟨⟨⟨by simp, fun _ => ⟨rfl, by decide⟩⟩, fun h => absurd rfl h⟩, rfl⟩ (.nil _))))⟩
  obtain ⟨w, hmeets⟩ := hmeets
  have hrun := hmeets.of_restrict
  exact ⟨w, hrun, (interest_polled {0, 1} (· + 5) hfds hrun).1.mp hmeets _ [] w rfl hrun⟩

/-- What the destructor of an acceptor that never listened does first: its new
channel, without interest, is put into the kernel's set. A second `disableAll`
takes it out. -/
theorem disableAll_registers : ∃ w w', (registrations {0}).Run (.init (· + 5))
      [(0, .disableAll)] w ∧
    (w.channel 0).isNoneEvent = true ∧ w.epoller.kernel 5 = some (Channel.kNoneEvent_, 0) ∧
    ¬ w.Quiet {0} ∧
    (registrations {0}).Run w [(0, .disableAll)] w' ∧
    (w'.channel 0).status_ ≠ (w.channel 0).status_ ∧ w'.epoller.kernel 5 = none := by
  refine ⟨_, _, .cons ⟨⟨by simp, nofun⟩, rfl⟩ (.nil _), rfl, rfl, ?_,
    .cons ⟨⟨by simp, nofun⟩, rfl⟩ (.nil _), by decide, rfl⟩
  intro hquiet
  cases hquiet 0 rfl rfl

end Ham.Net
