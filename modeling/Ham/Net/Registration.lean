import Ham.Lib.Run
import Ham.Net.Epoller

/-!
# Registrations

The channels of one loop under every sequence of their operations in which
`remove` comes to registered channels without interest only. A registration is
kept in three places: the status and mask of the channel, `channelMap_`, and the
kernel's set. `Agree` says that the three hold the same; each operation issues at
most one `epoll_ctl` (`updateChannel_eq`, `removeChannel_eq`), and agreement
makes it one the kernel accepts.
-/

namespace Ham.Net

open Ham.Lib

namespace Epoller

variable {p : Epoller} {ch : Channel}

/-- The `epoll_ctl` that `updateChannel` issues. -/
def ctl (ch : Channel) : EpollOp :=
  if ch.status_ = .kAdded then if ch.isNoneEvent then .DEL else .MOD else .ADD

/-- `epoll_ctl` succeeds: it adds an absent descriptor, and modifies or deletes
a present one. -/
def Accepts (p : Epoller) (ch : Channel) : EpollOp → Prop
  | .ADD => p.kernel ch.fd_ = none
  | .MOD | .DEL => p.kernel ch.fd_ ≠ none

/-- What the assertions of `updateChannel` ask for. -/
def Expects (p : Epoller) (ch : Channel) : Prop :=
  if ch.status_ = .kNew then p.channelMap_ ch.fd_ = none
  else p.channelMap_ ch.fd_ = some ch.self

/-- `channelMap_[fd] = channel`. -/
def mapped (p : Epoller) (ch : Channel) : Epoller :=
  { p with channelMap_ := Function.update p.channelMap_ ch.fd_ (some ch.self) }

/-- `channelMap_.erase(fd)`. -/
def unmapped (p : Epoller) (ch : Channel) : Epoller :=
  { p with channelMap_ := Function.update p.channelMap_ ch.fd_ none }

theorem mapped_of_known (h : p.channelMap_ ch.fd_ = some ch.self) : p.mapped ch = p := by
  unfold mapped
  rw [← h, Function.update_eq_self]

/-- With its assertions met, `updateChannel` is one `epoll_ctl`. -/
theorem updateChannel_eq (h : p.Expects ch) :
    p.updateChannel ch = (do
      let p ← (p.mapped ch).update (ctl ch) ch
      return (p, { ch with status_ := nextStatus ch })) := by
  unfold Expects at h
  unfold updateChannel
  split
  · rename_i hnew
    rw [if_pos hnew] at h
    rw [assert_pos h, ok_bind]
    simp only [ctl, nextStatus, hnew, reduceCtorEq, if_false, false_and]
    rfl
  · rename_i hdismissed
    rw [if_neg (by rw [hdismissed]; decide)] at h
    have hknown : p.channelMap_ ch.fd_ ≠ none := by simp [h]
    rw [assert_pos hknown, assert_pos h, ok_bind, ok_bind, mapped_of_known h]
    simp only [ctl, nextStatus, hdismissed, reduceCtorEq, if_false, false_and]
    rfl
  · rename_i hadded
    rw [if_neg (by rw [hadded]; decide)] at h
    have hknown : p.channelMap_ ch.fd_ ≠ none := by simp [h]
    rw [assert_pos hknown, assert_pos h, ok_bind, ok_bind, mapped_of_known h]
    by_cases hnone : ch.isNoneEvent = true
    · simp only [ctl, nextStatus, hadded, hnone, if_true, and_self]
    · have hsame : { ch with status_ := Channel.Status.kAdded } = ch := by rw [← hadded]
      simp only [ctl, nextStatus, hadded, hnone, if_true, if_false, Bool.false_eq_true, and_false,
        hsame]

/-- With its assertions met, `removeChannel` is at most one `epoll_ctl`. -/
theorem removeChannel_eq (hnone : ch.isNoneEvent = true) (h : p.Knows ch) :
    p.removeChannel ch = (do
      let p ← if ch.status_ = .kAdded then (p.unmapped ch).update .DEL ch else .ok (p.unmapped ch)
      return (p, { ch with status_ := .kNew })) := by
  obtain ⟨hsame, hnew⟩ := h
  have hknown : p.channelMap_ ch.fd_ ≠ none := by simp [hsame]
  have hstatus : ch.status_ = .kAdded ∨ ch.status_ = .kDismissed := by
    cases hs : ch.status_ with
    | kNew => exact absurd hs hnew
    | kAdded => exact .inl rfl
    | kDismissed => exact .inr rfl
  unfold removeChannel
  rw [assert_pos hnone, assert_pos hknown, assert_pos hsame, assert_pos hstatus]
  rfl

/-- An `epoll_ctl` the kernel accepts does not reach `CRITICAL`. -/
theorem update_of_accepts {op : EpollOp} (h : p.Accepts ch op) :
    p.update op ch = .ok { p with
      kernel := Function.update p.kernel ch.fd_
        (if op = .DEL then none else some (ch.event_, ch.self)) } := by
  cases op with
  | ADD =>
      have h : p.kernel ch.fd_ = none := h
      simp [update, h]
  | MOD =>
      obtain ⟨entry, hentry⟩ := Option.ne_none_iff_exists'.mp h
      simp [update, hentry]
  | DEL => simp [update_DEL]

end Epoller

/-- The operations on a channel. -/
inductive ChannelOp where
  | enableReading | enableWriting | disableWriting | disableAll | remove
  deriving DecidableEq, Repr

namespace ChannelOp

def run (ch : Channel) (p : Epoller) : ChannelOp → Except Fault (Epoller × Channel)
  | .enableReading => ch.enableReading p
  | .enableWriting => ch.enableWriting p
  | .disableWriting => ch.disableWriting p
  | .disableAll => ch.disableAll p
  | .remove => p.removeChannel ch

/-- The channel with its new mask, before `update()`. -/
def masked (ch : Channel) : ChannelOp → Channel
  | .enableReading => ch.setReading
  | .enableWriting => ch.setWriting true
  | .disableWriting => ch.setWriting false
  | .disableAll => ch.setNone
  | .remove => ch

/-- The `epoll_ctl` the operation issues. -/
def ctl (ch : Channel) : ChannelOp → Option EpollOp
  | .remove => if ch.status_ = .kAdded then some .DEL else none
  | op => some (Epoller.ctl (op.masked ch))

/-- The channel behind the operation. -/
def after (ch : Channel) : ChannelOp → Channel
  | .remove => { ch with status_ := .kNew }
  | op => { op.masked ch with status_ := Epoller.nextStatus (op.masked ch) }

theorem after_self (ch : Channel) (op : ChannelOp) : (op.after ch).self = ch.self := by
  cases op <;> rfl

theorem after_fd (ch : Channel) (op : ChannelOp) : (op.after ch).fd_ = ch.fd_ := by
  cases op <;> rfl

end ChannelOp

namespace Epoller

variable {p p' : Epoller} {ch : Channel}

/-- The epoller holds of a channel what the channel holds of itself. -/
structure Holds (p : Epoller) (ch : Channel) : Prop where
  kernel : p.kernel ch.fd_ = if ch.status_ = .kAdded then some (ch.event_, ch.self) else none
  map : p.channelMap_ ch.fd_ = if ch.status_ = .kNew then none else some ch.self

/-- The entries under other descriptors are as before. -/
def Frame (fd : Fd) (p p' : Epoller) : Prop :=
  ∀ fd', fd' ≠ fd → p'.kernel fd' = p.kernel fd' ∧ p'.channelMap_ fd' = p.channelMap_ fd'

theorem Holds.of_frame {fd : Fd} (h : p.Holds ch) (hframe : Frame fd p p') (hne : ch.fd_ ≠ fd) :
    p'.Holds ch where
  kernel := (hframe _ hne).1.trans h.kernel
  map := (hframe _ hne).2.trans h.map

/-- What `updateChannel` asserts, it finds. -/
theorem Holds.expects (h : p.Holds ch) (mask : Events) : p.Expects { ch with event_ := mask } := by
  unfold Expects
  split
  · rename_i hnew
    exact h.map.trans (if_pos hnew)
  · rename_i hold
    exact h.map.trans (if_neg hold)

/-- The kernel accepts what `updateChannel` issues. -/
theorem Holds.accepts (h : p.Holds ch) (mask : Events) :
    p.Accepts ch (ctl { ch with event_ := mask }) := by
  unfold ctl
  split
  · rename_i hadded
    have hpresent : p.kernel ch.fd_ ≠ none := by
      rw [h.kernel, if_pos hadded]
      simp
    split
    · exact hpresent
    · exact hpresent
  · rename_i habsent
    exact h.kernel.trans (if_neg habsent)

/-- `updateChannel` after a change of the mask. -/
theorem Holds.updateChannel (h : p.Holds ch) (mask : Events) :
    ∃ p', p.updateChannel { ch with event_ := mask } =
        .ok (p', { ch with event_ := mask, status_ := nextStatus { ch with event_ := mask } }) ∧
      p'.Holds { ch with event_ := mask, status_ := nextStatus { ch with event_ := mask } } ∧
      Frame ch.fd_ p p' := by
  have haccepts : (p.mapped { ch with event_ := mask }).Accepts { ch with event_ := mask }
      (ctl { ch with event_ := mask }) := h.accepts mask
  rw [updateChannel_eq (h.expects mask), update_of_accepts haccepts]
  refine ⟨_, rfl, ⟨?_, ?_⟩, ?_⟩
  · -- a deleted entry is a dismissed channel
    have hdel : ctl { ch with event_ := mask } = .DEL ↔
        nextStatus { ch with event_ := mask } ≠ .kAdded := by
      unfold ctl nextStatus
      by_cases hadded : ch.status_ = .kAdded
      · simp [hadded]
      · simp [hadded]
    simp only [Function.update_self]
    by_cases hd : ctl { ch with event_ := mask } = .DEL
    · rw [if_pos hd, if_neg (hdel.mp hd)]
    · rw [if_neg hd, if_pos (not_not.mp fun hs => hd (hdel.mpr hs))]
  · have hknown : nextStatus { ch with event_ := mask } ≠ .kNew := by
      unfold nextStatus
      split <;> decide
    simp only [mapped, Function.update_self, hknown, if_false]
  · intro fd hfd
    exact ⟨Function.update_of_ne hfd _ _, Function.update_of_ne hfd _ _⟩

/-- `removeChannel` on a registered channel without interest. -/
theorem Holds.removeChannel (h : p.Holds ch) (hnone : ch.isNoneEvent = true)
    (hold : ch.status_ ≠ .kNew) :
    ∃ p', p.removeChannel ch = .ok (p', { ch with status_ := .kNew }) ∧
      p'.Holds { ch with status_ := .kNew } ∧ Frame ch.fd_ p p' ∧
      (ch.status_ = .kAdded → p.Accepts ch .DEL) := by
  have hknows : p.Knows ch := ⟨h.map.trans (if_neg hold), hold⟩
  have haccepts : ch.status_ = .kAdded → p.kernel ch.fd_ ≠ none := by
    intro hadded
    rw [h.kernel, if_pos hadded]
    simp
  rw [removeChannel_eq hnone hknows]
  by_cases hadded : ch.status_ = .kAdded
  · rw [if_pos hadded, update_DEL]
    refine ⟨_, rfl, ⟨?_, ?_⟩, ?_, haccepts⟩
    · simp
    · simp [unmapped]
    · intro fd hfd
      exact ⟨Function.update_of_ne hfd _ _, Function.update_of_ne hfd _ _⟩
  · rw [if_neg hadded]
    refine ⟨_, rfl, ⟨?_, ?_⟩, ?_, haccepts⟩
    · simpa [unmapped, hadded] using h.kernel
    · simp [unmapped]
    · intro fd hfd
      exact ⟨rfl, Function.update_of_ne hfd _ _⟩

end Epoller

/-- One operation on a channel that the epoller holds. -/
theorem ChannelOp.run_spec {p : Epoller} {ch : Channel} (h : p.Holds ch) (op : ChannelOp)
    (hremove : op = .remove → ch.isNoneEvent = true ∧ ch.status_ ≠ .kNew) :
    ∃ p', op.run ch p = .ok (p', op.after ch) ∧ p'.Holds (op.after ch) ∧
      Epoller.Frame ch.fd_ p p' ∧ ∀ o, op.ctl ch = some o → p.Accepts ch o := by
  -- the four that change the mask are one call of `updateChannel`
  have hupdate : ∀ mask, (∃ p', p.updateChannel { ch with event_ := mask } =
        .ok (p', { ch with
          event_ := mask, status_ := Epoller.nextStatus { ch with event_ := mask } }) ∧
      p'.Holds { ch with
        event_ := mask, status_ := Epoller.nextStatus { ch with event_ := mask } } ∧
      Epoller.Frame ch.fd_ p p' ∧
      ∀ o, some (Epoller.ctl { ch with event_ := mask }) = some o → p.Accepts ch o) := by
    intro mask
    obtain ⟨p', hrun, hholds, hframe⟩ := h.updateChannel mask
    refine ⟨p', hrun, hholds, hframe, ?_⟩
    rintro o ⟨⟩
    exact h.accepts mask
  cases op with
  | enableReading => exact hupdate _
  | enableWriting => exact hupdate _
  | disableWriting => exact hupdate _
  | disableAll => exact hupdate _
  | remove =>
      obtain ⟨hnone, hold⟩ := hremove rfl
      obtain ⟨p', hrun, hholds, hframe, haccepts⟩ := h.removeChannel hnone hold
      refine ⟨p', hrun, hholds, hframe, fun o ho => ?_⟩
      simp only [ChannelOp.ctl] at ho
      split at ho
      · cases ho
        exact haccepts ‹_›
      · cases ho

/-- The channels of a loop, by their addresses, and its epoller. -/
structure Registrations where
  channel : ConnId → Channel
  epoller : Epoller := {}

namespace Registrations

/-- `remove` is for channels without interest that are registered. -/
def Enabled (w : Registrations) (live : Set ConnId) (l : ConnId × ChannelOp) : Prop :=
  l.1 ∈ live ∧ (l.2 = .remove →
    (w.channel l.1).isNoneEvent = true ∧ (w.channel l.1).status_ ≠ .kNew)

def step (w : Registrations) (l : ConnId × ChannelOp) : Except Fault Registrations := do
  let (epoller, channel) ← l.2.run (w.channel l.1) w.epoller
  return { epoller := epoller, channel := Function.update w.channel l.1 channel }

/-- New channels on their descriptors. -/
def init (fds : ConnId → Fd) : Registrations where
  channel := fun c => { self := c, fd_ := fds c }

end Registrations

/-- Operations on the channels of a set, in any order but for `remove`, which its
caller keeps for a registered channel without interest. -/
def registrations (live : Set ConnId) : System Registrations (ConnId × ChannelOp) Fault where
  enabled := fun w l => w.Enabled live l
  step := Registrations.step

namespace Registrations

variable {live : Set ConnId} {fds : ConnId → Fd} {w w' : Registrations}

/-- The three copies of every registration agree. -/
structure Agree (live : Set ConnId) (fds : ConnId → Fd) (w : Registrations) : Prop where
  self : ∀ c, (w.channel c).self = c
  fd : ∀ c, (w.channel c).fd_ = fds c
  holds : ∀ c ∈ live, w.epoller.Holds (w.channel c)

theorem agree_init (live : Set ConnId) (fds : ConnId → Fd) : Agree live fds (init fds) where
  self := fun _ => rfl
  fd := fun _ => rfl
  holds := fun _ _ => ⟨rfl, rfl⟩

/-- An operation returns, and leaves agreement. -/
theorem Agree.step (hfds : Set.InjOn fds live) (h : Agree live fds w) {l : ConnId × ChannelOp}
    (hen : w.Enabled live l) : ∃ w', w.step l = .ok w' ∧ Agree live fds w' := by
  obtain ⟨c, op⟩ := l
  obtain ⟨hc, hremove⟩ := hen
  obtain ⟨p', hrun, hholds, hframe, -⟩ := op.run_spec (h.holds c hc) hremove
  refine ⟨{ epoller := p', channel := Function.update w.channel c (op.after (w.channel c)) },
    ?_, ?_⟩
  · simp only [Registrations.step, hrun, ok_bind]
    rfl
  · refine ⟨?_, ?_, ?_⟩
    · intro d
      by_cases hd : d = c
      · subst hd
        simp only [Function.update_self, ChannelOp.after_self, h.self]
      · simp only [Function.update_of_ne hd, h.self]
    · intro d
      by_cases hd : d = c
      · subst hd
        simp only [Function.update_self, ChannelOp.after_fd, h.fd]
      · simp only [Function.update_of_ne hd, h.fd]
    · intro d hlive
      by_cases hd : d = c
      · subst hd
        simpa only [Function.update_self] using hholds
      · -- another channel has another descriptor
        have hne : (w.channel d).fd_ ≠ (w.channel c).fd_ := by
          rw [h.fd, h.fd]
          exact fun heq => hd (hfds hlive hc heq)
        simpa only [Function.update_of_ne hd] using (h.holds d hlive).of_frame hframe hne

end Registrations

/-- After any such operations on channels with distinct descriptors, the kernel's
set and `channelMap_` hold what the channels say; and the next operation
returns, its `epoll_ctl` accepted. -/
theorem registrations_agree (live : Set ConnId) (fds : ConnId → Fd) (hfds : Set.InjOn fds live)
    {ls : List (ConnId × ChannelOp)} {w : Registrations}
    (hrun : (registrations live).Run (.init fds) ls w) {c : ConnId} (hc : c ∈ live) :
    (w.epoller.kernel (fds c) = if (w.channel c).status_ = .kAdded
      then some ((w.channel c).event_, c) else none) ∧
    (w.epoller.channelMap_ (fds c) = if (w.channel c).status_ = .kNew then none else some c) ∧
    ∀ op, (registrations live).enabled w (c, op) →
      (∃ w', (registrations live).step w (c, op) = .ok w') ∧
      ∀ o, op.ctl (w.channel c) = some o → w.epoller.Accepts (w.channel c) o := by
  have h : Registrations.Agree live fds w := by
    refine hrun.invariant (Registrations.agree_init live fds) ?_
    intro s l s' hs hstep
    obtain ⟨t, ht, hagree⟩ := hs.step hfds hstep.1
    have heq : s.step l = .ok s' := hstep.2
    rw [ht] at heq
    cases heq
    exact hagree
  have hholds := h.holds c hc
  refine ⟨?_, ?_, ?_⟩
  · rw [← h.fd, hholds.kernel, h.self]
  · rw [← h.fd, hholds.map, h.self]
  · intro op hen
    refine ⟨(h.step hfds hen).imp fun _ hs => hs.1, ?_⟩
    obtain ⟨-, -, -, -, haccepts⟩ := op.run_spec hholds hen.2
    exact haccepts

/-- Two channels; the second `disableAll` of one registers it again, with an
empty mask. -/
theorem registrations_agree_two : ∃ w, (registrations {0, 1}).Run (.init (· + 5))
      [(0, .enableReading), (1, .enableWriting), (0, .disableAll), (0, .disableAll)] w ∧
    w.epoller.kernel 5 = some (Channel.kNoneEvent_, 0) ∧ w.epoller.channelMap_ 5 = some 0 ∧
    w.epoller.Accepts (w.channel 0) .DEL := by
  have hfds : Set.InjOn (fun c : ConnId => c + 5) {0, 1} := by
    intro a _ b _ h
    exact Nat.add_right_cancel h
  have hrun : ∃ w, (registrations {0, 1}).Run (.init (· + 5))
      [(0, .enableReading), (1, .enableWriting), (0, .disableAll), (0, .disableAll)] w ∧
      (w.channel 0).status_ = .kAdded ∧ (w.channel 0).event_ = Channel.kNoneEvent_ := by
    refine ⟨_, .cons ⟨⟨by simp, nofun⟩, rfl⟩ (.cons ⟨⟨by simp, nofun⟩, rfl⟩
      (.cons ⟨⟨by simp, nofun⟩, rfl⟩ (.cons ⟨⟨by simp, nofun⟩, rfl⟩ (.nil _)))), rfl, rfl⟩
  obtain ⟨w, hrun, hadded, hmask⟩ := hrun
  obtain ⟨hkernel, hmap, hnext⟩ := registrations_agree {0, 1} (· + 5) hfds hrun
    (c := 0) (by simp)
  rw [if_pos hadded, hmask] at hkernel
  rw [hadded] at hmap
  refine ⟨w, hrun, hkernel, hmap, ?_⟩
  have hremove := (hnext .remove ⟨by simp, fun _ => ⟨?_, ?_⟩⟩).2 .DEL
  · exact hremove (by simp [ChannelOp.ctl, hadded])
  · simp [Channel.isNoneEvent, hmask]
  · simp [hadded]

end Ham.Net
