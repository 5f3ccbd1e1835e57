import Ham.Base.Types

/-!
# `Channel` and `Epoller`

A channel is the interest an object has in its descriptor; the epoller keeps
`channelMap_` for its assertions and passes the interest on to the kernel's
epoll set. `updateChannel` and `removeChannel` are translated with every
assertion, and `epoll_ctl` with the failures that reach `CRITICAL`.

* `updateChannel_ok`, `removeChannel_ok` — what a call that returns has done;
* `removeChannel_total` — when `removeChannel` returns at all.
-/

namespace Ham.Net

abbrev Fd := Nat

/-- The address of a channel, and of the connection that owns it. -/
abbrev ConnId := Nat

/-- A mask of the epoll events the code looks at. -/
structure Events where
  epollin : Bool := false
  epollpri : Bool := false
  epollout : Bool := false
  epollerr : Bool := false
  epollhup : Bool := false
  epollrdhup : Bool := false
  deriving DecidableEq, Repr

namespace Channel

def kNoneEvent_ : Events := {}

inductive Status where
  | kNew | kAdded | kDismissed
  deriving DecidableEq, Repr

end Channel

/-- `Channel`, without its callbacks: for the channel of a connection they are
the connection's own handlers. `self` is its address. -/
structure Channel where
  self : ConnId
  fd_ : Fd
  event_ : Events := Channel.kNoneEvent_
  status_ : Channel.Status := .kNew
  deriving DecidableEq, Repr

namespace Channel

def isWriting (ch : Channel) : Bool := ch.event_.epollout

def isNoneEvent (ch : Channel) : Bool := ch.event_ = kNoneEvent_

end Channel

/-- `Epoller`: `channelMap_`, and the kernel's set with the mask and the
`data.ptr` of each descriptor. -/
structure Epoller where
  channelMap_ : Fd → Option ConnId := fun _ => none
  kernel : Fd → Option (Events × ConnId) := fun _ => none

inductive EpollOp where
  | ADD | MOD | DEL
  deriving DecidableEq, Repr

namespace Epoller

/-- `update(op, channel)`. `epoll_ctl` fails on an `ADD` of a descriptor in
the set and on a `MOD` or `DEL` of one that is not; a failed `DEL` is only
logged. -/
def update (p : Epoller) (op : EpollOp) (ch : Channel) : Except Fault Epoller :=
  let set := Function.update p.kernel ch.fd_ (some (ch.event_, ch.self))
  match op, p.kernel ch.fd_ with
  | .ADD, none => .ok { p with kernel := set }
  | .ADD, some _ => .error .critical
  | .MOD, some _ => .ok { p with kernel := set }
  | .MOD, none => .error .critical
  | .DEL, _ => .ok { p with kernel := Function.update p.kernel ch.fd_ none }

/-- `updateChannel`. A dismissed channel is added again, whatever its mask. -/
def updateChannel (p : Epoller) (ch : Channel) : Except Fault (Epoller × Channel) :=
  match ch.status_ with
  | .kNew => do
      assert (p.channelMap_ ch.fd_ = none) .updateChannelFresh
      let p := { p with channelMap_ := Function.update p.channelMap_ ch.fd_ (some ch.self) }
      let ch := { ch with status_ := .kAdded }
      return (← p.update .ADD ch, ch)
  | .kDismissed => do
      assert (p.channelMap_ ch.fd_ ≠ none) .updateChannelKnown
      assert (p.channelMap_ ch.fd_ = some ch.self) .updateChannelSame
      let ch := { ch with status_ := .kAdded }
      return (← p.update .ADD ch, ch)
  | .kAdded => do
      assert (p.channelMap_ ch.fd_ ≠ none) .updateChannelKnown
      assert (p.channelMap_ ch.fd_ = some ch.self) .updateChannelSame
      if ch.isNoneEvent then
        return (← p.update .DEL ch, { ch with status_ := .kDismissed })
      else
        return (← p.update .MOD ch, ch)

def removeChannel (p : Epoller) (ch : Channel) : Except Fault (Epoller × Channel) := do
  assert (ch.isNoneEvent) .removeChannelNoneEvent
  assert (p.channelMap_ ch.fd_ ≠ none) .removeChannelKnown
  assert (p.channelMap_ ch.fd_ = some ch.self) .removeChannelSame
  assert (ch.status_ = .kAdded ∨ ch.status_ = .kDismissed) .removeChannelStatus
  let p := { p with channelMap_ := Function.update p.channelMap_ ch.fd_ none }
  let p ← if ch.status_ = .kAdded then p.update .DEL ch else .ok p
  return (p, { ch with status_ := .kNew })

end Epoller

namespace Channel

/-- `kReadEvent_`, normal and urgent data, set in `event_`. -/
def setReading (ch : Channel) : Channel :=
  { ch with event_ := { ch.event_ with epollin := true, epollpri := true } }

def enableReading (ch : Channel) (p : Epoller) : Except Fault (Epoller × Channel) :=
  p.updateChannel ch.setReading

/-- `kWriteEvent_` set or cleared in `event_`. -/
def setWriting (ch : Channel) (on : Bool) : Channel :=
  { ch with event_ := { ch.event_ with epollout := on } }

def enableWriting (ch : Channel) (p : Epoller) : Except Fault (Epoller × Channel) :=
  p.updateChannel (ch.setWriting true)

def disableWriting (ch : Channel) (p : Epoller) : Except Fault (Epoller × Channel) :=
  p.updateChannel (ch.setWriting false)

/-- `event_ = kNoneEvent_`. -/
def setNone (ch : Channel) : Channel := { ch with event_ := kNoneEvent_ }

def disableAll (ch : Channel) (p : Epoller) : Except Fault (Epoller × Channel) :=
  p.updateChannel ch.setNone

end Channel

/-- The channel is known to the epoller under its descriptor. -/
def Epoller.Knows (p : Epoller) (ch : Channel) : Prop :=
  p.channelMap_ ch.fd_ = some ch.self ∧ ch.status_ ≠ .kNew

namespace Epoller

variable {p p' : Epoller} {ch ch' : Channel}

theorem update_DEL (p : Epoller) (ch : Channel) :
    p.update .DEL ch = .ok { p with kernel := Function.update p.kernel ch.fd_ none } := by
  unfold update
  split <;> simp_all

theorem update_ADD_ok (h : p.update .ADD ch = .ok p') :
    p' = { p with kernel := Function.update p.kernel ch.fd_ (some (ch.event_, ch.self)) } := by
  unfold update at h
  split at h <;> simp_all

theorem update_MOD_ok (h : p.update .MOD ch = .ok p') :
    p' = { p with kernel := Function.update p.kernel ch.fd_ (some (ch.event_, ch.self)) } := by
  unfold update at h
  split at h <;> simp_all

/-- The status `updateChannel` leaves. -/
def nextStatus (ch : Channel) : Channel.Status :=
  if ch.status_ = .kAdded ∧ ch.isNoneEvent then .kDismissed else .kAdded

/-- What `updateChannel` has done when it returns: the map holds the channel
under its descriptor, and nobody else was there; the kernel's set holds it
with its mask, unless it was dismissed. -/
theorem updateChannel_ok (h : p.updateChannel ch = .ok (p', ch')) :
    ch' = { ch with status_ := nextStatus ch } ∧
    p'.channelMap_ = Function.update p.channelMap_ ch.fd_ (some ch.self) ∧
    p'.kernel = Function.update p.kernel ch.fd_
      (if nextStatus ch = .kAdded then some (ch.event_, ch.self) else none) ∧
    (if ch.status_ = .kNew then p.channelMap_ ch.fd_ = none
      else p.channelMap_ ch.fd_ = some ch.self) := by
  obtain ⟨self, fd, event, status⟩ := ch
  cases status with
  | kNew =>
      simp only [updateChannel, bind_eq_ok, assert_eq_ok, pure_eq_ok, Except.ok.injEq,
        Prod.mk.injEq] at h
      obtain ⟨_, hfree, q, hq, rfl, rfl⟩ := h
      rw [update_ADD_ok hq]
      exact ⟨rfl, rfl, rfl, hfree⟩
  | kDismissed =>
      simp only [updateChannel, bind_eq_ok, assert_eq_ok, pure_eq_ok, Except.ok.injEq,
        Prod.mk.injEq] at h
      obtain ⟨_, -, _, hsame, q, hq, rfl, rfl⟩ := h
      rw [update_ADD_ok hq]
      exact ⟨rfl, by simp [← hsame], rfl, hsame⟩
  | kAdded =>
      simp only [updateChannel, bind_eq_ok, assert_eq_ok] at h
      obtain ⟨_, -, _, hsame, h⟩ := h
      split at h
      · rename_i hnone
        simp only [update_DEL, ok_bind, pure_eq_ok, Except.ok.injEq, Prod.mk.injEq] at h
        obtain ⟨rfl, rfl⟩ := h
        exact ⟨by simp [nextStatus, hnone], by simp [← hsame], by simp [nextStatus, hnone], hsame⟩
      · rename_i hsome
        simp only [bind_eq_ok, pure_eq_ok, Except.ok.injEq, Prod.mk.injEq] at h
        obtain ⟨q, hq, rfl, rfl⟩ := h
        rw [update_MOD_ok hq]
        exact ⟨by simp [nextStatus, hsome], by simp [← hsame], by simp [nextStatus, hsome], hsame⟩

/-- A channel in the kernel's set that keeps some interest is modified there. -/
theorem updateChannel_MOD (hadded : ch.status_ = .kAdded)
    (hknown : p.channelMap_ ch.fd_ = some ch.self) (hkernel : p.kernel ch.fd_ ≠ none)
    (hsome : ch.isNoneEvent = false) :
    p.updateChannel ch =
      .ok ({ p with
        kernel := Function.update p.kernel ch.fd_ (some (ch.event_, ch.self)) }, ch) := by
  obtain ⟨entry, hentry⟩ := Option.ne_none_iff_exists'.mp hkernel
  have hthere : p.channelMap_ ch.fd_ ≠ none := by simp [hknown]
  simp only [updateChannel, hadded, assert_pos hthere, assert_pos hknown, ok_bind, hsome,
    update, hentry]
  rfl

/-- What `removeChannel` needed and what it has done when it returns. -/
theorem removeChannel_ok (h : p.removeChannel ch = .ok (p', ch')) :
    (ch.isNoneEvent = true ∧ p.Knows ch) ∧ ch' = { ch with status_ := .kNew } ∧
    p'.channelMap_ = Function.update p.channelMap_ ch.fd_ none ∧
    p'.kernel = if ch.status_ = .kAdded then Function.update p.kernel ch.fd_ none
      else p.kernel := by
  simp only [removeChannel, bind_eq_ok, assert_eq_ok] at h
  obtain ⟨_, hnone, _, -, _, hsame, _, hstatus, h⟩ := h
  have hknows : p.Knows ch := ⟨hsame, by rcases hstatus with hs | hs <;> simp [hs]⟩
  refine ⟨⟨hnone, hknows⟩, ?_⟩
  split at h
  · rename_i hadded
    simp only [update_DEL, ok_bind, pure_eq_ok, Except.ok.injEq, Prod.mk.injEq] at h
    obtain ⟨rfl, rfl⟩ := h
    exact ⟨rfl, rfl, by simp [hadded]⟩
  · rename_i hadded
    simp only [ok_bind, pure_eq_ok, Except.ok.injEq, Prod.mk.injEq] at h
    obtain ⟨rfl, rfl⟩ := h
    exact ⟨rfl, rfl, by simp [hadded]⟩

/-- `removeChannel` returns for every known channel without interest. -/
theorem removeChannel_total (hnone : ch.isNoneEvent = true) (h : p.Knows ch) :
    ∃ q, p.removeChannel ch = .ok q := by
  obtain ⟨hsame, hnew⟩ := h
  have hstatus : ch.status_ = .kAdded ∨ ch.status_ = .kDismissed := by
    cases hs : ch.status_ with
    | kNew => exact absurd hs hnew
    | kAdded => exact .inl rfl
    | kDismissed => exact .inr rfl
  have hknown : p.channelMap_ ch.fd_ ≠ none := by simp [hsame]
  simp only [removeChannel, assert_pos hnone, assert_pos hknown, assert_pos hsame,
    assert_pos hstatus, ok_bind, update_DEL]
  split <;> exact ⟨_, rfl⟩

end Epoller

end Ham.Net
