import Ham.Net.Registration

/-!
# Polls

`Epoller::wait` asks the kernel for at most as many events as
`retEpoll_event_` has room for, and doubles the room when all of it is used.
`fillActiveChannels` trusts `data.ptr` and checks it against `channelMap_`.

* `Registrations.Closed` — the registrations agree, and the kernel's set holds
  channels of the loop only;
* `Polling.poll_ok` — a poll meets its assertions and makes the channels of the
  reported descriptors active, with the events of their own descriptors;
* `Polling.Sound` — the room has doubled once for each full poll;
* `wait_adapts` — over a whole run: no poll faults, the room stays within twice
  the channels, and only logarithmically many polls leave a channel out.
-/

namespace Ham.Net

open Ham.Lib

/-- `struct epoll_event`. -/
structure EpollEvent where
  events : Events := {}
  /-- `data.ptr`. -/
  data : Option ConnId := none
  deriving DecidableEq, Repr

/-- What the kernel reports of the events that are ready: those of the mask, and
errors and hang-ups in any case. -/
def Events.reported (ready mask : Events) : Events where
  epollin := ready.epollin && mask.epollin
  epollpri := ready.epollpri && mask.epollpri
  epollout := ready.epollout && mask.epollout
  epollerr := ready.epollerr
  epollhup := ready.epollhup
  epollrdhup := ready.epollrdhup && mask.epollrdhup

/-- The entry the kernel has for a descriptor with these events, if any. -/
def Epoller.entry (p : Epoller) (ready : Fd → Events) (fd : Fd) : Option EpollEvent :=
  match p.kernel fd with
  | none => none
  | some (mask, c) =>
      if (ready fd).reported mask = {} then none
      else some { events := (ready fd).reported mask, data := some c }

/-- What a call of `epoll_wait` was offered, and how many descriptors were due. -/
structure Poll where
  maxevents : Nat
  due : Nat
  deriving DecidableEq, Repr

namespace Poll

/-- All the room is used. -/
def full (p : Poll) : Bool := p.maxevents ≤ p.due

/-- Some descriptor that was due is not reported. -/
def short (p : Poll) : Bool := p.maxevents < p.due

end Poll

/-- The channels of a loop with the part of `Epoller` and `EventLoop` that polls.
`polls` is the history, which the code does not keep. -/
structure Polling where
  registrations : Registrations
  retEpoll_event_ : List EpollEvent
  revent_ : ConnId → Events := fun _ => {}
  activeChannels_ : List ConnId := []
  polls : List Poll := []

/-- What stops a poll. -/
inductive PollFault where
  /-- `numOfEvents <= retEpoll_event_.size()`. -/
  | room
  | nullPointer
  /-- `it != channelMap_.end()`. -/
  | channelKnown
  /-- `it->second == channel`. -/
  | channelSame
  | registration (f : Fault)
  deriving DecidableEq, Repr

inductive PollLabel where
  /-- An operation on a channel, in a handler or a functor. -/
  | channel (l : ConnId × ChannelOp)
  /-- `epoll_wait` returns: the events on each descriptor, and the descriptors
  that are due in the order in which the kernel has them. -/
  | poll (ready : Fd → Events) (due : List Fd)
  /-- `epoll_wait` fails, as it does on a signal. -/
  | pollFailed

namespace Polling

def kInitEventListSize : Nat := 16

/-- One turn of the loop in `fillActiveChannels`. -/
def activate (w : Polling) (event : EpollEvent) : Except PollFault Polling :=
  match event.data with
  | none => .error .nullPointer
  | some channel =>
      let fd := (w.registrations.channel channel).fd_
      match w.registrations.epoller.channelMap_ fd with
      | none => .error .channelKnown
      | some known =>
          if known = channel then
            .ok { w with
              revent_ := Function.update w.revent_ channel event.events
              activeChannels_ := w.activeChannels_ ++ [channel] }
          else .error .channelSame

def fillActiveChannels (w : Polling) (numOfEvents : Nat) : Except PollFault Polling :=
  if numOfEvents ≤ w.retEpoll_event_.length then
    (w.retEpoll_event_.take numOfEvents).foldlM activate w
  else .error .room

/-- `resize(size() * 2)`. -/
def doubled (w : Polling) : Polling :=
  { w with retEpoll_event_ := w.retEpoll_event_ ++ List.replicate w.retEpoll_event_.length {} }

/-- What `epoll_wait` writes. -/
def reports (w : Polling) (ready : Fd → Events) (due : List Fd) : List EpollEvent :=
  (due.take w.retEpoll_event_.length).filterMap (w.registrations.epoller.entry ready)

/-- `epoll_wait` has written its entries over the first of the vector. -/
def received (w : Polling) (events : List EpollEvent) : Polling :=
  { w with retEpoll_event_ := events ++ w.retEpoll_event_.drop events.length }

def wait (w : Polling) (ready : Fd → Events) (due : List Fd) : Except PollFault Polling := do
  let events := w.reports ready due
  let w := w.received events
  if 0 < events.length then
    let w ← w.fillActiveChannels events.length
    if events.length = w.retEpoll_event_.length then return w.doubled else return w
  else return w

/-- `activeChannels_.clear()`. -/
def cleared (w : Polling) : Polling := { w with activeChannels_ := [] }

/-- The history, with the poll that is about to be made. -/
def observed (w : Polling) (due : List Fd) : Polling :=
  { w with polls := w.polls ++ [⟨w.retEpoll_event_.length, due.length⟩] }

def step (w : Polling) : PollLabel → Except PollFault Polling
  | .channel l =>
      match w.registrations.step l with
      | .ok registrations => .ok { w with registrations }
      | .error f => .error (.registration f)
  | .poll ready due => (w.observed due).cleared.wait ready due
  | .pollFailed => .ok w.cleared

/-- The kernel knows which descriptors are due, and has each of them once. -/
def Enabled (w : Polling) (live : Set ConnId) : PollLabel → Prop
  | .channel l => w.registrations.Enabled live l
  | .poll ready due =>
      due.Nodup ∧ ∀ fd, fd ∈ due ↔ w.registrations.epoller.entry ready fd ≠ none
  | .pollFailed => True

def init (fds : ConnId → Fd) : Polling where
  registrations := .init fds
  retEpoll_event_ := List.replicate kInitEventListSize {}

end Polling

/-- Operations on the channels of a loop as in `registrations`, and polls, in any
order. -/
def polling (live : Set ConnId) : System Polling PollLabel PollFault where
  enabled := fun w l => w.Enabled live l
  step := Polling.step

namespace Registrations

variable {live : Finset ConnId} {fds : ConnId → Fd} {r r' : Registrations}

/-- The registrations agree, and the kernel's set holds channels of the loop
only. -/
structure Closed (live : Finset ConnId) (fds : ConnId → Fd) (r : Registrations) : Prop
    extends Agree live fds r where
  owned : ∀ fd, r.epoller.kernel fd ≠ none → ∃ c ∈ live, fds c = fd

theorem closed_init (live : Finset ConnId) (fds : ConnId → Fd) : Closed live fds (init fds) where
  toAgree := agree_init live fds
  owned := fun _ h => absurd rfl h

/-- An operation returns, and adds no stranger to the kernel's set. -/
theorem Closed.step (hfds : Set.InjOn fds live) (h : Closed live fds r) {l : ConnId × ChannelOp}
    (hen : r.Enabled live l) : ∃ r', r.step l = .ok r' ∧ Closed live fds r' := by
  obtain ⟨r', hstep, hagree⟩ := h.toAgree.step hfds hen
  refine ⟨r', hstep, hagree, fun fd hfd => ?_⟩
  obtain ⟨c, op⟩ := l
  obtain ⟨hc, hremove⟩ := hen
  obtain ⟨p', hop, -, hframe, -⟩ := op.run_spec (h.holds c hc) hremove
  simp only [Registrations.step, hop, ok_bind, pure_eq_ok, Except.ok.injEq] at hstep
  subst hstep
  by_cases hsame : fd = (r.channel c).fd_
  · exact ⟨c, hc, (h.fd c).symm.trans hsame.symm⟩
  · refine h.owned fd ?_
    rw [← (hframe fd hsame).1]
    exact hfd

/-- An entry the kernel reports is that of a registered channel. -/
theorem Closed.entry (h : Closed live fds r) {ready : Fd → Events} {fd : Fd} {e : EpollEvent}
    (he : r.epoller.entry ready fd = some e) :
    ∃ c ∈ live, fds c = fd ∧ (r.channel c).status_ = .kAdded ∧ e.data = some c ∧
      e.events = (ready fd).reported (r.channel c).event_ ∧ e.events ≠ {} := by
  unfold Epoller.entry at he
  split at he
  · cases he
  · rename_i mask d hkernel
    obtain ⟨c, hc, rfl⟩ := h.owned fd (by simp [hkernel])
    have hholds := (h.holds c hc).kernel
    rw [h.fd, hkernel, h.self] at hholds
    split at hholds
    · rename_i hadded
      simp only [Option.some.injEq, Prod.mk.injEq] at hholds
      obtain ⟨rfl, rfl⟩ := hholds
      split at he
      · cases he
      · rename_i hsome
        cases he
        exact ⟨d, hc, rfl, hadded, rfl, rfl, hsome⟩
    · cases hholds

/-- Descriptors that are due belong to different channels. -/
theorem Closed.due_le (h : Closed live fds r) {ready : Fd → Events} {due : List Fd}
    (hnodup : due.Nodup) (hdue : ∀ fd ∈ due, r.epoller.entry ready fd ≠ none) :
    due.length ≤ live.card := by
  have hsub : due.toFinset ⊆ live.image fds := by
    intro fd hfd
    obtain ⟨e, he⟩ := Option.ne_none_iff_exists'.mp (hdue fd (List.mem_toFinset.mp hfd))
    obtain ⟨c, hc, hcfd, -⟩ := h.entry he
    exact Finset.mem_image.mpr ⟨c, hc, hcfd⟩
  calc due.length = due.toFinset.card := (List.toFinset_card_of_nodup hnodup).symm
    _ ≤ (live.image fds).card := Finset.card_le_card hsub
    _ ≤ live.card := Finset.card_image_le

end Registrations

namespace Polling

variable {live : Finset ConnId} {fds : ConnId → Fd} {w w' : Polling} {ready : Fd → Events}
  {due : List Fd}

/-! ## One poll -/

/-- The channels of these descriptors are active behind those that were, each
with the events of its own descriptor; nothing else has changed. -/
structure Activated (live : Finset ConnId) (fds : ConnId → Fd) (ready : Fd → Events)
    (reported : List Fd) (w w' : Polling) : Prop where
  registrations : w'.registrations = w.registrations
  active : ∃ cs, w'.activeChannels_ = w.activeChannels_ ++ cs ∧ cs.map fds = reported ∧
    ∀ c ∈ cs, c ∈ live ∧ (w.registrations.channel c).status_ = .kAdded ∧
      w'.revent_ c = (ready (fds c)).reported (w.registrations.channel c).event_ ∧
      w'.revent_ c ≠ {}
  idle : ∀ c ∈ live, fds c ∉ reported → w'.revent_ c = w.revent_ c
  polls : w'.polls = w.polls

/-- The loop of `fillActiveChannels`, over what the kernel has reported. -/
theorem activate_all (hclosed : w.registrations.Closed live fds) {reported : List Fd}
    (hdue : ∀ fd ∈ reported, w.registrations.epoller.entry ready fd ≠ none)
    (hnodup : reported.Nodup) :
    ∃ w', (reported.filterMap (w.registrations.epoller.entry ready)).foldlM activate w = .ok w' ∧
      Activated live fds ready reported w w' ∧ w'.retEpoll_event_ = w.retEpoll_event_ := by
  induction reported generalizing w with
  | nil => exact ⟨w, rfl, ⟨rfl, ⟨[], by simp⟩, fun _ _ _ => rfl, rfl⟩, rfl⟩
  | cons fd reported ih =>
      obtain ⟨hfd, hrest⟩ := List.forall_mem_cons.mp hdue
      obtain ⟨hnotin, htail⟩ := List.nodup_cons.mp hnodup
      obtain ⟨e, he⟩ := Option.ne_none_iff_exists'.mp hfd
      obtain ⟨c, hc, rfl, hadded, hdata, hevents, hsome⟩ := hclosed.entry he
      -- the channel is found under its own descriptor
      have hknown : w.registrations.epoller.channelMap_ (w.registrations.channel c).fd_ =
          some c := by
        rw [(hclosed.holds c hc).map, hadded, hclosed.self]
        rfl
      have hone : activate w e = .ok { w with
          revent_ := Function.update w.revent_ c e.events
          activeChannels_ := w.activeChannels_ ++ [c] } := by
        simp only [activate, hdata, hknown, if_true]
      obtain ⟨w', hfold, hact, hvector⟩ := ih (w := { w with
        revent_ := Function.update w.revent_ c e.events
        activeChannels_ := w.activeChannels_ ++ [c] }) hclosed hrest htail
      obtain ⟨cs, hactive, hcs, hall⟩ := hact.active
      refine ⟨w', ?_, ⟨hact.registrations, ⟨c :: cs, ?_, by rw [List.map_cons, hcs], ?_⟩, ?_,
        hact.polls⟩, hvector⟩
      · rw [List.filterMap_cons_some he, List.foldlM_cons, hone]
        exact hfold
      · rw [hactive, List.append_assoc]
        rfl
      · refine List.forall_mem_cons.mpr ⟨⟨hc, hadded, ?_⟩, hall⟩
        rw [hact.idle c hc hnotin]
        simp only [Function.update_self]
        exact ⟨hevents, hsome⟩
      · intro d hd hdnot
        rw [List.mem_cons, not_or] at hdnot
        rw [hact.idle d hd hdnot.2]
        exact Function.update_of_ne (fun heq => hdnot.1 (congrArg fds heq)) _ _

/-- `wait`, when `epoll_wait` returns: the reported descriptors are the first of
those that are due, as many as there is room for. -/
theorem wait_ok (hclosed : w.registrations.Closed live fds) (hnodup : due.Nodup)
    (hdue : ∀ fd ∈ due, w.registrations.epoller.entry ready fd ≠ none) :
    ∃ w', w.wait ready due = .ok w' ∧
      Activated live fds ready (due.take w.retEpoll_event_.length) w w' ∧
      w'.retEpoll_event_.length = if w.retEpoll_event_.length ≤ due.length
        then 2 * w.retEpoll_event_.length else w.retEpoll_event_.length := by
  have htaken : ∀ fd ∈ due.take w.retEpoll_event_.length,
      w.registrations.epoller.entry ready fd ≠ none :=
    fun fd hfd => hdue fd (List.mem_of_mem_take hfd)
  have hcount : (w.reports ready due).length = min w.retEpoll_event_.length due.length := by
    rw [reports, List.filterMap_length_eq_length.mpr, List.length_take]
    exact fun fd hfd => Option.isSome_iff_ne_none.mpr (htaken fd hfd)
  have hroom : (w.received (w.reports ready due)).retEpoll_event_.length =
      w.retEpoll_event_.length := by
    simp only [received, List.length_append, List.length_drop, hcount]
    omega
  obtain ⟨w', hfold, hact, hvector⟩ := activate_all (w := w.received (w.reports ready due))
    hclosed htaken (hnodup.sublist (List.take_sublist _ _))
  have hact : Activated live fds ready (due.take w.retEpoll_event_.length) w w' := { hact with }
  have hlength : w'.retEpoll_event_.length = w.retEpoll_event_.length := by rw [hvector, hroom]
  have hfill : (w.received (w.reports ready due)).fillActiveChannels (w.reports ready due).length =
      .ok w' := by
    rw [fillActiveChannels, if_pos (by rw [hroom, hcount]; exact Nat.min_le_left _ _)]
    have htake : (w.received (w.reports ready due)).retEpoll_event_.take
        (w.reports ready due).length = w.reports ready due := List.take_left
    rw [htake]
    exact hfold
  simp only [wait, hfill, ok_bind]
  by_cases hsome : 0 < (w.reports ready due).length
  · rw [if_pos hsome, hlength]
    by_cases hfull : w.retEpoll_event_.length ≤ due.length
    · rw [if_pos (by rw [hcount, Nat.min_eq_left hfull]), if_pos hfull]
      refine ⟨w'.doubled, rfl, { hact with }, ?_⟩
      simp only [doubled, List.length_append, List.length_replicate, hlength]
      omega
    · rw [if_neg (by omega), if_neg hfull]
      exact ⟨w', rfl, hact, hlength⟩
  · -- the timeout: nothing is due, and `fillActiveChannels` is not called
    rw [if_neg hsome]
    have hnil : w.reports ready due = [] := List.eq_nil_of_length_eq_zero (by omega)
    have hsame : w.received (w.reports ready due) = w' := by
      change (w.reports ready due).foldlM activate _ = _ at hfold
      rw [hnil] at hfold ⊢
      cases hfold
      rfl
    rw [hsame]
    refine ⟨w', rfl, hact, hlength.trans ?_⟩
    split
    · omega
    · rfl

/-! ## Over a run -/

/-- How often all the room was used. -/
def full (w : Polling) : Nat := w.polls.countP Poll.full

/-- How often a descriptor that was due was left out. -/
def short (w : Polling) : Nat := w.polls.countP Poll.short

/-- A poll that leaves something out has used all its room. -/
theorem short_le_full (w : Polling) : w.short ≤ w.full := by
  refine List.countP_mono_left fun p _ hshort => ?_
  simp only [Poll.short, Poll.full, decide_eq_true_eq] at hshort ⊢
  exact hshort.le

/-- The room has doubled once for each full poll, never beyond twice the
channels; and each poll that left something out found more channels due than
all the room before it. -/
structure Sound (live : Finset ConnId) (fds : ConnId → Fd) (w : Polling) : Prop where
  closed : w.registrations.Closed live fds
  size : w.retEpoll_event_.length = kInitEventListSize * 2 ^ w.full
  room : w.retEpoll_event_.length ≤ max kInitEventListSize (2 * live.card)
  short : ∀ k, w.short = k + 1 → kInitEventListSize * 2 ^ k < live.card

theorem sound_init (live : Finset ConnId) (fds : ConnId → Fd) : Sound live fds (init fds) where
  closed := Registrations.closed_init live fds
  size := by simp [init, full]
  room := by simp [init]
  short := fun _ h => absurd h (by simp [init, short])

theorem poll_ok (h : Sound live fds w) (hen : (polling live).enabled w (.poll ready due)) :
    ∃ w', w.step (.poll ready due) = .ok w' ∧ Sound live fds w' ∧
      Activated live fds ready (due.take w.retEpoll_event_.length) (w.observed due).cleared w' := by
  obtain ⟨hnodup, hmem⟩ := hen
  have hdue := fun fd hfd => (hmem fd).mp hfd
  obtain ⟨w', hwait, hact, hlength⟩ := wait_ok (w := (w.observed due).cleared) h.closed hnodup hdue
  have hcard := h.closed.due_le hnodup hdue
  have hsize := h.size
  have hlength : w'.retEpoll_event_.length = if w.retEpoll_event_.length ≤ due.length
      then 2 * w.retEpoll_event_.length else w.retEpoll_event_.length := hlength
  have hfull : w'.full = w.full + if w.retEpoll_event_.length ≤ due.length then 1 else 0 := by
    simp [full, hact.polls, cleared, observed, Poll.full, List.countP_append, List.countP_cons]
  have hshort : w'.short = w.short + if w.retEpoll_event_.length < due.length then 1 else 0 := by
    simp [short, hact.polls, cleared, observed, Poll.short, List.countP_append, List.countP_cons]
  refine ⟨w', hwait, ⟨?_, ?_, ?_, ?_⟩, hact⟩
  · rw [hact.registrations]
    exact h.closed
  · rw [hlength, hfull]
    split
    · rw [hsize, pow_succ]
      ring
    · rw [hsize, Nat.add_zero]
  · have hroom := h.room
    rw [hlength]
    split
    · exact le_max_of_le_right (by omega)
    · exact hroom
  · intro k hk
    rw [hshort] at hk
    split at hk
    · rename_i hleft
      -- the polls that left something out before this one were full
      have hpow : 2 ^ k ≤ 2 ^ w.full :=
        Nat.pow_le_pow_right (by decide) (by have := w.short_le_full; omega)
      have hroom : kInitEventListSize * 2 ^ k ≤ kInitEventListSize * 2 ^ w.full :=
        Nat.mul_le_mul_left _ hpow
      omega
    · exact h.short k hk

theorem Sound.step (hfds : Set.InjOn fds live) (h : Sound live fds w) {l : PollLabel}
    (hen : (polling live).enabled w l) : ∃ w', w.step l = .ok w' ∧ Sound live fds w' := by
  cases l with
  | channel l =>
      obtain ⟨r, hr, hclosed⟩ := h.closed.step hfds hen
      exact ⟨{ w with registrations := r }, by simp only [Polling.step, hr],
        { h with closed := hclosed }⟩
  | poll ready due =>
      obtain ⟨w', hstep, hsound, -⟩ := poll_ok h hen
      exact ⟨w', hstep, hsound⟩
  | pollFailed => exact ⟨w.cleared, rfl, { h with }⟩

end Polling

/-- Over any operations of `registrations` and any polls between them: nothing
faults; a poll makes active the channels of as many due descriptors as
it has room for, each once, with events of its own that it asked for; the room
is never more than twice the number of channels; and if `k + 1` polls have left
a due descriptor out, there are more than `16 * 2 ^ k` channels. -/
theorem wait_adapts (live : Finset ConnId) (fds : ConnId → Fd) (hfds : Set.InjOn fds live)
    {ls : List PollLabel} {w : Polling} (hrun : (polling live).Run (.init fds) ls w) :
    (∀ l, (polling live).enabled w l → ∃ w', (polling live).step w l = .ok w') ∧
    (∀ ready due w', (polling live).Step w (.poll ready due) w' →
      w'.activeChannels_.map fds = due.take w.retEpoll_event_.length ∧
      (∀ c ∈ w'.activeChannels_, c ∈ live ∧ (w.registrations.channel c).status_ = .kAdded ∧
        w'.revent_ c = (ready (fds c)).reported (w.registrations.channel c).event_ ∧
        w'.revent_ c ≠ {}) ∧
      ∀ c ∈ live, c ∉ w'.activeChannels_ → w'.revent_ c = w.revent_ c) ∧
    w.retEpoll_event_.length ≤ max Polling.kInitEventListSize (2 * live.card) ∧
    ∀ k, w.short = k + 1 → Polling.kInitEventListSize * 2 ^ k < live.card := by
  have h : Polling.Sound live fds w := by
    refine hrun.invariant (Polling.sound_init live fds) ?_
    rintro s l s' hs ⟨hen, hst⟩
    obtain ⟨t, ht, hsound⟩ := hs.step hfds hen
    cases ht.symm.trans hst
    exact hsound
  refine ⟨fun l hen => (h.step hfds hen).imp fun _ hs => hs.1, ?_, h.room, h.short⟩
  rintro ready due w' ⟨hen, hst⟩
  obtain ⟨t, ht, -, hact⟩ := Polling.poll_ok h hen
  cases ht.symm.trans hst
  obtain ⟨cs, hactive, hcs, hall⟩ := hact.active
  have hactive : w'.activeChannels_ = cs := hactive
  rw [hactive]
  refine ⟨hcs, hall, fun c hc hnot => hact.idle c hc fun hmem => hnot ?_⟩
  rw [← hcs] at hmem
  obtain ⟨d, hd, heq⟩ := List.mem_map.mp hmem
  exact hfds (hall d hd).1 hc heq ▸ hd

/-- One channel reads, the other writes, and both descriptors are ready for
both. -/
theorem wait_adapts_two : ∃ w w', (polling ({0, 1} : Finset ConnId)).Run (.init (· + 5))
      [.channel (0, .enableReading), .channel (1, .enableWriting)] w ∧
    (polling ({0, 1} : Finset ConnId)).Step w
      (.poll (fun _ => { epollin := true, epollout := true }) [6, 5]) w' ∧
    w'.activeChannels_.map (· + 5) = [6, 5] ∧
    ∀ c ∈ w'.activeChannels_, w'.revent_ c ≠ {} := by
  have hfds : Set.InjOn (fun c : ConnId => c + 5) ({0, 1} : Finset ConnId) := by
    intro a _ b _ h
    exact Nat.add_right_cancel h
  have hrun : ∃ w w', (polling ({0, 1} : Finset ConnId)).Run (.init (· + 5))
      [.channel (0, .enableReading), .channel (1, .enableWriting)] w ∧
      w.retEpoll_event_.length = 16 ∧
      (polling ({0, 1} : Finset ConnId)).Step w
        (.poll (fun _ => { epollin := true, epollout := true }) [6, 5]) w' := by
    refine ⟨_, _, .cons ⟨⟨by simp, nofun⟩, rfl⟩ (.cons ⟨⟨by simp, nofun⟩, rfl⟩ (.nil _)), rfl,
      ⟨by decide, fun fd => ?_⟩, rfl⟩
    by_cases h6 : fd = 6
    · subst h6
      decide
    · by_cases h5 : fd = 5
      · subst h5
        decide
      · -- nothing else was ever added to the set
        have hnone : ∀ p : Epoller, p.kernel fd = none → p.entry (fun _ =>
            { epollin := true, epollout := true }) fd = none := by
          intro p hp
          simp only [Epoller.entry, hp]
        refine iff_of_false (by simp [h6, h5]) (fun h => h (hnone _ ?_))
        exact (Function.update_of_ne h6 _ _).trans (Function.update_of_ne h5 _ _)
  obtain ⟨w, w', hrun, hroom, hst⟩ := hrun
  obtain ⟨-, hpoll, -⟩ := wait_adapts {0, 1} (· + 5) hfds hrun
  obtain ⟨hactive, hevents, -⟩ := hpoll _ _ _ hst
  refine ⟨w, w', hrun, hst, ?_, fun c hc => (hevents c hc).2.2.2⟩
  rw [hactive, hroom]
  rfl

end Ham.Net
