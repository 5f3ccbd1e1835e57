import Ham.Net.ThreadLifetime

/-!
# Handing over a loop, and ending it

`startLoop` gets out of its `wait` if and only if the owner gets to look at
`loop_` while it is set: a loop that is told to quit early (by `initCallback_`, say) can be over
before that, and then nobody is left to notify the owner. While nobody quits
the loop, `startLoop` returns it.

`~EventLoopThread` gets to its end if and only if each of its accesses is in
time (`InTime`): the test and the load of `loop_` ahead of `loop_ = nullptr`,
the store to `quit_` and the `write` of `wakeup` ahead of `~EventLoop`. When
nobody else quits the loop only the `write` can come too late: the loop may see
the store, leave `loop()` and be destroyed before it.
-/

namespace Ham.Net

open Ham.Lib

variable {Tid F : Type}

/-- Where the owner stands between `startLoop` and the end of the destructor. -/
def OwnerStage.left : OwnerStage → Nat
  | .started => 5
  | .destructing => 4
  | .calling => 3
  | .quitting => 2
  | .joining => 1
  | _ => 0

/-- A call of `EventLoop::quit`. -/
def EventLoopThreadLabel.quits : EventLoopThreadLabel Tid F → Prop
  | .storeQuit | .queue (.quit _) => True
  | _ => False

namespace EventLoopThread

variable {w w' : EventLoopThread Tid F} {l : EventLoopThreadLabel Tid F}

theorem Lived.past_rank (h : Lived w) (howner : 0 < OwnerStage.left w.owner) :
    4 ≤ w.thread.rank := by
  have hpast : w.owner.past = true := by
    cases ho : w.owner <;> simp [ho, OwnerStage.left, OwnerStage.past] at howner ⊢
  have hthread := h.thread_ne (by rintro ho; simp [ho, OwnerStage.left] at howner)
    (by rintro ho; simp [ho, OwnerStage.left] at howner)
  obtain ⟨p, hp⟩ := Option.isSome_iff_exists.mp (h.result hpast hthread)
  cases p with
  | true => exact h.returned hp
  | false => exact le_trans (by decide) (h.null hp)

/-- The destructor comes in time: its next access of the loop is ahead of what
`threadFunc` does at its end. -/
def InTime (w : EventLoopThread Tid F) : Prop :=
  match w.owner with
  | .started | .destructing => w.loop_ = true
  | .calling | .quitting => w.thread ≠ .finished
  | _ => True

/-- A destructor that comes too late: the pointer is null already, or the
object gone. -/
def Late (w : EventLoopThread Tid F) : Prop :=
  (w.owner = .started ∨ w.owner = .destructing) ∧ 6 ≤ w.thread.rank ∨
  (w.owner = .calling ∨ w.owner = .quitting) ∧ w.thread = .finished

theorem Lived.late (h : Lived w) (howner : 0 < OwnerStage.left w.owner) (hin : ¬ w.InTime) :
    w.Late := by
  have hrank := h.past_rank howner
  have hcleared : w.loop_ ≠ true → 6 ≤ w.thread.rank := by
    intro hset
    have hno := mt h.pointer.mpr hset
    omega
  cases ho : w.owner with
  | started => exact .inl ⟨.inl ho, hcleared (by simpa [InTime, ho] using hin)⟩
  | destructing => exact .inl ⟨.inr ho, hcleared (by simpa [InTime, ho] using hin)⟩
  | calling => exact .inr ⟨.inl ho, by simpa [InTime, ho] using hin⟩
  | quitting => exact .inr ⟨.inr ho, by simpa [InTime, ho] using hin⟩
  | joining => simp [InTime, ho] at hin
  | _ => simp [ho, OwnerStage.left] at howner

/-- A step of the owner or of the loop's thread. That a waiting owner wakes up
un-notified is neither's doing. -/
def Own (w : EventLoopThread Tid F) (l : EventLoopThreadLabel Tid F) : Prop :=
  l ≠ .spuriousWakeup ∧ ∀ q, l = .queue q →
    q.thread w.loop.threadId_ = w.loop.threadId_ ∨ q.thread w.loop.threadId_ = w.ownerId

theorem own_of_ne (hwakeup : l ≠ .spuriousWakeup) (hl : ∀ q, l ≠ .queue q) : w.Own l :=
  ⟨hwakeup, fun q hq => absurd hq (hl q)⟩

theorem own_queue {q : QueueLabel Tid F}
    (h : q.thread w.loop.threadId_ = w.loop.threadId_ ∨ q.thread w.loop.threadId_ = w.ownerId) :
    w.Own (.queue q) := by
  refine ⟨by simp, ?_⟩
  rintro q ⟨⟩
  exact h

variable [DecidableEq Tid]

/-- `threadFunc` does not go back. -/
theorem step_rank (h : Lived w) (hen : w.Enabled l) (hw : w.step l = .ok w') :
    w.thread.rank ≤ w'.thread.rank := by
  cases l with
  | startLoop =>
      have hnone := h.unstarted hen
      cases hw
      simp [hnone, ThreadStage.rank]
  | construct =>
      have hthread : w.thread = .created := hen
      cases hw
      simp [hthread, ThreadStage.rank]
  | endInit =>
      cases hw
      simp [hen.1, ThreadStage.rank]
  | publish =>
      have hthread : w.thread = .publishing := hen
      cases hw
      simp [hthread, ThreadStage.rank]
  | enterLoop =>
      cases hw
      simp [hen.1, ThreadStage.rank]
  | clear =>
      cases hw
      simp [hen.1, ThreadStage.rank]
  | destructLoop =>
      have hthread : w.thread = .cleared := hen
      simp only [EventLoopThread.step] at hw
      split at hw <;> cases hw
      simp [hthread, ThreadStage.rank]
  | lock | spuriousWakeup | returnLoop | join =>
      cases hw
      exact le_rfl
  | queue l =>
      simp only [EventLoopThread.step] at hw
      split at hw <;> cases hw
      exact le_rfl
  | loadLoop | storeQuit | wakeup =>
      simp only [EventLoopThread.step] at hw
      split at hw <;> cases hw
      exact le_rfl
  | testLoop =>
      simp only [EventLoopThread.step] at hw
      split at hw
      · cases hw
        exact le_rfl
      · split at hw <;> cases hw
        exact le_rfl

/-! ## `startLoop` -/

/-- The owner is in `startLoop`. -/
def InStartLoop (w : EventLoopThread Tid F) : Prop :=
  (∃ gate, w.owner = .starting gate) ∨ w.owner = .reading

/-- `startLoop` has returned the loop. -/
def Returned (w : EventLoopThread Tid F) : Prop := w.owner = .started ∧ w.result = some true

/-- How many steps the two threads are from the end of `startLoop`. -/
def distance (w : EventLoopThread Tid F) : Nat :=
  8 * (4 - w.thread.rank) + w.loop.effort +
    match w.owner with
    | .starting _ => 2
    | .reading => 1
    | _ => 0

theorem startLoop_progress (h : Lived w) (hrank : w.thread.rank < 6) (howner : w.InStartLoop) :
    ∃ l w', (eventLoopThread.restrict fun w l => w.Own l ∧ ¬ l.quits).Step w l w' ∧
      (Lived w' ∧ w'.thread.rank < 6 ∧ (w'.Returned ∨ w'.InStartLoop)) ∧
      w'.distance < w.distance := by
  suffices hgo : ∃ l w', w.Enabled l ∧ w.step l = .ok w' ∧ (w.Own l ∧ ¬ l.quits) ∧
      w'.thread.rank < 6 ∧ (w'.Returned ∨ w'.InStartLoop) ∧ w'.distance < w.distance by
    obtain ⟨l, w', hen, hw, hl, hr, ho, hlt⟩ := hgo
    exact ⟨l, w', System.restrict_step.mpr ⟨⟨hen, hw⟩, hl⟩, ⟨h.step hen hw, hr, ho⟩, hlt⟩
  have hown : ∀ l : EventLoopThreadLabel Tid F, l ≠ .spuriousWakeup → (∀ q, l ≠ .queue q) →
      ¬ l.quits → w.Own l ∧ ¬ l.quits :=
    fun l hwakeup hl hquits => ⟨own_of_ne hwakeup hl, hquits⟩
  by_cases hr : w.thread.rank = 4 ∨ w.thread.rank = 5
  · -- the pointer is set, and the owner has only to look
    have hloop := h.pointer.mpr hr
    rcases howner with ⟨gate, howner⟩ | howner
    · have hgate : gate ≠ .waiting := by
        rintro rfl
        exact h.notified hloop howner
      refine ⟨.lock, _, ⟨gate, howner, hgate⟩, rfl, hown _ (by simp) (by simp) id, hrank,
        .inr (.inr (by simp [hloop])), ?_⟩
      simp [distance, hloop, howner]
    · refine ⟨.returnLoop, _, howner, rfl, hown _ (by simp) (by simp) id, hrank,
        .inl ⟨rfl, by simp [hloop]⟩, ?_⟩
      simp [distance, howner]
  cases hthread : w.thread with
  | none =>
      rcases h.started hthread with hc | hc <;> rcases howner with ⟨gate, ho⟩ | ho <;>
        simp [hc] at ho
  | created =>
      refine ⟨.construct, _, hthread, rfl, hown _ (by simp) (by simp) id,
        by simp [ThreadStage.rank], .inr howner, ?_⟩
      simp [distance, hthread, ThreadStage.rank]
  | initCallback =>
      by_cases hfree : w.loop.Free
      · refine ⟨.endInit, _, ⟨hthread, hfree⟩, rfl, hown _ (by simp) (by simp) id,
          by simp [ThreadStage.rank], .inr howner, ?_⟩
        simp [distance, hthread, ThreadStage.rank]
      · have hinit : w.initCallback_ = true := by
          by_contra hno
          exact hfree (h.free (by simp [hthread, ThreadStage.rank]) fun _ => by simpa using hno)
        obtain ⟨l, hl, hen, hlt⟩ := FunctorQueue.unfree_progress hfree
        have hthis : l.thread w.loop.threadId_ = w.loop.threadId_ := by
          rcases hl with rfl | rfl <;> rfl
        have hne : l ≠ .loop := by
          rcases hl with rfl | rfl <;> simp
        have hcall : w.MayCall l := by
          rw [MayCall, if_pos hthis]
          exact ⟨hne, .inl ⟨hthread, hinit⟩⟩
        refine ⟨.queue l, { w with loop := w.loop.step l }, ⟨hen, hcall⟩, ?_,
          ⟨own_queue (.inl hthis), ?_⟩, hrank, .inr howner, ?_⟩
        · simp [EventLoopThread.step, hthread, ThreadStage.alive]
        · rcases hl with rfl | rfl <;> exact id
        · simp only [distance]
          omega
  | publishing =>
      obtain ⟨gate, howner⟩ : ∃ gate, w.owner = .starting gate := by
        refine howner.resolve_right fun hreading => ?_
        have hr := h.reading hreading
        simp [hthread, ThreadStage.rank] at hr
      obtain ⟨gate', hnotify⟩ : ∃ gate', w.owner.notifyOne = .starting gate' := by
        rcases w.owner.notifyOne_cases with heq | ⟨-, heq⟩
        · exact ⟨gate, heq.trans howner⟩
        · exact ⟨_, heq⟩
      refine ⟨.publish, _, hthread, rfl, hown _ (by simp) (by simp) id,
        by simp [ThreadStage.rank], .inr (.inl ⟨gate', hnotify⟩), ?_⟩
      simp only [distance, hnotify]
      simp [howner, hthread, ThreadStage.rank]
  | entering => exact absurd (.inl (by simp [hthread, ThreadStage.rank])) hr
  | looping => exact absurd (.inr (by simp [hthread, ThreadStage.rank])) hr
  | cleared => simp [hthread, ThreadStage.rank] at hrank
  | finished => simp [hthread, ThreadStage.rank] at hrank

/-- The two threads get `startLoop` to its end by themselves. -/
theorem startLoop_reaches (h : Lived w) (hrank : w.thread.rank < 6) (howner : w.InStartLoop) :
    (eventLoopThread.restrict fun w l => w.Own l ∧ ¬ l.quits).Reaches w Returned := by
  refine System.reaches_of_measure (I := fun w => Lived w ∧ w.thread.rank < 6 ∧
    (w.Returned ∨ w.InStartLoop)) distance ?_ ⟨h, hrank, .inr howner⟩
  rintro w ⟨h, hrank, hres | howner⟩
  · exact .inl hres
  · exact .inr (startLoop_progress h hrank howner)

/-- Behind `loop_ = nullptr` nobody gets the owner out of `wait`. -/
theorem startLoop_stranded (h : Lived w) (hrank : 6 ≤ w.thread.rank)
    (howner : ∃ gate, w.owner = .starting gate) :
    ¬ eventLoopThread.Reaches w fun w' => w'.owner.past = true := by
  refine System.not_reaches (D := fun w => Lived w ∧ 6 ≤ w.thread.rank ∧
    ∃ gate, w.owner = .starting gate) ?_ ?_ ⟨h, hrank, howner⟩
  · rintro w l w' ⟨h, hrank, gate, howner⟩ ⟨hen, hw⟩
    have hw : w.step l = .ok w' := hw
    refine ⟨h.step hen hw, hrank.trans (step_rank h hen hw), ?_⟩
    have hpointer := h.pointer_cleared hrank
    cases l with
    | startLoop => exact absurd (howner.symm.trans hen) (by simp)
    | lock =>
        cases hw
        exact ⟨.waiting, by simp [hpointer]⟩
    | spuriousWakeup =>
        cases hw
        exact ⟨.woken, rfl⟩
    | returnLoop => exact absurd (howner.symm.trans hen) (by simp)
    | publish =>
        have hthread : w.thread = .publishing := hen
        simp [hthread, ThreadStage.rank] at hrank
    | testLoop => rcases hen with hc | ⟨hc, -⟩ <;> exact absurd (howner.symm.trans hc) (by simp)
    | loadLoop | storeQuit | wakeup => exact absurd (howner.symm.trans hen) (by simp)
    | join => exact absurd (howner.symm.trans hen.1) (by simp)
    | construct | endInit | enterLoop | clear =>
        cases hw
        exact ⟨gate, howner⟩
    | destructLoop | queue l =>
        simp only [EventLoopThread.step] at hw
        split at hw <;> cases hw
        exact ⟨gate, howner⟩
  · rintro w ⟨-, -, gate, howner⟩ hpast
    simp [howner, OwnerStage.past] at hpast

/-! ## The destructor -/

/-- How many steps the owner and the loop's thread are from the end. -/
def remaining (w : EventLoopThread Tid F) : Nat :=
  8 * OwnerStage.left w.owner + 8 * (7 - w.thread.rank) + w.loop.effort

/-- A loop told to quit gets to its end by the steps of its thread. -/
theorem thread_progress (h : Lived w) (hrank : 4 ≤ w.thread.rank) (htold : w.loop.Told)
    (hthread : w.thread ≠ .finished) :
    ∃ l w', w.Enabled l ∧ w.step l = .ok w' ∧ w.Own l ∧ w'.owner = w.owner ∧
      w'.remaining < w.remaining := by
  cases hs : w.thread with
  | entering =>
      have hphase := h.outside (by simp [hs, ThreadStage.rank])
      have hfree := h.free (by simp [hs, ThreadStage.rank]) (by simp [hs])
      refine ⟨.enterLoop, _, ⟨hs, hphase, hfree⟩, rfl, own_of_ne (by simp) (by simp), rfl, ?_⟩
      simp only [remaining, hs, ThreadStage.rank, FunctorQueue.effort, FunctorQueue.step, hphase]
      omega
  | looping =>
      by_cases hphase : w.loop.phase = .outside
      · refine ⟨.clear, _, ⟨hs, hphase⟩, rfl, own_of_ne (by simp) (by simp), rfl, ?_⟩
        simp only [remaining, hs, ThreadStage.rank]
        omega
      · obtain ⟨l, hown, hne, hen, hlt⟩ := htold.progress hphase
        refine ⟨.queue l, { w with loop := w.loop.step l }, ⟨hen, ?_⟩, ?_,
          own_queue (.inl hown), rfl, ?_⟩
        · rw [MayCall, if_pos hown]
          exact ⟨hne, .inr ⟨hs, hphase⟩⟩
        · simp [EventLoopThread.step, hs, ThreadStage.alive]
        · simp only [remaining]
          omega
  | cleared =>
      refine ⟨.destructLoop, { w with thread := .finished }, hs, ?_, own_of_ne (by simp) (by simp), rfl, ?_⟩
      · simp [EventLoopThread.step, htold.quit]
      · simp only [remaining, hs, ThreadStage.rank]
        omega
  | finished => exact absurd hs hthread
  | _ => simp [hs, ThreadStage.rank] at hrank

theorem destructor_progress (h : Lived w) (howner : 0 < OwnerStage.left w.owner)
    (hin : w.InTime) :
    ∃ l w', w.Enabled l ∧ w.step l = .ok w' ∧ w.Own l ∧ w'.InTime ∧
      (w'.owner = .destroyed ∨ 0 < OwnerStage.left w'.owner) ∧ w'.remaining < w.remaining := by
  have hrank := h.past_rank howner
  have halive : w.thread ≠ .finished → w.thread.alive = true := by
    intro hthread
    refine ThreadStage.alive_iff.mpr ⟨by omega, ?_⟩
    cases hs : w.thread <;> simp [hs, ThreadStage.rank] at hthread ⊢
  have hset_ne : w.loop_ = true → w.thread ≠ .finished := by
    intro hset hfinished
    rcases h.pointer.mp hset with hr | hr <;> simp [hfinished, ThreadStage.rank] at hr
  cases ho : w.owner with
  | started =>
      have hset : w.loop_ = true := by simpa [InTime, ho] using hin
      by_cases hwaking : w.ownerId ∈ w.loop.waking
      · -- a `write` that the owner still owes
        have hres : w.result = some true := by
          have hpast := h.result (by simp [ho, OwnerStage.past])
            (h.thread_ne (by simp [ho]) (by simp [ho]))
          obtain ⟨p, hp⟩ := Option.isSome_iff_exists.mp hpast
          cases p with
          | true => exact hp
          | false => simp [h.pointer_cleared (h.null hp)] at hset
        refine ⟨.queue (.wakeup w.ownerId), { w with loop := w.loop.wakeup w.ownerId },
          ⟨hwaking, ?_⟩, ?_, ?_, ?_, .inr (by simp [ho, OwnerStage.left]), ?_⟩
        · have hother : (QueueLabel.wakeup w.ownerId : QueueLabel Tid F).thread w.loop.threadId_ ≠
              w.loop.threadId_ := h.distinct
          rw [MayCall, if_neg hother]
          exact ⟨hres, fun _ => ho⟩
        · simp [EventLoopThread.step, halive (hset_ne hset), FunctorQueue.step]
        · exact own_queue (.inr rfl)
        · simpa [InTime, ho] using hset
        · have hlt := FunctorQueue.effort_wakeup_lt hwaking
          simp only [remaining]
          omega
      · refine ⟨.testLoop, { w with owner := .destructing }, .inr ⟨ho, hwaking⟩, ?_,
          own_of_ne (by simp) (by simp), hset, .inr (by simp [OwnerStage.left]), ?_⟩
        · simp [EventLoopThread.step, hset]
        · simp only [remaining, ho, OwnerStage.left]
          omega
  | destructing =>
      have hset : w.loop_ = true := by simpa [InTime, ho] using hin
      refine ⟨.loadLoop, { w with owner := .calling }, ho, ?_, own_of_ne (by simp) (by simp), ?_,
        .inr (by simp [OwnerStage.left]), ?_⟩
      · simp [EventLoopThread.step, hset]
      · exact hset_ne hset
      · simp only [remaining, ho, OwnerStage.left]
        omega
  | calling =>
      have hthread : w.thread ≠ .finished := by simpa [InTime, ho] using hin
      refine ⟨.storeQuit, { w with owner := .quitting, loop := w.loop.quit w.ownerId }, ho, ?_,
        own_of_ne (by simp) (by simp), hthread, .inr (by simp [OwnerStage.left]), ?_⟩
      · simp [EventLoopThread.step, halive hthread]
      · have hle := FunctorQueue.effort_quit_le w.loop w.ownerId
        simp only [remaining, ho, OwnerStage.left]
        omega
  | quitting =>
      have hthread : w.thread ≠ .finished := by simpa [InTime, ho] using hin
      refine ⟨.wakeup, { w with owner := .joining, loop := w.loop.wakeup w.ownerId }, ho, ?_,
        own_of_ne (by simp) (by simp), trivial, .inr (by simp [OwnerStage.left]), ?_⟩
      · simp [EventLoopThread.step, halive hthread]
      · have hle := FunctorQueue.effort_wakeup_le w.loop w.ownerId
        simp only [remaining, ho, OwnerStage.left]
        omega
  | joining =>
      by_cases hthread : w.thread = .finished
      · refine ⟨.join, { w with owner := .destroyed }, ⟨ho, hthread⟩, rfl, own_of_ne (by simp) (by simp),
          trivial, .inl rfl, ?_⟩
        simp only [remaining, ho, OwnerStage.left]
        omega
      · obtain ⟨l, w', hen, hw, hown, howner', hlt⟩ := thread_progress h hrank (h.told ho) hthread
        have hj : w'.owner = .joining := howner'.trans ho
        exact ⟨l, w', hen, hw, hown, by simp [InTime, hj], .inr (by simp [hj, OwnerStage.left]), hlt⟩
  | _ => simp [ho, OwnerStage.left] at howner

/-- The owner and the loop's thread get the destructor to its end by
themselves. -/
theorem destructor_reaches (h : Lived w) (howner : 0 < OwnerStage.left w.owner)
    (hin : w.InTime) : (eventLoopThread.restrict Own).Reaches w (·.owner = .destroyed) := by
  refine System.reaches_of_measure (I := fun w => Lived w ∧ w.InTime ∧
    (w.owner = .destroyed ∨ 0 < OwnerStage.left w.owner)) remaining ?_ ⟨h, hin, .inr howner⟩
  rintro w ⟨h, hin, hdone | howner⟩
  · exact .inl hdone
  · obtain ⟨l, w', hen, hw, hown, hin', howner', hlt⟩ := destructor_progress h howner hin
    exact .inr ⟨l, w', System.restrict_step.mpr ⟨⟨hen, hw⟩, hown⟩,
      ⟨h.step hen hw, hin', howner'⟩, hlt⟩

theorem Late.step (h : Lived w) (hlate : w.Late) (hen : w.Enabled l) (hw : w.step l = .ok w') :
    w'.Late := by
  have hrank : 6 ≤ w.thread.rank := by
    rcases hlate with ⟨-, hr⟩ | ⟨-, hfinished⟩
    · exact hr
    · simp [hfinished, ThreadStage.rank]
  have hpointer := h.pointer_cleared hrank
  have hne : ∀ o, w.owner = o → o.left < 2 → False := by
    rintro o rfl hleft
    rcases hlate with ⟨ho | ho, -⟩ | ⟨ho | ho, -⟩ <;> simp [ho, OwnerStage.left] at hleft
  have hgone : w.owner = .calling ∨ w.owner = .quitting → w.thread.alive = false := by
    intro ho
    rcases hlate with ⟨hc, -⟩ | ⟨-, hfinished⟩
    · rcases ho with ho | ho <;> simp [ho] at hc
    · rw [hfinished]
      rfl
  cases l with
  | startLoop => exact (hne _ hen (by decide)).elim
  | lock =>
      obtain ⟨gate, ho, -⟩ := hen
      exact (hne _ ho (by simp [OwnerStage.left])).elim
  | spuriousWakeup => exact (hne _ hen (by decide)).elim
  | returnLoop => exact (hne _ hen (by decide)).elim
  | join => exact (hne _ hen.1 (by decide)).elim
  | construct =>
      have hs : w.thread = .created := hen
      simp [hs, ThreadStage.rank] at hrank
  | endInit => simp [hen.1, ThreadStage.rank] at hrank
  | publish =>
      have hs : w.thread = .publishing := hen
      simp [hs, ThreadStage.rank] at hrank
  | enterLoop => simp [hen.1, ThreadStage.rank] at hrank
  | clear => simp [hen.1, ThreadStage.rank] at hrank
  | destructLoop =>
      simp only [EventLoopThread.step] at hw
      split at hw <;> cases hw
      rcases hlate with ⟨ho, -⟩ | ⟨ho, -⟩
      · exact .inl ⟨ho, by simp [ThreadStage.rank]⟩
      · exact .inr ⟨ho, rfl⟩
  | queue l =>
      simp only [EventLoopThread.step] at hw
      split at hw <;> cases hw
      exact hlate
  | testLoop =>
      -- a null pointer, and a thread that nobody has joined
      have hs : w.thread ≠ .none := by
        rintro hs
        simp [hs, ThreadStage.rank] at hrank
      simp [EventLoopThread.step, hpointer, hs] at hw
  | loadLoop => simp [EventLoopThread.step, hpointer] at hw
  | storeQuit =>
      have hthread := hgone (.inl hen)
      simp [EventLoopThread.step, hthread] at hw
  | wakeup =>
      have hthread := hgone (.inr hen)
      simp [EventLoopThread.step, hthread] at hw

theorem Late.not_reaches (h : Lived w) (hlate : w.Late) :
    ¬ eventLoopThread.Reaches w fun w' => w'.owner = .destroyed := by
  refine System.not_reaches (D := fun w => Lived w ∧ w.Late) ?_ ?_ ⟨h, hlate⟩
  · rintro w l w' ⟨h, hlate⟩ ⟨hen, hw⟩
    exact ⟨h.step hen hw, hlate.step h hen hw⟩
  · rintro w ⟨-, ⟨ho | ho, -⟩ | ⟨ho | ho, -⟩⟩ hdone <;> simp [ho] at hdone

/-! ## Who quits the loop -/

/-- `quit_` is set by `quit` only. -/
theorem step_quit_of_ne (hquit : w.loop.quit_ = false) (hl : ¬ l.quits)
    (hw : w.step l = .ok w') : w'.loop.quit_ = false := by
  cases l with
  | queue q =>
      simp only [EventLoopThread.step] at hw
      split at hw <;> cases hw
      refine FunctorQueue.step_quit_of_ne hquit ?_
      rintro t rfl
      exact hl trivial
  | storeQuit => exact absurd trivial hl
  | wakeup | loadLoop | destructLoop =>
      simp only [EventLoopThread.step] at hw
      split at hw <;> cases hw
      exact hquit
  | testLoop =>
      simp only [EventLoopThread.step] at hw
      split at hw
      · cases hw
        exact hquit
      · split at hw <;> cases hw
        exact hquit
  | _ =>
      cases hw
      exact hquit

/-- The loop has been told to quit by the destructor, if at all. -/
def Alone (w : EventLoopThread Tid F) : Prop :=
  w.loop.quit_ = true → w.owner = .quitting ∨ w.owner = .joining ∨ w.owner = .destroyed

theorem Alone.step (halone : w.Alone) (hl : ∀ t, l ≠ .queue (.quit t)) (hen : w.Enabled l)
    (hw : w.step l = .ok w') : w'.Alone := by
  cases hq : w.loop.quit_ with
  | false =>
      by_cases hquits : l.quits
      · cases l with
        | storeQuit =>
            simp only [EventLoopThread.step] at hw
            split at hw <;> cases hw
            exact fun _ => .inl rfl
        | queue q =>
            cases q with
            | quit t => exact absurd rfl (hl t)
            | _ => exact hquits.elim
        | _ => exact hquits.elim
      · intro hquit
        rw [step_quit_of_ne hq hquits hw] at hquit
        cases hquit
  | true =>
      intro _
      have ho := halone hq
      cases l with
      | startLoop => simp [show w.owner = .constructed from hen] at ho
      | lock =>
          obtain ⟨gate, hgate, -⟩ := hen
          simp [hgate] at ho
      | spuriousWakeup => simp [show w.owner = .starting .waiting from hen] at ho
      | returnLoop => simp [show w.owner = .reading from hen] at ho
      | testLoop => rcases hen with hc | ⟨hc, -⟩ <;> simp [hc] at ho
      | loadLoop => simp [show w.owner = .destructing from hen] at ho
      | storeQuit => simp [show w.owner = .calling from hen] at ho
      | publish =>
          cases hw
          have hnotify : w.owner.notifyOne = w.owner := by
            refine w.owner.notifyOne_cases.resolve_right ?_
            rintro ⟨hwaiting, -⟩
            simp [hwaiting] at ho
          show w.owner.notifyOne = _ ∨ _
          rw [hnotify]
          exact ho
      | wakeup =>
          simp only [EventLoopThread.step] at hw
          split at hw <;> cases hw
          exact .inr (.inl rfl)
      | join =>
          cases hw
          exact .inr (.inr rfl)
      | queue q =>
          simp only [EventLoopThread.step] at hw
          split at hw <;> cases hw
          exact ho
      | destructLoop =>
          simp only [EventLoopThread.step, hq] at hw
          cases hw
          exact ho
      | construct | endInit | enterLoop | clear =>
          cases hw
          exact ho

end EventLoopThread

open EventLoopThread

/-- While nobody quits the loop, `startLoop` returns a pointer to a loop that
is behind `initCallback_` and stays there; and the two threads can always get
it to return, whatever the interleaving so far. -/
theorem startLoop_live [DecidableEq Tid] {owner t : Tid} (hne : owner ≠ t) {initCallback : Bool}
    {ls : List (EventLoopThreadLabel Tid F)} {w : EventLoopThread Tid F}
    (hrun : (eventLoopThread.restrict fun _ l => ¬ l.quits).Run (init initCallback owner t) ls w) :
    (∀ p, w.result = some p →
      p = true ∧ w.loop_ = true ∧ (w.thread = .entering ∨ w.thread = .looping)) ∧
    (w.InStartLoop →
      (eventLoopThread.restrict fun w l => w.Own l ∧ ¬ l.quits).Reaches w Returned) := by
  have hlived := lived hne hrun.of_restrict
  have hquit : w.loop.quit_ = false := by
    refine hrun.invariant (I := fun w => w.loop.quit_ = false) rfl ?_
    intro w l w' hquit hstep
    obtain ⟨⟨hen, hw⟩, hl⟩ := System.restrict_step.mp hstep
    exact step_quit_of_ne hquit hl hw
  have hrank := hlived.running hquit
  refine ⟨?_, startLoop_reaches hlived hrank⟩
  intro p hp
  cases p with
  | false =>
      have := hlived.null hp
      omega
  | true =>
      have hreturned := hlived.returned hp
      refine ⟨rfl, hlived.pointer.mpr (by omega), ?_⟩
      cases hs : w.thread <;> simp [hs, ThreadStage.rank] at hreturned hrank ⊢

/-- One hand-over, with the owner in `wait` when the pointer is published. -/
theorem startLoop_live_waiting :
    ∃ (ls : List (EventLoopThreadLabel Nat Char)) (w : EventLoopThread Nat Char),
      (eventLoopThread.restrict fun _ l => ¬ l.quits).Run (init false 0 1) ls w ∧
      w.result = some true ∧ w.loop_ = true := by
  have hrun : ∃ w : EventLoopThread Nat Char,
      (eventLoopThread.restrict fun _ l => ¬ l.quits).Run (init false 0 1)
        [.startLoop, .lock, .construct, .spuriousWakeup, .lock, .endInit, .publish, .lock,
          .returnLoop] w ∧ w.result = some true := by
    refine ⟨_, .cons ⟨⟨?_, id⟩, rfl⟩ (.cons ⟨⟨?_, id⟩, rfl⟩ (.cons ⟨⟨?_, id⟩, rfl⟩
      (.cons ⟨⟨?_, id⟩, rfl⟩ (.cons ⟨⟨?_, id⟩, rfl⟩ (.cons ⟨⟨?_, id⟩, rfl⟩ (.cons ⟨⟨?_, id⟩, rfl⟩
      (.cons ⟨⟨?_, id⟩, rfl⟩ (.cons ⟨⟨?_, id⟩, rfl⟩ (.nil _))))))))), rfl⟩
    · rfl
    · exact ⟨_, rfl, by decide⟩
    · rfl
    · rfl
    · exact ⟨_, rfl, by decide⟩
    · exact ⟨rfl, rfl, by decide⟩
    · rfl
    · exact ⟨_, rfl, by decide⟩
    · rfl
  obtain ⟨w, hrun, hres⟩ := hrun
  exact ⟨_, w, hrun, hres, ((startLoop_live (by decide) hrun).1 true hres).2.1⟩

/-- An owner in `startLoop` is never left un-notified while the pointer is set,
and it gets out if and only if it has its look at the pointer behind it or
`threadFunc` has not yet reset the pointer. -/
theorem startLoop_returns_iff [DecidableEq Tid] {owner t : Tid} (hne : owner ≠ t)
    {initCallback : Bool} {ls : List (EventLoopThreadLabel Tid F)} {w : EventLoopThread Tid F}
    (hrun : eventLoopThread.Run (init initCallback owner t) ls w) (howner : w.InStartLoop) :
    (w.loop_ = true → w.owner ≠ .starting .waiting) ∧
    (eventLoopThread.Reaches w (fun w' => w'.owner.past = true) ↔
      w.owner = .reading ∨ w.thread ≠ .cleared ∧ w.thread ≠ .finished) := by
  have hlived := lived hne hrun
  refine ⟨hlived.notified, ?_, ?_⟩
  · intro hreaches
    by_contra hover
    obtain ⟨hreading, hthread⟩ := not_or.mp hover
    refine startLoop_stranded hlived ?_ (howner.resolve_right hreading) hreaches
    cases hs : w.thread <;> simp [hs, ThreadStage.rank] at hthread ⊢
  · rintro (hreading | ⟨hcleared, hfinished⟩)
    · -- one step, whatever the pointer is by now
      refine ⟨[.returnLoop], _, .cons ⟨hreading, rfl⟩ (.nil _), ?_⟩
      rfl
    · have hrank : w.thread.rank < 6 := by
        cases hs : w.thread <;> simp [hs, ThreadStage.rank] at hcleared hfinished ⊢
      obtain ⟨ls', w', hrun', hstarted, -⟩ := startLoop_reaches hlived hrank howner
      have hpast : w'.owner.past = true := by
        rw [hstarted]
        rfl
      exact ⟨ls', w', hrun'.of_restrict, hpast⟩

/-- A callback that quits the loop, and an owner that has been notified but
looks too late. -/
theorem startLoop_returns_iff_quit :
    ∃ (ls : List (EventLoopThreadLabel Nat Char)) (w : EventLoopThread Nat Char),
      eventLoopThread.Run (init true 0 1) ls w ∧ w.owner = .starting .notified ∧
      ¬ eventLoopThread.Reaches w fun w' => w'.owner.past = true := by
  have hrun : ∃ w : EventLoopThread Nat Char,
      eventLoopThread.Run (init true 0 1)
        [.startLoop, .lock, .construct, .queue (.quit 1), .endInit, .publish, .enterLoop,
          .queue .test, .clear] w ∧ w.owner = .starting .notified ∧ w.thread = .cleared := by
    refine ⟨_, .cons ⟨?_, rfl⟩ (.cons ⟨?_, rfl⟩ (.cons ⟨?_, rfl⟩ (.cons ⟨?_, rfl⟩
      (.cons ⟨?_, rfl⟩ (.cons ⟨?_, rfl⟩ (.cons ⟨?_, rfl⟩ (.cons ⟨?_, rfl⟩ (.cons ⟨?_, rfl⟩
      (.nil _))))))))), rfl, rfl⟩
    · rfl
    · exact ⟨_, rfl, by decide⟩
    · rfl
    · exact ⟨⟨by decide, fun _ => .inr (.inl rfl)⟩, by simp, .inl ⟨rfl, rfl⟩⟩
    · exact ⟨rfl, rfl, by decide⟩
    · rfl
    · exact ⟨rfl, rfl, rfl, by decide⟩
    · exact ⟨rfl, by simp, .inr ⟨rfl, by simp [FunctorQueue.step]⟩⟩
    · exact ⟨rfl, rfl⟩
  obtain ⟨w, hrun, howner, hthread⟩ := hrun
  refine ⟨_, w, hrun, howner, fun hreaches => ?_⟩
  have hin : w.InStartLoop := .inl ⟨_, howner⟩
  rcases (startLoop_returns_iff (by decide) hrun hin).2.mp hreaches with hreading | ⟨hcleared, -⟩
  · simp [howner] at hreading
  · exact hcleared hthread

/-- From behind `startLoop` on, the destructor can get to its end if and only if
its next access of the loop is in time; and when it can, the owner and the
thread need nobody else for it. `assert(quit_)` never fails, and where nobody
but the destructor quits the loop, only the `write` of its `wakeup` can come too
late. -/
theorem destructor_ends_iff [DecidableEq Tid] {owner t : Tid} (hne : owner ≠ t)
    {initCallback : Bool} {ls : List (EventLoopThreadLabel Tid F)} {w : EventLoopThread Tid F}
    (hrun : eventLoopThread.Run (init initCallback owner t) ls w)
    (hpast : w.owner.past = true) :
    (w.InTime → (eventLoopThread.restrict Own).Reaches w (·.owner = .destroyed)) ∧
    (eventLoopThread.Reaches w (·.owner = .destroyed) → w.InTime) ∧
    (w.thread = .cleared → w.loop.quit_ = true) ∧
    ((∀ t', .queue (.quit t') ∉ ls) → w.owner ≠ .quitting → w.InTime) := by
  have hlived := lived hne hrun
  have hquit : 6 ≤ w.thread.rank → w.loop.quit_ = true := by
    intro hrank
    by_contra hno
    have := hlived.running (by simpa using hno)
    omega
  have hassert : w.thread = .cleared → w.loop.quit_ = true := by
    intro hthread
    exact hquit (by simp [hthread, ThreadStage.rank])
  by_cases hdone : w.owner = .destroyed
  · have hin : w.InTime := by simp [InTime, hdone]
    exact ⟨fun _ => ⟨[], w, .nil w, hdone⟩, fun _ => hin, hassert, fun _ _ => hin⟩
  have hleft : 0 < w.owner.left := by
    cases ho : w.owner <;> simp [ho, OwnerStage.past, OwnerStage.left] at hpast hdone ⊢
  refine ⟨destructor_reaches hlived hleft, ?_, hassert, ?_⟩
  · intro hreaches
    by_contra hin
    exact (hlived.late hleft hin).not_reaches hlived hreaches
  · intro hothers howner
    have halone : w.Alone := by
      have hmeets : (eventLoopThread.restrict fun _ l => ∀ t', l ≠ .queue (.quit t')).Run
          (init initCallback owner t) ls w := by
        refine System.run_restrict_labels.mpr ⟨hrun, ?_⟩
        rintro l hl t' rfl
        exact hothers t' hl
      refine hmeets.invariant (I := Alone) (fun hquit => absurd hquit (by simp [init,
        FunctorQueue.init])) ?_
      intro w l w' halone hstep
      obtain ⟨⟨hen, hw⟩, hl⟩ := System.restrict_step.mp hstep
      exact halone.step hl hen hw
    by_contra hin
    rcases hlived.late hleft hin with ⟨ho, hrank⟩ | ⟨ho, hfinished⟩
    · rcases ho with ho | ho <;> simpa [ho] using halone (hquit hrank)
    · have hset := halone (hquit (by simp [hfinished, ThreadStage.rank]))
      rcases ho with ho | ho
      · simp [ho] at hset
      · exact howner ho

/-- The loop sees the store of the destructor, and is gone before its `write`. -/
theorem destructor_ends_iff_late :
    ∃ (ls : List (EventLoopThreadLabel Nat Char)) (w : EventLoopThread Nat Char),
      eventLoopThread.Run (init false 0 1) ls w ∧ w.owner = .quitting ∧
      ¬ eventLoopThread.Reaches w (·.owner = .destroyed) := by
  have hrun : ∃ w : EventLoopThread Nat Char,
      eventLoopThread.Run (init false 0 1)
        [.startLoop, .construct, .endInit, .publish, .lock, .returnLoop, .testLoop, .loadLoop,
          .enterLoop, .storeQuit, .queue .test, .clear, .destructLoop] w ∧
      w.owner = .quitting ∧ w.thread = .finished := by
    refine ⟨_, .cons ⟨?_, rfl⟩ (.cons ⟨?_, rfl⟩ (.cons ⟨?_, rfl⟩ (.cons ⟨?_, rfl⟩
      (.cons ⟨?_, rfl⟩ (.cons ⟨?_, rfl⟩ (.cons ⟨?_, rfl⟩ (.cons ⟨?_, rfl⟩ (.cons ⟨?_, rfl⟩
      (.cons ⟨?_, rfl⟩ (.cons ⟨?_, rfl⟩ (.cons ⟨?_, rfl⟩ (.cons ⟨?_, rfl⟩
      (.nil _))))))))))))), rfl, rfl⟩
    · rfl
    · rfl
    · exact ⟨rfl, rfl, by decide⟩
    · rfl
    · exact ⟨_, rfl, by decide⟩
    · rfl
    · exact .inr ⟨rfl, by decide⟩
    · rfl
    · exact ⟨rfl, rfl, rfl, by decide⟩
    · rfl
    · exact ⟨rfl, by simp, .inr ⟨rfl, by simp [FunctorQueue.step, FunctorQueue.quit]⟩⟩
    · exact ⟨rfl, rfl⟩
    · rfl
  obtain ⟨w, hrun, howner, hthread⟩ := hrun
  refine ⟨_, w, hrun, howner, fun hreaches => ?_⟩
  have hin := (destructor_ends_iff (by decide) hrun (by rw [howner]; rfl)).2.1 hreaches
  rw [InTime, howner] at hin
  exact hin hthread

end Ham.Net
