import Ham.Net.EventLoopThread

/-!
# The life of a loop thread

`loop_` points to an object on another thread's stack, and it is set and reset
while the owner looks at it. The invariant (`Lived`) places every field by how
far `threadFunc` has come (`ThreadStage.rank`): the pointer is set from the
section that publishes it until `loop_ = nullptr`, `loop()` is left only by a
loop that has been told to quit, and nobody waits on `cond_` un-notified while
the pointer is set.
-/

namespace Ham.Net

open Ham.Lib

variable {Tid F : Type}

/-- How far `threadFunc` has come. -/
def ThreadStage.rank : ThreadStage → Nat
  | .none => 0
  | .created => 1
  | .initCallback => 2
  | .publishing => 3
  | .entering => 4
  | .looping => 5
  | .cleared => 6
  | .finished => 7

theorem ThreadStage.alive_iff {s : ThreadStage} : s.alive = true ↔ 2 ≤ s.rank ∧ s.rank < 7 := by
  cases s <;> decide

/-- The owner has got behind `startLoop`. -/
def OwnerStage.past : OwnerStage → Bool
  | .constructed | .starting _ | .reading => false
  | _ => true

theorem OwnerStage.notifyOne_cases (s : OwnerStage) :
    s.notifyOne = s ∨ s = .starting .waiting ∧ s.notifyOne = .starting .notified := by
  cases s with
  | starting gate => cases gate <;> simp [OwnerStage.notifyOne, OwnerStage.cond_]
  | _ => simp [OwnerStage.notifyOne, OwnerStage.cond_]

/-- Nobody waits behind the notification. -/
theorem OwnerStage.notifyOne_ne (s : OwnerStage) : s.notifyOne ≠ .starting .waiting := by
  cases s with
  | starting gate => cases gate <;> simp [OwnerStage.notifyOne, OwnerStage.cond_]
  | _ => simp [OwnerStage.notifyOne, OwnerStage.cond_]

namespace EventLoopThread

variable {w w' : EventLoopThread Tid F} {l : EventLoopThreadLabel Tid F}

structure Lived (w : EventLoopThread Tid F) : Prop where
  distinct : w.ownerId ≠ w.loop.threadId_
  pointer : w.loop_ = true ↔ w.thread.rank = 4 ∨ w.thread.rank = 5
  unstarted : w.owner = .constructed → w.thread = .none
  started : w.thread = .none → w.owner = .constructed ∨ w.owner = .destroyed
  outside : w.thread.rank ≠ 5 → w.loop.phase = .outside
  /-- Before `loop()` only user code of `initCallback_` has run on the thread. -/
  free : w.thread.rank < 5 → (w.thread = .initCallback → w.initCallback_ = false) → w.loop.Free
  /-- `loop()` is left through a test of `quit_`. -/
  quit : w.loop.phase = .outside → 5 ≤ w.thread.rank → w.loop.quit_ = true
  /-- The notification is not lost. -/
  notified : w.loop_ = true → w.owner ≠ .starting .waiting
  reading : w.owner = .reading → 4 ≤ w.thread.rank
  result : w.owner.past = true → w.thread ≠ .none → w.result.isSome = true
  returned : w.result = some true → 4 ≤ w.thread.rank
  null : w.result = some false → 6 ≤ w.thread.rank
  stored : w.owner = .quitting → w.loop.quit_ = true
  told : w.owner = .joining → w.loop.Told

/-- The owner, before `startLoop`. -/
def init (initCallback : Bool) (owner t : Tid) : EventLoopThread Tid F where
  initCallback_ := initCallback
  ownerId := owner
  loop := FunctorQueue.init t

theorem lived_init {owner t : Tid} (hne : owner ≠ t) (initCallback : Bool) :
    Lived (init initCallback owner t : EventLoopThread Tid F) where
  distinct := hne
  pointer := by simp [init, ThreadStage.rank]
  unstarted := fun _ => rfl
  started := fun _ => .inl rfl
  outside := fun _ => rfl
  free := fun _ _ => ⟨rfl, by simp [init, FunctorQueue.init]⟩
  quit := by simp [init, ThreadStage.rank]
  notified := by simp [init]
  reading := by simp [init]
  result := by simp [init, OwnerStage.past]
  returned := by simp [init]
  null := by simp [init]
  stored := by simp [init]
  told := by simp [init]

/-- The loop goes on, by itself or by a call. -/
theorem Lived.withLoop (h : Lived w) {q : FunctorQueue Tid F}
    (hid : q.threadId_ = w.loop.threadId_)
    (houtside : w.thread.rank ≠ 5 → q.phase = .outside)
    (hfree : w.thread.rank < 5 → (w.thread = .initCallback → w.initCallback_ = false) → q.Free)
    (hquit : q.phase = .outside → 5 ≤ w.thread.rank → q.quit_ = true)
    (hstored : w.loop.quit_ = true → q.quit_ = true)
    (htold : w.owner = .joining → q.Told) : Lived { w with loop := q } where
  distinct := by
    rw [hid]
    exact h.distinct
  pointer := h.pointer
  unstarted := h.unstarted
  started := h.started
  outside := houtside
  free := hfree
  quit := hquit
  notified := h.notified
  reading := h.reading
  result := h.result
  returned := h.returned
  null := h.null
  stored := fun ho => hstored (h.stored ho)
  told := htold

theorem Lived.pointer_cleared (h : Lived w) (hrank : 6 ≤ w.thread.rank) : w.loop_ = false := by
  by_contra hset
  rcases h.pointer.mp (by simpa using hset) with hr | hr <;> omega

/-- Between the start and the end of the object the thread is there. -/
theorem Lived.thread_ne (h : Lived w) (hc : w.owner ≠ .constructed) (hd : w.owner ≠ .destroyed) :
    w.thread ≠ .none := by
  intro hnone
  rcases h.started hnone with ho | ho
  · exact hc ho
  · exact hd ho

/-- The owner goes on. -/
theorem Lived.withOwner (h : Lived w) {o : OwnerStage} {r : Option Bool}
    (hthread : w.thread ≠ .none) (ho : o ≠ .constructed)
    (hnotified : w.loop_ = true → o ≠ .starting .waiting) (hreading : o = .reading → 4 ≤ w.thread.rank)
    (hresult : o.past = true → r.isSome = true) (hreturned : r = some true → 4 ≤ w.thread.rank)
    (hnull : r = some false → 6 ≤ w.thread.rank) (hstored : o = .quitting → w.loop.quit_ = true)
    (htold : o = .joining → w.loop.Told) : Lived { w with owner := o, result := r } where
  distinct := h.distinct
  pointer := h.pointer
  unstarted := fun hc => absurd hc ho
  started := fun hc => absurd hc hthread
  outside := h.outside
  free := h.free
  quit := h.quit
  notified := hnotified
  reading := hreading
  result := fun hpast _ => hresult hpast
  returned := hreturned
  null := hnull
  stored := hstored
  told := htold

/-- `threadFunc` goes on, and may set the pointer. -/
theorem Lived.withThread (h : Lived w) {s : ThreadStage} {set : Bool} (hthread : w.thread ≠ .none)
    (hs : s.rank = w.thread.rank + 1) (hpointer : set = true ↔ s.rank = 4 ∨ s.rank = 5)
    (hnotified : set = true → w.owner ≠ .starting .waiting)
    (houtside : s.rank ≠ 5 → w.loop.phase = .outside)
    (hfree : s.rank < 5 → (s = .initCallback → w.initCallback_ = false) → w.loop.Free)
    (hquit : w.loop.phase = .outside → 5 ≤ s.rank → w.loop.quit_ = true) :
    Lived { w with loop_ := set, thread := s } where
  distinct := h.distinct
  pointer := hpointer
  unstarted := fun hc => absurd (h.unstarted hc) hthread
  started := by
    intro hc
    have hc : s = .none := hc
    rw [hc] at hs
    cases hs
  outside := houtside
  free := hfree
  quit := hquit
  notified := hnotified
  reading := by
    intro hc
    have := h.reading hc
    show 4 ≤ s.rank
    omega
  result := fun hpast _ => h.result hpast hthread
  returned := by
    intro hc
    have := h.returned hc
    show 4 ≤ s.rank
    omega
  null := by
    intro hc
    have := h.null hc
    show 6 ≤ s.rank
    omega
  stored := h.stored
  told := h.told

/-- The loop is still in `loop()` while nobody has told it to quit. -/
theorem Lived.running (h : Lived w) (hquit : w.loop.quit_ = false) : w.thread.rank < 6 := by
  by_contra hrank
  have hphase := h.outside (by omega)
  have hset := h.quit hphase (by omega)
  rw [hquit] at hset
  cases hset

variable [DecidableEq Tid]

/-- The thread of the loop calls it from `initCallback_` and from `loop()`. -/
theorem MayCall.own {l : QueueLabel Tid F} (h : w.MayCall l)
    (hl : l.thread w.loop.threadId_ = w.loop.threadId_) :
    l ≠ .loop ∧ (w.thread = .initCallback ∧ w.initCallback_ = true ∨
      w.thread = .looping ∧ w.loop.phase ≠ .outside) := by
  rw [MayCall, if_pos hl] at h
  exact h

theorem Lived.queue (h : Lived w) {l : QueueLabel Tid F} (hen : w.loop.Enabled l)
    (hcall : w.MayCall l) : Lived { w with loop := w.loop.step l } := by
  have hloop : l ≠ .loop := by
    rintro rfl
    exact (hcall.own rfl).1 rfl
  obtain ⟨hin, hout⟩ := FunctorQueue.step_phase hen hloop
  refine h.withLoop (FunctorQueue.step_threadId _ l) (fun hr => hin (h.outside hr)) ?_ ?_
    (fun hquit => FunctorQueue.step_quit hquit l) (fun hj => (h.told hj).step hen)
  · intro hr hinit
    -- the thread itself runs no user code here
    apply (h.free hr hinit).other
    intro hown
    rcases (hcall.own hown).2 with ⟨hthread, hset⟩ | ⟨hthread, -⟩
    · rw [hinit hthread] at hset
      cases hset
    · rw [hthread] at hr
      exact absurd hr (by decide)
  · intro hphase hr
    apply FunctorQueue.step_quit
    rcases hout hphase with hphase | hquit
    · exact h.quit hphase hr
    · exact hquit

/-- The owner's calls of `quit`. -/
theorem Lived.ownerCall (h : Lived w) {l : QueueLabel Tid F}
    (hl : l = .quit w.ownerId ∨ l = .wakeup w.ownerId) (howner : w.owner ≠ .joining) :
    Lived { w with loop := w.loop.step l } := by
  have hother : l.thread w.loop.threadId_ ≠ w.loop.threadId_ := by
    rcases hl with rfl | rfl <;> exact h.distinct
  have hphase : (w.loop.step l).phase = w.loop.phase := by
    rcases hl with rfl | rfl <;> rfl
  refine h.withLoop (FunctorQueue.step_threadId _ l) ?_ ?_ ?_
    (fun hquit => FunctorQueue.step_quit hquit l) (fun hj => absurd hj howner)
  · rw [hphase]
    exact h.outside
  · exact fun hr hinit => (h.free hr hinit).other hother
  · rw [hphase]
    exact fun hout hr => FunctorQueue.step_quit (h.quit hout hr) l

theorem Lived.step (h : Lived w) (hen : w.Enabled l) (hw : w.step l = .ok w') : Lived w' := by
  cases l with
  | startLoop =>
      have hnone := h.unstarted hen
      have hpointer : w.loop_ = false := by
        simpa [hnone, ThreadStage.rank] using h.pointer
      cases hw
      exact { h with
        pointer := by simp [hpointer, ThreadStage.rank]
        unstarted := by simp
        started := by simp
        outside := fun _ => h.outside (by simp [hnone, ThreadStage.rank])
        free := fun _ _ => h.free (by simp [hnone, ThreadStage.rank]) (by simp [hnone])
        quit := by simp [ThreadStage.rank]
        notified := by simp
        reading := by simp
        result := by simp [OwnerStage.past]
        returned := by
          intro hres
          have hrank := h.returned hres
          simp [hnone, ThreadStage.rank] at hrank
        null := by
          intro hres
          have hrank := h.null hres
          simp [hnone, ThreadStage.rank] at hrank
        stored := by simp
        told := by simp }
  | lock =>
      obtain ⟨gate, howner, -⟩ := hen
      have hthread := h.thread_ne (by simp [howner]) (by simp [howner])
      cases hw
      refine h.withOwner hthread ?_ ?_ ?_ ?_ h.returned h.null ?_ ?_
      · split <;> simp
      · intro hset
        simp [show w.loop_ = true from hset]
      · intro ho
        split at ho
        · rename_i hset
          rcases h.pointer.mp hset with hr | hr <;> omega
        · cases ho
      · split <;> simp [OwnerStage.past]
      · split <;> simp
      · split <;> simp
  | spuriousWakeup =>
      have howner : w.owner = .starting .waiting := hen
      have hthread := h.thread_ne (by simp [howner]) (by simp [howner])
      cases hw
      exact h.withOwner hthread (by simp) (by simp) (by simp) (by simp [OwnerStage.past])
        h.returned h.null (by simp) (by simp)
  | returnLoop =>
      have howner : w.owner = .reading := hen
      have hthread := h.thread_ne (by simp [howner]) (by simp [howner])
      cases hw
      refine h.withOwner hthread (by simp) (by simp) (by simp) (fun _ => rfl) ?_ ?_
        (by simp) (by simp)
      · exact fun _ => h.reading howner
      · intro hnull
        have hset : w.loop_ = false := by simpa using hnull
        have hrank := h.reading howner
        have hpointer := h.pointer
        simp only [hset, Bool.false_eq_true, false_iff] at hpointer
        omega
  | construct =>
      have hthread : w.thread = .created := hen
      cases hw
      refine h.withThread (by simp [hthread]) (by simp [hthread, ThreadStage.rank]) ?_
        h.notified ?_ ?_ ?_
      · simpa [hthread, ThreadStage.rank] using h.pointer
      · exact fun _ => h.outside (by simp [hthread, ThreadStage.rank])
      · exact fun _ _ => h.free (by simp [hthread, ThreadStage.rank]) (by simp [hthread])
      · simp [ThreadStage.rank]
  | endInit =>
      obtain ⟨hthread, hfree⟩ := hen
      cases hw
      refine h.withThread (by simp [hthread]) (by simp [hthread, ThreadStage.rank]) ?_
        h.notified ?_ ?_ ?_
      · simpa [hthread, ThreadStage.rank] using h.pointer
      · exact fun _ => h.outside (by simp [hthread, ThreadStage.rank])
      · exact fun _ _ => hfree
      · simp [ThreadStage.rank]
  | publish =>
      have hthread : w.thread = .publishing := hen
      have hfree := h.free (by simp [hthread, ThreadStage.rank]) (by simp [hthread])
      have hne : w.thread ≠ .none := by simp [hthread]
      cases hw
      -- the owner is notified in the section that sets the pointer
      have howner : Lived { w with owner := w.owner.notifyOne } := by
        rcases w.owner.notifyOne_cases with heq | ⟨-, heq⟩
        · rw [heq]
          exact h
        · rw [heq]
          exact h.withOwner hne (by simp) (by simp) (by simp) (by simp [OwnerStage.past])
            h.returned h.null (by simp) (by simp)
      refine howner.withThread hne (by simp [hthread, ThreadStage.rank]) ?_ ?_ ?_ ?_ ?_
      · simp [ThreadStage.rank]
      · exact fun _ => w.owner.notifyOne_ne
      · exact fun _ => h.outside (by simp [hthread, ThreadStage.rank])
      · exact fun _ _ => hfree
      · simp [ThreadStage.rank]
  | enterLoop =>
      obtain ⟨hthread, hphase, hfree⟩ := hen
      cases hw
      exact { h with
        pointer := by simpa [hthread, ThreadStage.rank] using h.pointer
        unstarted := fun hc => by
          rw [h.unstarted hc] at hthread
          cases hthread
        started := by simp
        outside := by simp [ThreadStage.rank]
        free := by simp [ThreadStage.rank]
        quit := by simp [FunctorQueue.step]
        reading := by simp [ThreadStage.rank]
        result := fun hpast _ => h.result hpast (by simp [hthread])
        returned := by simp [ThreadStage.rank]
        null := by
          intro hres
          have hrank := h.null hres
          simp [hthread, ThreadStage.rank] at hrank
        told := by
          intro hjoining
          exact (h.told hjoining).step (l := .loop) ⟨hphase, hfree⟩ }
  | clear =>
      obtain ⟨hthread, hphase⟩ := hen
      cases hw
      refine h.withThread (by simp [hthread]) (by simp [hthread, ThreadStage.rank]) ?_ ?_ ?_ ?_ ?_
      · simp [ThreadStage.rank]
      · simp
      · exact fun _ => hphase
      · simp [ThreadStage.rank]
      · exact fun _ _ => h.quit hphase (by simp [hthread, ThreadStage.rank])
  | destructLoop =>
      have hthread : w.thread = .cleared := hen
      simp only [EventLoopThread.step] at hw
      split at hw
      · rename_i hquit
        cases hw
        refine h.withThread (by simp [hthread]) (by simp [hthread, ThreadStage.rank]) ?_
          h.notified ?_ ?_ ?_
        · simpa [hthread, ThreadStage.rank] using h.pointer
        · exact fun _ => h.outside (by simp [hthread, ThreadStage.rank])
        · simp [ThreadStage.rank]
        · exact fun _ _ => hquit
      · cases hw
  | queue l =>
      simp only [EventLoopThread.step] at hw
      split at hw
      · cases hw
        exact h.queue hen.1 hen.2
      · cases hw
  | testLoop =>
      simp only [EventLoopThread.step] at hw
      split at hw
      · rename_i hset
        have hrank := h.pointer.mp hset
        have hthread : w.thread ≠ .none := by
          intro hnone
          simp [hnone, ThreadStage.rank] at hrank
        have hresult : w.result.isSome = true := by
          rcases hen with howner | ⟨howner, -⟩
          · exact absurd (h.unstarted howner) hthread
          · exact h.result (by simp [howner, OwnerStage.past]) hthread
        cases hw
        exact h.withOwner hthread (by simp) (by simp) (by simp) (fun _ => hresult) h.returned h.null
          (by simp) (by simp)
      · split at hw
        · rename_i hnone
          cases hw
          exact { h with
            unstarted := by simp
            started := by simp
            notified := by simp
            reading := by simp
            result := fun _ hc => absurd hnone hc
            stored := by simp
            told := by simp }
        · cases hw
  | loadLoop =>
      have howner : w.owner = .destructing := hen
      have hthread := h.thread_ne (by simp [howner]) (by simp [howner])
      have hresult := h.result (by simp [howner, OwnerStage.past]) hthread
      simp only [EventLoopThread.step] at hw
      split at hw
      · cases hw
        exact h.withOwner hthread (by simp) (by simp) (by simp) (fun _ => hresult) h.returned h.null
          (by simp) (by simp)
      · cases hw
  | storeQuit =>
      have howner : w.owner = .calling := hen
      have hthread := h.thread_ne (by simp [howner]) (by simp [howner])
      have hresult := h.result (by simp [howner, OwnerStage.past]) hthread
      simp only [EventLoopThread.step] at hw
      split at hw
      · cases hw
        exact (h.ownerCall (.inl rfl) (by simp [howner])).withOwner hthread (by simp) (by simp)
          (by simp) (fun _ => hresult) h.returned h.null (fun _ => rfl) (by simp)
      · cases hw
  | wakeup =>
      have howner : w.owner = .quitting := hen
      have hthread := h.thread_ne (by simp [howner]) (by simp [howner])
      have hresult := h.result (by simp [howner, OwnerStage.past]) hthread
      simp only [EventLoopThread.step] at hw
      split at hw
      · cases hw
        refine (h.ownerCall (.inr rfl) (by simp [howner])).withOwner hthread (by simp) (by simp)
          (by simp) (fun _ => hresult) h.returned h.null (by simp) ?_
        exact fun _ => ⟨h.stored howner, fun _ => Nat.succ_pos _⟩
      · cases hw
  | join =>
      obtain ⟨howner, hfinished⟩ := hen
      have hthread : w.thread ≠ .none := by simp [hfinished]
      have hresult := h.result (by simp [howner, OwnerStage.past]) hthread
      cases hw
      exact h.withOwner hthread (by simp) (by simp) (by simp) (fun _ => hresult) h.returned h.null
        (by simp) (by simp)

theorem lived {owner t : Tid} (hne : owner ≠ t) {initCallback : Bool}
    {ls : List (EventLoopThreadLabel Tid F)}
    (hrun : eventLoopThread.Run (init initCallback owner t) ls w) : Lived w :=
  hrun.invariant (lived_init hne initCallback) fun _ _ _ h hstep => h.step hstep.1 hstep.2

end EventLoopThread

end Ham.Net
