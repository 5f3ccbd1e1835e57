import Ham.Net.FunctorQueue

/-!
# No lost wakeup

While the loop sleeps in `Epoller::wait`, work that is waiting for it has been
announced: the counter of `wakeup_fd_` is positive, or a thread stands between
its enqueue (or its store to `quit_`) and its `write`.

The counter goes back to `0` in `handleWakeupFd`, ahead of the swap and of the
next test of `quit_`. So an announcement may be taken away only in a phase
that still looks at the work (`LoopPhase.drains`), and what the loop thread
itself enqueues goes unannounced only there.
-/

namespace Ham.Net

open Ham.Lib

variable {Tid F : Type}

/-- The loop gets to the swap before it gets to `Epoller::wait`. -/
def LoopPhase.drains : LoopPhase F → Bool
  | .handling _ | .entering => true
  | _ => false

/-- The loop is in `doPendingFunctors`. -/
def LoopPhase.inRound : LoopPhase F → Bool
  | .entering | .functors _ => true
  | _ => false

/-- User code runs on the loop thread in this phase. -/
def LoopPhase.userCode : LoopPhase F → Bool
  | .outside | .handling _ | .functors _ => true
  | _ => false

namespace FunctorQueue

/-- The loop thread enqueues only from inside of `loop()`, that is, from event
handlers and functors. -/
def FromLoop (q : FunctorQueue Tid F) : QueueLabel Tid F → Prop
  | .queueInLoop t _ => t = q.threadId_ → q.phase ≠ .outside
  | _ => True

/-- The eventfd is readable, or a thread is about to make it so. -/
def Announced (q : FunctorQueue Tid F) : Prop := 0 < q.wakeupFd ∨ q.waking ≠ []

structure Awake (q : FunctorQueue Tid F) : Prop where
  /-- The loop thread owes a `write`, or is in a call, only where user code
  runs. -/
  free : q.phase.userCode = false → q.Free
  calling : q.phase.inRound = true → q.callingPendingFunctors_ = true
  pending : q.pendingFunctors_ ≠ [] → q.phase.drains = false → q.Announced
  quitting : q.quit_ = true → q.phase = .waiting → q.Announced

variable {q q' : FunctorQueue Tid F} {l : QueueLabel Tid F} {t : Tid}

theorem awake_init (t : Tid) : Awake (init t : FunctorQueue Tid F) where
  free := by simp [init, LoopPhase.userCode]
  calling := by simp [init, LoopPhase.inRound]
  pending := by simp [init]
  quitting := by simp [init]

/-- In a phase without user code the loop thread makes no calls. -/
theorem Awake.canCall (h : Awake q) (hcall : q.CanCall q.threadId_) :
    q.phase.userCode = true := by
  by_contra huser
  obtain ⟨hstack, -⟩ := h.free (by simpa using huser)
  rcases hcall.2 rfl with hin | hphase | ⟨wakeup, hphase⟩
  · exact hin hstack
  · exact huser (by rw [hphase]; rfl)
  · exact huser (by rw [hphase]; rfl)

/-- Another thread announces what it has done. -/
theorem Awake.other (h : Awake q) (ht : t ≠ q.threadId_) {pending : List F} {quit : Bool}
    {enqueued : List F} :
    Awake { q with
      pendingFunctors_ := pending, quit_ := quit, enqueued := enqueued
      waking := t :: q.waking } where
  free := by
    intro huser
    obtain ⟨hstack, hwaking⟩ := h.free huser
    refine ⟨hstack, ?_⟩
    simp [hwaking, Ne.symm ht]
  calling := h.calling
  pending := by simp [FunctorQueue.Announced]
  quitting := by simp [FunctorQueue.Announced]

/-- A call on the loop thread. -/
theorem Awake.callFunctor (h : Awake q) (huser : q.phase.userCode = true) (t : Tid) (f : F)
    (queued : Bool) : Awake (q.callFunctor t f queued) where
  free := by
    intro hno
    have hno : q.phase.userCode = false := hno
    simp [huser] at hno
  calling := h.calling
  pending := h.pending
  quitting := h.quitting

variable [DecidableEq Tid]

theorem Awake.queueInLoop (h : Awake q) (hcall : q.CanCall t) (f : F)
    (hloop : t = q.threadId_ → q.phase ≠ .outside) : Awake (q.queueInLoop t f) := by
  by_cases ht : t = q.threadId_
  · subst ht
    have huser := h.canCall hcall
    refine ⟨?_, h.calling, ?_, ?_⟩
    · intro hno
      exact absurd huser (by rw [show q.phase.userCode = false from hno]; simp)
    · -- in a handler the swap is still to come; in a functor the thread wakes itself
      intro _ hdrains
      have hdrains : q.phase.drains = false := hdrains
      cases hphase : q.phase with
      | outside => exact absurd hphase (hloop rfl)
      | functors batch =>
          have hcalling := h.calling (by rw [hphase]; rfl)
          simp [FunctorQueue.Announced, FunctorQueue.queueInLoop, hcalling]
      | _ => simp [hphase, LoopPhase.drains, LoopPhase.userCode] at hdrains huser
    · intro _ hwaiting
      have hwaiting : q.phase = .waiting := hwaiting
      simp [hwaiting, LoopPhase.userCode] at huser
  · have hq : q.queueInLoop t f = { q with
        pendingFunctors_ := q.pendingFunctors_ ++ [f], quit_ := q.quit_
        enqueued := q.enqueued ++ [f], waking := t :: q.waking } := by
      simp [FunctorQueue.queueInLoop, isInLoopThread, ht]
    rw [hq]
    exact h.other ht

theorem Awake.quit (h : Awake q) (hcall : q.CanCall t) : Awake (q.quit t) := by
  by_cases ht : t = q.threadId_
  · subst ht
    have huser := h.canCall hcall
    have hq : q.quit q.threadId_ = { q with quit_ := true } := by
      simp [FunctorQueue.quit, isInLoopThread]
    rw [hq]
    refine ⟨h.free, h.calling, h.pending, ?_⟩
    -- the loop thread is not in `Epoller::wait`, and tests `quit_` before it is there again
    intro _ hwaiting
    have hwaiting : q.phase = .waiting := hwaiting
    simp [hwaiting, LoopPhase.userCode] at huser
  · have hq : q.quit t = { q with
        pendingFunctors_ := q.pendingFunctors_, quit_ := true
        enqueued := q.enqueued, waking := t :: q.waking } := by
      simp [FunctorQueue.quit, isInLoopThread, ht]
    rw [hq]
    exact h.other ht

theorem Awake.step (h : Awake q) (hen : q.Enabled l) (hloop : q.FromLoop l) :
    Awake (q.step l) := by
  cases l with
  | loop =>
      obtain ⟨hphase, hfree⟩ := hen
      exact ⟨fun _ => hfree, by simp [FunctorQueue.step, LoopPhase.inRound],
        fun hne _ => h.pending hne (by rw [hphase]; rfl), by simp [FunctorQueue.step]⟩
  | test =>
      have hphase : q.phase = .test := hen
      have hpending := fun hne => h.pending hne (by rw [hphase]; rfl)
      refine ⟨fun _ => h.free (by rw [hphase]; rfl), ?_, fun hne _ => hpending hne, ?_⟩
      · cases hquit : q.quit_ <;> simp [FunctorQueue.step, LoopPhase.inRound, hquit]
      · intro hquit hwaiting
        have hquit : q.quit_ = true := hquit
        simp [FunctorQueue.step, hquit] at hwaiting
  | poll wakeup =>
      exact ⟨by simp [FunctorQueue.step, LoopPhase.userCode],
        by simp [FunctorQueue.step, LoopPhase.inRound],
        by simp [FunctorQueue.step, LoopPhase.drains], by simp [FunctorQueue.step]⟩
  | handleWakeupFd =>
      -- the counter is lost where the swap is still to come
      exact ⟨by simp [FunctorQueue.step, FunctorQueue.handleWakeupFd, LoopPhase.userCode],
        by simp [FunctorQueue.step, FunctorQueue.handleWakeupFd, LoopPhase.inRound],
        by simp [FunctorQueue.step, FunctorQueue.handleWakeupFd, LoopPhase.drains],
        by simp [FunctorQueue.step, FunctorQueue.handleWakeupFd]⟩
  | endEvents =>
      exact ⟨fun _ => hen.2, fun _ => rfl, by simp [FunctorQueue.step, LoopPhase.drains],
        by simp [FunctorQueue.step]⟩
  | swap =>
      have hphase : q.phase = .entering := hen
      exact ⟨by simp [FunctorQueue.step, LoopPhase.userCode],
        fun _ => h.calling (by rw [hphase]; rfl), by simp [FunctorQueue.step],
        by simp [FunctorQueue.step]⟩
  | call =>
      obtain ⟨⟨f, rest, hphase⟩, hfree⟩ := hen
      have hstep : q.step .call =
          { q with phase := .functors rest }.callFunctor q.threadId_ f true := by
        simp [FunctorQueue.step, hphase]
      rw [hstep]
      refine callFunctor ⟨?_, ?_, ?_, ?_⟩ rfl q.threadId_ f true
      · exact fun _ => hfree
      · exact fun _ => h.calling (by rw [hphase]; rfl)
      · exact fun hne _ => h.pending hne (by rw [hphase]; rfl)
      · simp
  | ret =>
      refine ⟨fun huser => ?_, h.calling, h.pending, h.quitting⟩
      exact absurd (h.free huser).1 hen.1
  | endRound =>
      obtain ⟨hphase, hfree⟩ := hen
      exact ⟨fun _ => hfree, by simp [FunctorQueue.step, LoopPhase.inRound],
        fun hne _ => h.pending hne (by rw [hphase]; rfl), by simp [FunctorQueue.step]⟩
  | queueInLoop t f => exact h.queueInLoop hen f hloop
  | runInLoop t f =>
      by_cases ht : t = q.threadId_
      · subst ht
        have hstep : q.step (.runInLoop q.threadId_ f) = q.callFunctor q.threadId_ f false := by
          simp [FunctorQueue.step, FunctorQueue.runInLoop, isInLoopThread]
        rw [hstep]
        exact h.callFunctor (h.canCall hen) q.threadId_ f false
      · have hstep : q.step (.runInLoop t f) = q.queueInLoop t f := by
          simp [FunctorQueue.step, FunctorQueue.runInLoop, isInLoopThread, ht]
        rw [hstep]
        exact h.queueInLoop hen f fun heq => absurd heq ht
  | quit t => exact h.quit hen
  | wakeup t =>
      refine ⟨fun huser => ?_, h.calling, ?_, ?_⟩
      · obtain ⟨hstack, hwaking⟩ := h.free huser
        exact ⟨hstack, fun hin => hwaking (List.mem_of_mem_erase hin)⟩
      · exact fun _ _ => .inl (Nat.succ_pos q.wakeupFd)
      · exact fun _ _ => .inl (Nat.succ_pos q.wakeupFd)

end FunctorQueue

open FunctorQueue

/-- For every interleaving of the loop with the threads that call it: a loop in
`Epoller::wait` with functors pending, or told to quit, has a readable eventfd
or is about to be woken by another thread. -/
theorem no_lost_wakeup [DecidableEq Tid] {t : Tid} {ls : List (QueueLabel Tid F)}
    {q : FunctorQueue Tid F} (hrun : (functorQueue.restrict FromLoop).Run (init t) ls q)
    (hwaiting : q.phase = .waiting) (hwork : q.pendingFunctors_ ≠ [] ∨ q.quit_ = true) :
    0 < q.wakeupFd ∨ ∃ t' ∈ q.waking, t' ≠ q.threadId_ := by
  have hawake : Awake q := by
    apply hrun.invariant (awake_init t)
    intro q l q' h hstep
    obtain ⟨⟨hen, hq'⟩, hloop⟩ := System.restrict_step.mp hstep
    have hq' : q' = q.step l := (Except.ok.inj hq').symm
    subst hq'
    exact h.step hen hloop
  have hfree : q.Free := hawake.free (by rw [hwaiting]; rfl)
  have hannounced : q.Announced := by
    rcases hwork with hpending | hquit
    · exact hawake.pending hpending (by rw [hwaiting]; rfl)
    · exact hawake.quitting hquit hwaiting
  rcases hannounced with hcounter | hwaking
  · exact .inl hcounter
  · obtain ⟨t', ht'⟩ := List.exists_mem_of_ne_nil _ hwaking
    exact .inr ⟨t', ht', fun heq => hfree.2 (heq ▸ ht')⟩

/-- A functor enqueued behind `handleWakeupFd` and ahead of the swap runs in
this round, and its late `write` wakes the loop once more; one enqueued in
`Epoller::wait` is announced by its thread. -/
theorem no_lost_wakeup_late :
    ∃ (ls : List (QueueLabel Nat Char)) (q : FunctorQueue Nat Char),
      (functorQueue.restrict FromLoop).Run (init 0) ls q ∧ q.phase = .waiting ∧
      q.pendingFunctors_ = ['b'] ∧ (0 < q.wakeupFd ∨ ∃ t' ∈ q.waking, t' ≠ q.threadId_) := by
  have hrun : ∃ q : FunctorQueue Nat Char, (functorQueue.restrict FromLoop).Run (init 0)
      [.loop, .test, .poll false, .queueInLoop 1 'a', .endEvents, .swap, .call, .ret, .wakeup 1,
        .endRound, .test, .poll true, .handleWakeupFd, .endEvents, .swap, .endRound, .test,
        .queueInLoop 2 'b'] q ∧ q.phase = .waiting ∧ q.pendingFunctors_ = ['b'] := by
    refine ⟨_, .cons ⟨⟨?_, ?_⟩, rfl⟩ (.cons ⟨⟨?_, ?_⟩, rfl⟩ (.cons ⟨⟨?_, ?_⟩, rfl⟩
      (.cons ⟨⟨?_, ?_⟩, rfl⟩ (.cons ⟨⟨?_, ?_⟩, rfl⟩ (.cons ⟨⟨?_, ?_⟩, rfl⟩
      (.cons ⟨⟨?_, ?_⟩, rfl⟩ (.cons ⟨⟨?_, ?_⟩, rfl⟩ (.cons ⟨⟨?_, ?_⟩, rfl⟩
      (.cons ⟨⟨?_, ?_⟩, rfl⟩ (.cons ⟨⟨?_, ?_⟩, rfl⟩ (.cons ⟨⟨?_, ?_⟩, rfl⟩
      (.cons ⟨⟨?_, ?_⟩, rfl⟩ (.cons ⟨⟨?_, ?_⟩, rfl⟩ (.cons ⟨⟨?_, ?_⟩, rfl⟩
      (.cons ⟨⟨?_, ?_⟩, rfl⟩ (.cons ⟨⟨?_, ?_⟩, rfl⟩ (.cons ⟨⟨?_, ?_⟩, rfl⟩
      (.nil _)))))))))))))))))), rfl, rfl⟩
    all_goals first
      | trivial
      | exact ⟨by decide, fun h => absurd h (by decide)⟩
      | exact fun h => absurd h (by decide)
      | exact ⟨⟨_, _, rfl⟩, rfl, by decide⟩
      | exact List.mem_cons_self
  obtain ⟨q, hrun, hwaiting, hpending⟩ := hrun
  exact ⟨_, q, hrun, hwaiting, hpending,
    no_lost_wakeup hrun hwaiting (.inl (by rw [hpending]; simp))⟩

end Ham.Net
