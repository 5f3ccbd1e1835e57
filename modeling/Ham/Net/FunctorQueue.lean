import Ham.Lib.Run
import Ham.Base.Types

/-!
# The functor queue of an event loop

`EventLoop::queueInLoop`, `runInLoop`, `quit`, `wakeup` and the loop that
swaps and runs the queue, for any number of threads and any type of functors.
Each critical section, each store to `quit_` and each `write` to the eventfd is
a step of its own. What a functor does is left open: while one runs, the loop
thread may make any calls, and a `runInLoop` on the loop thread runs its
functor inside (`stack`).

`calls` and `enqueued` are kept for the statements: which functors have been
called, and which have gone into `pendingFunctors_`. The law of the queue is
`Ordered`: what has been called from the queue, what the round has still to
call and what is pending are, one after the other, what has been enqueued.
-/

namespace Ham.Net

open Ham.Lib

variable {Tid F : Type}

/-- Where the loop thread stands in `EventLoop::loop`. -/
inductive LoopPhase (F : Type) where
  /-- Before `loop()`, or behind it. -/
  | outside
  /-- At `while(!quit_)`. -/
  | test
  /-- In `Epoller::wait`. -/
  | waiting
  /-- In the handlers of the active channels; `wakeup` while the one of
  `wakeupChannel_` is still to come. -/
  | handling (wakeup : Bool)
  /-- In `doPendingFunctors`, before the swap. -/
  | entering
  /-- Behind the swap, with the functors still to call. -/
  | functors (batch : List F)

/-- One call of a functor: by which thread, and whether it came out of the
queue or straight from `runInLoop`. -/
structure FunctorCall (Tid F : Type) where
  thread : Tid
  functor : F
  queued : Bool

structure FunctorQueue (Tid F : Type) where
  threadId_ : Tid
  quit_ : Bool := false
  callingPendingFunctors_ : Bool := false
  pendingFunctors_ : List F := []
  phase : LoopPhase F := .outside
  /-- The calls the loop thread is in, the innermost first. -/
  stack : List F := []
  /-- The counter of `wakeup_fd_`. -/
  wakeupFd : Nat := 0
  /-- The threads between an enqueue or a store to `quit_` and their `wakeup()`. -/
  waking : List Tid := []
  calls : List (FunctorCall Tid F) := []
  enqueued : List F := []

inductive QueueLabel (Tid F : Type) where
  /-- `loop()` is called. -/
  | loop
  | test
  | poll (wakeup : Bool)
  | handleWakeupFd
  | endEvents
  | swap
  /-- The next functor of the round. -/
  | call
  /-- The innermost call returns. -/
  | ret
  | endRound
  | queueInLoop (t : Tid) (f : F)
  | runInLoop (t : Tid) (f : F)
  | quit (t : Tid)
  /-- The `write` a thread owes. -/
  | wakeup (t : Tid)

namespace FunctorQueue

variable (q : FunctorQueue Tid F)

/-- The rest of the functors `doPendingFunctors` has swapped out. -/
def batch : List F :=
  match q.phase with
  | .functors batch => batch
  | _ => []

/-- The functors that have been called out of the queue. -/
def executed : List F := (q.calls.filter (·.queued)).map (·.functor)

section

variable [DecidableEq Tid]

def isInLoopThread (t : Tid) : Bool := t = q.threadId_

/-- The call of a functor on thread `t`. -/
def callFunctor (t : Tid) (f : F) (queued : Bool) : FunctorQueue Tid F :=
  { q with stack := f :: q.stack, calls := q.calls ++ [⟨t, f, queued⟩] }

/-- `queueInLoop`: the critical section, and the test that decides whether
`wakeup()` follows. -/
def queueInLoop (t : Tid) (f : F) : FunctorQueue Tid F :=
  { q with
    pendingFunctors_ := q.pendingFunctors_ ++ [f]
    enqueued := q.enqueued ++ [f]
    waking := if ¬ q.isInLoopThread t ∨ q.callingPendingFunctors_ then t :: q.waking
      else q.waking }

def runInLoop (t : Tid) (f : F) : FunctorQueue Tid F :=
  if q.isInLoopThread t then q.callFunctor t f false else q.queueInLoop t f

/-- `quit`, up to `wakeup()`. -/
def quit (t : Tid) : FunctorQueue Tid F :=
  { q with
    quit_ := true
    waking := if ¬ q.isInLoopThread t then t :: q.waking else q.waking }

/-- `write` of `1` to the eventfd. -/
def wakeup (t : Tid) : FunctorQueue Tid F :=
  { q with wakeupFd := q.wakeupFd + 1, waking := q.waking.erase t }

/-- `read` of the eventfd, which sets the counter to `0`. -/
def handleWakeupFd : FunctorQueue Tid F := { q with wakeupFd := 0, phase := .handling false }

def step : QueueLabel Tid F → FunctorQueue Tid F
  | .loop => { q with phase := .test }
  | .test => { q with phase := if q.quit_ then .outside else .waiting }
  | .poll wakeup => { q with phase := .handling wakeup }
  | .handleWakeupFd => q.handleWakeupFd
  | .endEvents => { q with phase := .entering, callingPendingFunctors_ := true }
  | .swap => { q with phase := .functors q.pendingFunctors_, pendingFunctors_ := [] }
  | .call =>
      match q.phase with
      | .functors (f :: batch) => { q with phase := .functors batch }.callFunctor q.threadId_ f true
      | _ => q
  | .ret => { q with stack := q.stack.tail }
  | .endRound => { q with phase := .test, callingPendingFunctors_ := false }
  | .queueInLoop t f => q.queueInLoop t f
  | .runInLoop t f => q.runInLoop t f
  | .quit t => q.quit t
  | .wakeup t => q.wakeup t

end

/-- The loop thread goes on in `loop()`: it is in no functor and owes no
`write`. -/
def Free : Prop := q.stack = [] ∧ q.threadId_ ∉ q.waking

/-- User code can be running on the thread: on the loop thread in a functor, in
a handler, or outside of `loop()`. -/
def CanCall (t : Tid) : Prop :=
  t ∉ q.waking ∧
  (t = q.threadId_ → q.stack ≠ [] ∨ q.phase = .outside ∨ ∃ wakeup, q.phase = .handling wakeup)

def Enabled : QueueLabel Tid F → Prop
  | .loop => q.phase = .outside ∧ q.Free
  | .test => q.phase = .test
  | .poll wakeup => q.phase = .waiting ∧ (wakeup = true → 0 < q.wakeupFd)
  | .handleWakeupFd => q.phase = .handling true ∧ q.Free
  | .endEvents => q.phase = .handling false ∧ q.Free
  | .swap => q.phase = .entering
  | .call => (∃ f batch, q.phase = .functors (f :: batch)) ∧ q.Free
  | .ret => q.stack ≠ [] ∧ q.threadId_ ∉ q.waking
  | .endRound => q.phase = .functors [] ∧ q.Free
  | .queueInLoop t _ | .runInLoop t _ | .quit t => q.CanCall t
  | .wakeup t => t ∈ q.waking

end FunctorQueue

/-- The loop and the threads that call it. -/
def functorQueue [DecidableEq Tid] : System (FunctorQueue Tid F) (QueueLabel Tid F) Fault where
  enabled := FunctorQueue.Enabled
  step q l := .ok (q.step l)

namespace FunctorQueue

/-- A new loop of the thread `t`. -/
def init (t : Tid) : FunctorQueue Tid F where
  threadId_ := t

variable {q q' : FunctorQueue Tid F} {l : QueueLabel Tid F} {t : Tid}

/-! ## What a step does to the queue -/

/-- What a step can do to the functors. -/
inductive Moves (q q' : FunctorQueue Tid F) : QueueLabel Tid F → Prop
  /-- Nothing is enqueued, swapped or called. -/
  | idle {l : QueueLabel Tid F} (calls : q'.calls = q.calls) (batch : q'.batch = q.batch)
      (pending : q'.pendingFunctors_ = q.pendingFunctors_) (enqueued : q'.enqueued = q.enqueued)
      (swap : l ≠ .swap) : Moves q q' l
  | swap (calls : q'.calls = q.calls) (before : q.batch = []) (batch : q'.batch = q.pendingFunctors_)
      (pending : q'.pendingFunctors_ = []) (enqueued : q'.enqueued = q.enqueued) : Moves q q' .swap
  | call (f : F) (calls : q'.calls = q.calls ++ [⟨q.threadId_, f, true⟩])
      (batch : q.batch = f :: q'.batch) (pending : q'.pendingFunctors_ = q.pendingFunctors_)
      (enqueued : q'.enqueued = q.enqueued) : Moves q q' .call
  | enqueue {l : QueueLabel Tid F} (f : F) (calls : q'.calls = q.calls) (batch : q'.batch = q.batch)
      (pending : q'.pendingFunctors_ = q.pendingFunctors_ ++ [f])
      (enqueued : q'.enqueued = q.enqueued ++ [f]) (swap : l ≠ .swap) : Moves q q' l
  | inside (f : F) (calls : q'.calls = q.calls ++ [⟨q.threadId_, f, false⟩])
      (batch : q'.batch = q.batch) (pending : q'.pendingFunctors_ = q.pendingFunctors_)
      (enqueued : q'.enqueued = q.enqueued) : Moves q q' (.runInLoop q.threadId_ f)

/-! ## The law of the queue -/

structure Ordered (q : FunctorQueue Tid F) : Prop where
  /-- Functors are called by the loop thread. -/
  thread : ∀ call ∈ q.calls, call.thread = q.threadId_
  /-- Called, still to be called in this round, and pending: what was enqueued. -/
  order : q.executed ++ q.batch ++ q.pendingFunctors_ = q.enqueued

theorem ordered_init (t : Tid) : Ordered (init t : FunctorQueue Tid F) where
  thread := by
    intro call hcall
    cases hcall
  order := rfl

theorem executed_append (calls : List (FunctorCall Tid F)) (call : FunctorCall Tid F)
    (h : q'.calls = calls ++ [call]) :
    q'.executed = (calls.filter (·.queued)).map (·.functor) ++
      if call.queued then [call.functor] else [] := by
  rw [executed, h, List.filter_append, List.map_append]
  congr 1
  cases hq : call.queued <;> simp [hq]

/-- What a step adds to the calls out of the queue comes off the batch. -/
theorem Moves.executed (h : Moves q q' l) (hl : l ≠ .swap) :
    q'.executed ++ q'.batch = q.executed ++ q.batch := by
  -- a call moves the head of the batch to the executed ones; a nested call counts for neither
  cases h with
  | idle calls batch pending enqueued swap =>
      rw [FunctorQueue.executed, calls, batch]
      rfl
  | swap => exact absurd rfl hl
  | call f calls batch pending enqueued =>
      rw [executed_append _ _ calls, batch]
      simp [FunctorQueue.executed]
  | enqueue f calls batch pending enqueued swap =>
      rw [FunctorQueue.executed, calls, batch]
      rfl
  | inside f calls batch pending enqueued =>
      rw [executed_append _ _ calls, batch]
      simp [FunctorQueue.executed]

/-- What a step enqueues it adds behind what is pending. -/
theorem Moves.pending (h : Moves q q' l) (hl : l ≠ .swap) :
    ∃ new, q'.pendingFunctors_ = q.pendingFunctors_ ++ new ∧ q'.enqueued = q.enqueued ++ new := by
  cases h with
  | idle calls batch pending enqueued swap =>
      exact ⟨[], by rw [pending, List.append_nil], by rw [enqueued, List.append_nil]⟩
  | swap => exact absurd rfl hl
  | call f calls batch pending enqueued =>
      exact ⟨[], by rw [pending, List.append_nil], by rw [enqueued, List.append_nil]⟩
  | enqueue f calls batch pending enqueued swap => exact ⟨[f], pending, enqueued⟩
  | inside f calls batch pending enqueued =>
      exact ⟨[], by rw [pending, List.append_nil], by rw [enqueued, List.append_nil]⟩

theorem Moves.thread (h : Moves q q' l) (hq : ∀ call ∈ q.calls, call.thread = q.threadId_) :
    ∀ call ∈ q'.calls, call.thread = q.threadId_ := by
  have hadd : ∀ f queued, q'.calls = q.calls ++ [⟨q.threadId_, f, queued⟩] →
      ∀ call ∈ q'.calls, call.thread = q.threadId_ := by
    intro f queued hcalls call hcall
    rw [hcalls] at hcall
    rcases List.mem_append.mp hcall with hcall | hcall
    · exact hq call hcall
    · rw [List.mem_singleton.mp hcall]
  cases h with
  | idle calls =>
      rw [calls]
      exact hq
  | swap calls =>
      rw [calls]
      exact hq
  | call f calls => exact hadd f true calls
  | enqueue f calls =>
      rw [calls]
      exact hq
  | inside f calls => exact hadd f false calls

variable [DecidableEq Tid]

theorem step_threadId (q : FunctorQueue Tid F) (l : QueueLabel Tid F) :
    (q.step l).threadId_ = q.threadId_ := by
  cases l with
  | call =>
      simp only [step]
      split <;> rfl
  | runInLoop t f =>
      simp only [step, runInLoop]
      split <;> rfl
  | _ => rfl

theorem step_moves (hen : q.Enabled l) : Moves q (q.step l) l := by
  cases l with
  | loop =>
      refine .idle rfl ?_ rfl rfl (by simp)
      simp [batch, step, hen.1]
  | test =>
      have hphase : q.phase = .test := hen
      refine .idle rfl ?_ rfl rfl (by simp)
      cases hquit : q.quit_ <;> simp [batch, step, hphase, hquit]
  | poll wakeup =>
      refine .idle rfl ?_ rfl rfl (by simp)
      simp [batch, step, hen.1]
  | handleWakeupFd =>
      refine .idle rfl ?_ rfl rfl (by simp)
      simp [batch, step, handleWakeupFd, hen.1]
  | endEvents =>
      refine .idle rfl ?_ rfl rfl (by simp)
      simp [batch, step, hen.1]
  | swap =>
      have hphase : q.phase = .entering := hen
      exact .swap rfl (by simp [batch, hphase]) rfl rfl rfl
  | call =>
      obtain ⟨⟨f, rest, hphase⟩, -⟩ := hen
      have hstep : q.step .call =
          { q with phase := .functors rest }.callFunctor q.threadId_ f true := by
        simp [step, hphase]
      rw [hstep]
      exact .call f rfl (by simp [batch, callFunctor, hphase]) rfl rfl
  | ret => exact .idle rfl rfl rfl rfl (by simp)
  | endRound =>
      refine .idle rfl ?_ rfl rfl (by simp)
      simp [batch, step, hen.1]
  | queueInLoop t f => exact .enqueue f rfl rfl rfl rfl (by simp)
  | runInLoop t f =>
      by_cases ht : t = q.threadId_
      · subst ht
        have hstep : q.step (.runInLoop q.threadId_ f) = q.callFunctor q.threadId_ f false := by
          simp [step, runInLoop, isInLoopThread]
        rw [hstep]
        exact .inside f rfl rfl rfl rfl
      · have hstep : q.step (.runInLoop t f) = q.queueInLoop t f := by
          simp [step, runInLoop, isInLoopThread, ht]
        rw [hstep]
        exact .enqueue f rfl rfl rfl rfl (by simp)
  | quit t => exact .idle rfl rfl rfl rfl (by simp)
  | wakeup t => exact .idle rfl rfl rfl rfl (by simp)

theorem Ordered.step (h : Ordered q) (hstep : functorQueue.Step q l q') : Ordered q' := by
  obtain ⟨hen, hq'⟩ := hstep
  have hq' : q' = q.step l := (Except.ok.inj hq').symm
  subst hq'
  have hmoves := step_moves hen
  refine ⟨?_, ?_⟩
  · rw [step_threadId]
    exact hmoves.thread h.thread
  · by_cases hl : l = .swap
    · subst hl
      cases hmoves with
      | idle calls batch pending enqueued swap => exact absurd rfl swap
      | enqueue f calls batch pending enqueued swap => exact absurd rfl swap
      | swap calls before batch pending enqueued =>
          -- what was pending is the batch now, and the last batch has been called
          rw [executed, calls, batch, pending, enqueued, ← h.order, before]
          simp [executed]
    · obtain ⟨new, hpending, henqueued⟩ := hmoves.pending hl
      rw [hmoves.executed hl, hpending, henqueued, ← h.order, List.append_assoc _ _ new]

/-- A stretch of a round, without a swap. -/
theorem Moves.run {ls : List (QueueLabel Tid F)} (hrun : functorQueue.Run q ls q')
    (hswap : .swap ∉ ls) :
    q'.executed ++ q'.batch = q.executed ++ q.batch ∧
    ∃ new, q'.pendingFunctors_ = q.pendingFunctors_ ++ new ∧
      q'.enqueued = q.enqueued ++ new := by
  induction hrun with
  | nil q => exact ⟨rfl, [], (List.append_nil _).symm, (List.append_nil _).symm⟩
  | @cons q q₁ q' l ls hstep _ ih =>
      obtain ⟨hl, hls⟩ := List.ne_and_not_mem_of_not_mem_cons hswap
      have hq₁ : q₁ = q.step l := (Except.ok.inj hstep.2).symm
      subst hq₁
      have hmoves := step_moves hstep.1
      obtain ⟨hexecuted, new, hpending, henqueued⟩ := ih hls
      obtain ⟨new₁, hpending₁, henqueued₁⟩ := hmoves.pending (Ne.symm hl)
      refine ⟨hexecuted.trans (hmoves.executed (Ne.symm hl)), new₁ ++ new, ?_, ?_⟩
      · rw [hpending, hpending₁, List.append_assoc]
      · rw [henqueued, henqueued₁, List.append_assoc]

/-- Between the swap and the end of a round the loop stays in it. -/
theorem functors_step (hen : q.Enabled l) (hphase : ∃ batch, q.phase = .functors batch)
    (hend : l ≠ .endRound) : l ≠ .swap ∧ ∃ batch, (q.step l).phase = .functors batch := by
  obtain ⟨batch, hphase⟩ := hphase
  -- the other steps of the loop belong to other phases
  have hother : ∀ phase, q.phase = phase → (∀ batch, phase ≠ .functors batch) → False := by
    intro phase heq hne
    exact hne batch (heq.symm.trans hphase)
  cases l with
  | loop => exact (hother _ hen.1 (by simp)).elim
  | test => exact (hother _ hen (by simp)).elim
  | poll wakeup => exact (hother _ hen.1 (by simp)).elim
  | handleWakeupFd => exact (hother _ hen.1 (by simp)).elim
  | endEvents => exact (hother _ hen.1 (by simp)).elim
  | swap => exact (hother _ hen (by simp)).elim
  | call =>
      obtain ⟨⟨f, rest, hcall⟩, -⟩ := hen
      exact ⟨by simp, rest, by simp [step, hcall, callFunctor]⟩
  | endRound => exact absurd rfl hend
  | runInLoop t f =>
      refine ⟨by simp, batch, ?_⟩
      simp only [step, runInLoop]
      split <;> exact hphase
  | ret => exact ⟨by simp, batch, hphase⟩
  | queueInLoop t f => exact ⟨by simp, batch, hphase⟩
  | quit t => exact ⟨by simp, batch, hphase⟩
  | wakeup t => exact ⟨by simp, batch, hphase⟩

theorem functors_run {ls : List (QueueLabel Tid F)} (hrun : functorQueue.Run q ls q')
    (hphase : ∃ batch, q.phase = .functors batch) (hend : .endRound ∉ ls) : .swap ∉ ls := by
  induction hrun with
  | nil => simp
  | @cons q q₁ q' l ls hstep _ ih =>
      obtain ⟨hl, hls⟩ := List.ne_and_not_mem_of_not_mem_cons hend
      obtain ⟨hswap, hnext⟩ := functors_step hstep.1 hphase (Ne.symm hl)
      have hq₁ : q₁ = q.step l := (Except.ok.inj hstep.2).symm
      rw [List.mem_cons, not_or]
      exact ⟨Ne.symm hswap, ih (hq₁ ▸ hnext) hls⟩

end FunctorQueue

open FunctorQueue

/-- The queue under any number of threads and any functors: what goes through
it is called by the loop thread, in the order of the enqueues and each once at
most; and at the end of a round all that was pending at its swap has been
called and has returned, and all that was enqueued since is pending. -/
theorem functorQueue_delivers [DecidableEq Tid] {t : Tid} {ls : List (QueueLabel Tid F)}
    {q : FunctorQueue Tid F} (hrun : functorQueue.Run (init t) ls q) :
    (∀ call ∈ q.calls, call.thread = q.threadId_) ∧
    q.executed ++ q.batch ++ q.pendingFunctors_ = q.enqueued ∧
    ∀ q₁ ls' q₂ q₃, functorQueue.Step q .swap q₁ → functorQueue.Run q₁ ls' q₂ →
      .endRound ∉ ls' → functorQueue.Step q₂ .endRound q₃ →
      q₃.executed = q.executed ++ q.pendingFunctors_ ∧ q₃.stack = [] ∧
      q₃.enqueued = q.enqueued ++ q₃.pendingFunctors_ := by
  have hordered : Ordered q := hrun.invariant (ordered_init t) fun _ _ _ h hstep => h.step hstep
  refine ⟨hordered.thread, hordered.order, ?_⟩
  intro q₁ ls' q₂ q₃ hswap hround hend hstep
  have hq₁ : q₁ = q.step .swap := (Except.ok.inj hswap.2).symm
  have hq₃ : q₃ = q₂.step .endRound := (Except.ok.inj hstep.2).symm
  obtain ⟨hdone, hfree⟩ := hstep.1
  subst hq₁ hq₃
  -- up to the end of the round there is no other swap
  obtain ⟨hexecuted, new, hpending, henqueued⟩ :=
    Moves.run hround (functors_run hround ⟨_, rfl⟩ hend)
  have hbatch : q₂.batch = [] := by
    rw [batch, hdone]
  rw [hbatch, List.append_nil] at hexecuted
  refine ⟨hexecuted, hfree.1, ?_⟩
  have hnew : q₂.pendingFunctors_ = new := hpending
  show q₂.enqueued = q.enqueued ++ q₂.pendingFunctors_
  rw [hnew]
  exact henqueued

/-- Two functors of two threads and a third enqueued by the first, through one
round. -/
theorem functorQueue_delivers_reentrant :
    ∃ (ls : List (QueueLabel Nat Char)) (q : FunctorQueue Nat Char),
      functorQueue.Run (init 0) ls q ∧ q.executed = ['a', 'b'] ∧ q.pendingFunctors_ = ['c'] ∧
      ∀ call ∈ q.calls, call.thread = 0 := by
  have hrun : ∃ q : FunctorQueue Nat Char, functorQueue.Run (init 0)
      [.loop, .test, .queueInLoop 1 'a', .runInLoop 2 'b', .wakeup 2, .poll true, .handleWakeupFd,
        .endEvents, .wakeup 1, .swap, .call, .queueInLoop 0 'c', .wakeup 0, .ret, .call, .ret,
        .endRound] q ∧
      q.threadId_ = 0 ∧ q.executed = ['a', 'b'] ∧ q.pendingFunctors_ = ['c'] := by
    refine ⟨_, .cons ⟨?_, rfl⟩ (.cons ⟨?_, rfl⟩ (.cons ⟨?_, rfl⟩ (.cons ⟨?_, rfl⟩ (.cons ⟨?_, rfl⟩
      (.cons ⟨?_, rfl⟩ (.cons ⟨?_, rfl⟩ (.cons ⟨?_, rfl⟩ (.cons ⟨?_, rfl⟩ (.cons ⟨?_, rfl⟩
      (.cons ⟨?_, rfl⟩ (.cons ⟨?_, rfl⟩ (.cons ⟨?_, rfl⟩ (.cons ⟨?_, rfl⟩ (.cons ⟨?_, rfl⟩
      (.cons ⟨?_, rfl⟩ (.cons ⟨?_, rfl⟩ (.nil _))))))))))))))))), rfl, rfl, rfl⟩
    · exact ⟨rfl, rfl, by decide⟩
    · rfl
    · exact ⟨by decide, fun h => absurd h (by decide)⟩
    · exact ⟨by decide, fun h => absurd h (by decide)⟩
    · exact List.mem_cons_self
    · exact ⟨rfl, by decide⟩
    · exact ⟨rfl, rfl, by decide⟩
    · exact ⟨rfl, rfl, by decide⟩
    · exact List.mem_cons_self
    · rfl
    · exact ⟨⟨_, _, rfl⟩, rfl, by decide⟩
    · exact ⟨by decide, fun _ => .inl (by decide)⟩
    · exact List.mem_cons_self
    · exact ⟨by decide, by decide⟩
    · exact ⟨⟨_, _, rfl⟩, rfl, by decide⟩
    · exact ⟨by decide, by decide⟩
    · exact ⟨rfl, rfl, by decide⟩
  obtain ⟨q, hrun, hthread, hexecuted, hpending⟩ := hrun
  refine ⟨_, q, hrun, hexecuted, hpending, ?_⟩
  rw [← hthread]
  exact (functorQueue_delivers hrun).1

end Ham.Net
