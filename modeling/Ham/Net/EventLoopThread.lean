import Ham.Lib.Condition
import Ham.Net.FunctorQueue

/-!
# `EventLoopThread`

A loop on a thread of its own, and the owner that waits for it in `startLoop`
and ends it in the destructor. The loop is the one of `FunctorQueue`, with any
threads calling it through the pointer that `startLoop` has returned; it lives
on the stack of `threadFunc`.

Sections under `mutex_` are single steps. What `startLoop`, `threadFunc` and
the destructor do to `loop_` outside of the mutex is a step for each access:
`return loop_`, `loop_ = nullptr`, and in the destructor the test, the load for
the call of `quit`, the store to `quit_` and the `write` of `wakeup`.
-/

namespace Ham.Net

open Ham.Lib

variable {Tid F : Type}

/-- Where the owner stands. -/
inductive OwnerStage where
  | constructed
  /-- In `startLoop`, at `mutex_`. -/
  | starting (gate : Gate)
  /-- Behind the block of `startLoop`, before `return loop_`. -/
  | reading
  | started
  /-- In the destructor, behind `if(loop_)`. -/
  | destructing
  /-- Behind the load of `loop_` for `loop_->quit()`. -/
  | calling
  /-- Behind `quit_ = true`. -/
  | quitting
  /-- In `thread_.join()`. -/
  | joining
  | destroyed
  deriving DecidableEq, Repr

/-- Where `thread_` stands in `threadFunc`. -/
inductive ThreadStage where
  /-- There is no thread yet. -/
  | none
  | created
  /-- Behind `EventLoop loop`, in `initCallback_` if there is one. -/
  | initCallback
  | publishing
  /-- Behind the block, before `loop.loop()`. -/
  | entering
  | looping
  /-- Behind `loop_ = nullptr`. -/
  | cleared
  /-- Behind `~EventLoop`. -/
  | finished
  deriving DecidableEq, Repr

/-- What ends the process. -/
inductive ThreadFault where
  /-- `assert(quit_)` in `~EventLoop`. -/
  | assertion
  /-- A member function of `EventLoop`, called through a null pointer. -/
  | nullPointer
  /-- The loop is used behind its destruction. -/
  | dangling
  /-- `std::terminate`: a joinable `std::thread` is destroyed. -/
  | terminate
  deriving DecidableEq, Repr

structure EventLoopThread (Tid F : Type) where
  /-- `loop_` is not null. -/
  loop_ : Bool := false
  /-- There is an `initCallback_`. -/
  initCallback_ : Bool
  ownerId : Tid
  owner : OwnerStage := .constructed
  thread : ThreadStage := .none
  /-- What `startLoop` has returned is not null. -/
  result : Option Bool := none
  /-- The object `loop` of `threadFunc`. -/
  loop : FunctorQueue Tid F

inductive EventLoopThreadLabel (Tid F : Type) where
  /-- `startLoop` is called and creates the thread. -/
  | startLoop
  /-- The owner's next section under `mutex_`. -/
  | lock
  | spuriousWakeup
  | returnLoop
  | construct
  | endInit
  | publish
  | enterLoop
  | clear
  | destructLoop
  /-- A step of the loop, or a call of it. -/
  | queue (l : QueueLabel Tid F)
  /-- `~EventLoopThread`, up to `if(loop_)`. -/
  | testLoop
  | loadLoop
  | storeQuit
  | wakeup
  | join

/-- The thread that takes a step of the loop of thread `t`. -/
def QueueLabel.thread (t : Tid) : QueueLabel Tid F → Tid
  | .queueInLoop t' _ | .runInLoop t' _ | .quit t' | .wakeup t' => t'
  | _ => t

/-- The object `loop` exists. -/
def ThreadStage.alive : ThreadStage → Bool
  | .none | .created | .finished => false
  | _ => true

/-- `cond_`, on which the owner waits. -/
def OwnerStage.cond_ : Condition OwnerStage where
  gate
    | .starting gate => some gate
    | _ => none
  pass gate
    | .starting _ => .starting gate
    | s => s
  gate_pass := by
    intro s g h
    cases s with
    | starting => rfl
    | _ => cases h

/-- `cond_.notify_one()`: nobody but the owner waits. -/
def OwnerStage.notifyOne (s : OwnerStage) : OwnerStage :=
  if OwnerStage.cond_.gate s = some .waiting then OwnerStage.cond_.pass .notified s else s

namespace EventLoopThread

section

variable [DecidableEq Tid] (w : EventLoopThread Tid F)

def step : EventLoopThreadLabel Tid F → Except ThreadFault (EventLoopThread Tid F)
  | .startLoop => .ok { w with owner := .starting .entering, thread := .created }
  | .lock => .ok { w with owner := if w.loop_ then .reading else .starting .waiting }
  | .spuriousWakeup => .ok { w with owner := .starting .woken }
  | .returnLoop => .ok { w with owner := .started, result := some w.loop_ }
  | .construct => .ok { w with thread := .initCallback }
  | .endInit => .ok { w with thread := .publishing }
  | .publish => .ok { w with loop_ := true, owner := w.owner.notifyOne, thread := .entering }
  | .enterLoop => .ok { w with thread := .looping, loop := w.loop.step .loop }
  | .clear => .ok { w with loop_ := false, thread := .cleared }
  | .destructLoop =>
      if w.loop.quit_ then .ok { w with thread := .finished } else .error .assertion
  | .queue l =>
      if w.thread.alive then .ok { w with loop := w.loop.step l } else .error .dangling
  | .testLoop =>
      if w.loop_ then .ok { w with owner := .destructing }
      -- the members go, and with them a thread that nobody has joined
      else if w.thread = .none then .ok { w with owner := .destroyed }
      else .error .terminate
  | .loadLoop => if w.loop_ then .ok { w with owner := .calling } else .error .nullPointer
  | .storeQuit =>
      if w.thread.alive then .ok { w with owner := .quitting, loop := w.loop.quit w.ownerId }
      else .error .dangling
  | .wakeup =>
      if w.thread.alive then .ok { w with owner := .joining, loop := w.loop.wakeup w.ownerId }
      else .error .dangling
  | .join => .ok { w with owner := .destroyed }

/-- Who steps or calls the loop: its own thread in `initCallback_` and in
`loop()`; the owner between `startLoop` and the destructor; other threads with
the pointer that `startLoop` has returned. -/
def MayCall (l : QueueLabel Tid F) : Prop :=
  if l.thread w.loop.threadId_ = w.loop.threadId_ then
    l ≠ .loop ∧ (w.thread = .initCallback ∧ w.initCallback_ = true ∨
      w.thread = .looping ∧ w.loop.phase ≠ .outside)
  else
    w.result = some true ∧ (l.thread w.loop.threadId_ = w.ownerId → w.owner = .started)

def Enabled : EventLoopThreadLabel Tid F → Prop
  | .startLoop => w.owner = .constructed
  | .lock => ∃ gate, w.owner = .starting gate ∧ gate ≠ .waiting
  | .spuriousWakeup => w.owner = .starting .waiting
  | .returnLoop => w.owner = .reading
  | .construct => w.thread = .created
  | .endInit => w.thread = .initCallback ∧ w.loop.Free
  | .publish => w.thread = .publishing
  | .enterLoop => w.thread = .entering ∧ w.loop.Enabled .loop
  | .clear => w.thread = .looping ∧ w.loop.phase = .outside
  | .destructLoop => w.thread = .cleared
  | .queue l => w.loop.Enabled l ∧ w.MayCall l
  | .testLoop => w.owner = .constructed ∨ w.owner = .started ∧ w.ownerId ∉ w.loop.waking
  | .loadLoop => w.owner = .destructing
  | .storeQuit => w.owner = .calling
  | .wakeup => w.owner = .quitting
  | .join => w.owner = .joining ∧ w.thread = .finished

end

end EventLoopThread

/-- The owner, its thread, and the threads that use the loop. -/
def eventLoopThread [DecidableEq Tid] :
    System (EventLoopThread Tid F) (EventLoopThreadLabel Tid F) ThreadFault where
  enabled := EventLoopThread.Enabled
  step := EventLoopThread.step

namespace FunctorQueue

variable {q q' : FunctorQueue Tid F} {l : QueueLabel Tid F} {t : Tid}

/-! ## A loop that has been told to quit -/

/-- `quit_` is set, and `Epoller::wait` does not sleep through it. -/
structure Told (q : FunctorQueue Tid F) : Prop where
  quit : q.quit_ = true
  awake : q.phase = .waiting → 0 < q.wakeupFd

/-- How many steps the loop thread is from the next test of `quit_` and the end
of `loop()`, if its functors make no calls. -/
def effort (q : FunctorQueue Tid F) : Nat :=
  q.stack.length + q.waking.length +
    match q.phase with
    | .outside => 0
    | .test => 1
    | .functors batch => 2 + 2 * batch.length
    | .entering => 3 + 2 * q.pendingFunctors_.length
    | .handling false => 4 + 2 * q.pendingFunctors_.length
    | .handling true => 5 + 2 * q.pendingFunctors_.length
    | .waiting => 6 + 2 * q.pendingFunctors_.length

variable [DecidableEq Tid]

theorem effort_wakeup_lt (h : t ∈ q.waking) : (q.wakeup t).effort < q.effort := by
  have hlen := List.length_erase_of_mem h
  have hpos := List.length_pos_of_mem h
  simp only [effort, wakeup, hlen]
  omega

theorem effort_wakeup_le (q : FunctorQueue Tid F) (t : Tid) : (q.wakeup t).effort ≤ q.effort := by
  have hlen := List.length_erase_le (l := q.waking) (a := t)
  simp only [effort, wakeup]
  omega

theorem effort_quit_le (q : FunctorQueue Tid F) (t : Tid) :
    (q.quit t).effort ≤ q.effort + 1 := by
  have hlen : (q.quit t).waking.length ≤ q.waking.length + 1 := by
    simp only [quit]
    split <;> simp
  have heffort : (q.quit t).effort + q.waking.length = q.effort + (q.quit t).waking.length := by
    simp only [effort, quit]
    omega
  omega

theorem step_quit (h : q.quit_ = true) (l : QueueLabel Tid F) : (q.step l).quit_ = true := by
  cases l with
  | call =>
      simp only [step]
      split <;> exact h
  | runInLoop t f =>
      simp only [step, runInLoop]
      split <;> exact h
  | quit t => rfl
  | _ => exact h

/-- `quit_` is set by `quit` only. -/
theorem step_quit_of_ne (h : q.quit_ = false) (hl : ∀ t, l ≠ .quit t) :
    (q.step l).quit_ = false := by
  cases l with
  | call =>
      simp only [step]
      split <;> exact h
  | runInLoop t f =>
      simp only [step, runInLoop]
      split <;> exact h
  | quit t => exact absurd rfl (hl t)
  | _ => exact h

theorem Told.step (h : Told q) (hen : q.Enabled l) : Told (q.step l) := by
  refine ⟨step_quit h.quit l, ?_⟩
  cases l with
  | test => simp [FunctorQueue.step, h.quit]
  | poll wakeup => simp [FunctorQueue.step]
  | handleWakeupFd => simp [FunctorQueue.step, handleWakeupFd]
  | call =>
      obtain ⟨⟨f, rest, hphase⟩, -⟩ := hen
      simp [FunctorQueue.step, hphase, callFunctor]
  | runInLoop t f =>
      simp only [FunctorQueue.step, runInLoop]
      split <;> exact h.awake
  | wakeup t => exact fun _ => Nat.succ_pos q.wakeupFd
  | queueInLoop t f => exact h.awake
  | quit t => exact h.awake
  | ret => exact h.awake
  | _ => simp [FunctorQueue.step]

/-- `loop()` is entered by its call and left through a test of `quit_`. -/
theorem step_phase (hen : q.Enabled l) (hl : l ≠ .loop) :
    (q.phase = .outside → (q.step l).phase = .outside) ∧
    ((q.step l).phase = .outside → q.phase = .outside ∨ q.quit_ = true) := by
  cases l with
  | loop => exact absurd rfl hl
  | test =>
      have hphase : q.phase = .test := hen
      cases hquit : q.quit_ <;> simp [step, hphase, hquit]
  | poll wakeup => simp [step, hen.1]
  | handleWakeupFd => simp [step, handleWakeupFd, hen.1]
  | endEvents => simp [step, hen.1]
  | swap =>
      have hphase : q.phase = .entering := hen
      simp [step, hphase]
  | call =>
      obtain ⟨⟨f, rest, hphase⟩, -⟩ := hen
      simp [step, hphase, callFunctor]
  | endRound => simp [step, hen.1]
  | runInLoop t f =>
      simp only [step, runInLoop]
      split <;> exact ⟨id, .inl⟩
  | ret => exact ⟨id, .inl⟩
  | queueInLoop t f => exact ⟨id, .inl⟩
  | quit t => exact ⟨id, .inl⟩
  | wakeup t => exact ⟨id, .inl⟩

/-- What other threads do leaves the loop thread free. -/
theorem Free.other (h : q.Free) (hl : l.thread q.threadId_ ≠ q.threadId_) : (q.step l).Free := by
  obtain ⟨hstack, hwaking⟩ := h
  have hadd : ∀ t, t ≠ q.threadId_ → q.threadId_ ∉ t :: q.waking := by
    intro t ht
    simp [hwaking, Ne.symm ht]
  have henqueue : ∀ t f, t ≠ q.threadId_ → (q.queueInLoop t f).Free := by
    intro t f ht
    refine ⟨hstack, ?_⟩
    simp only [FunctorQueue.queueInLoop]
    split
    · exact hadd t ht
    · exact hwaking
  cases l with
  | queueInLoop t f => exact henqueue t f hl
  | runInLoop t f =>
      have ht : t ≠ q.threadId_ := hl
      have hstep : q.step (.runInLoop t f) = q.queueInLoop t f := by
        simp [step, runInLoop, isInLoopThread, ht]
      rw [hstep]
      exact henqueue t f ht
  | quit t =>
      refine ⟨hstack, ?_⟩
      simp only [step, FunctorQueue.quit]
      split
      · exact hadd t hl
      · exact hwaking
  | wakeup t => exact ⟨hstack, fun hmem => hwaking (List.mem_of_mem_erase hmem)⟩
  | _ => exact absurd rfl hl

/-- A thread that owes a `write` or is in a call can get on with it. -/
theorem unfree_progress (h : ¬ q.Free) :
    ∃ l : QueueLabel Tid F, (l = .ret ∨ l = .wakeup q.threadId_) ∧ q.Enabled l ∧
      (q.step l).effort < q.effort := by
  by_cases hwaking : q.threadId_ ∈ q.waking
  · exact ⟨.wakeup q.threadId_, .inr rfl, hwaking, effort_wakeup_lt hwaking⟩
  · have hstack : q.stack ≠ [] := fun hempty => h ⟨hempty, hwaking⟩
    refine ⟨.ret, .inl rfl, ⟨hstack, hwaking⟩, ?_⟩
    have hpos := List.length_pos_iff.mpr hstack
    simp only [effort, FunctorQueue.step, List.length_tail]
    omega

/-- A loop that has been told to quit gets out of `loop()` by the steps of its
own thread. -/
theorem Told.progress (h : Told q) (hphase : q.phase ≠ .outside) :
    ∃ l : QueueLabel Tid F, l.thread q.threadId_ = q.threadId_ ∧ l ≠ .loop ∧ q.Enabled l ∧
      (q.step l).effort < q.effort := by
  by_cases hfree : q.Free
  · cases hq : q.phase with
    | outside => exact absurd hq hphase
    | test => exact ⟨.test, rfl, by simp, hq, by simp [effort, FunctorQueue.step, hq, h.quit]⟩
    | waiting =>
        exact ⟨.poll true, rfl, by simp, ⟨hq, fun _ => h.awake hq⟩,
          by simp [effort, FunctorQueue.step, hq]⟩
    | handling wakeup =>
        cases wakeup with
        | true =>
            exact ⟨.handleWakeupFd, rfl, by simp, ⟨hq, hfree⟩,
              by simp [effort, FunctorQueue.step, handleWakeupFd, hq]⟩
        | false =>
            exact ⟨.endEvents, rfl, by simp, ⟨hq, hfree⟩, by simp [effort, FunctorQueue.step, hq]⟩
    | entering => exact ⟨.swap, rfl, by simp, hq, by simp [effort, FunctorQueue.step, hq]⟩
    | functors batch =>
        cases batch with
        | nil =>
            exact ⟨.endRound, rfl, by simp, ⟨hq, hfree⟩, by simp [effort, FunctorQueue.step, hq]⟩
        | cons f rest =>
            -- the functor goes from the batch onto the stack
            refine ⟨.call, rfl, by simp, ⟨⟨f, rest, hq⟩, hfree⟩, ?_⟩
            simp only [effort, FunctorQueue.step, hq, callFunctor, List.length_cons]
            omega
  · obtain ⟨l, hl, hen, hlt⟩ := unfree_progress hfree
    refine ⟨l, ?_, ?_, hen, hlt⟩
    · rcases hl with rfl | rfl <;> rfl
    · rcases hl with rfl | rfl <;> simp

end FunctorQueue

end Ham.Net
