import Ham.Net.TimerSpec

/-!
# Cancellation of timers

`cancelTimerInLoop` takes a timer out of `timerList_`, or, in the middle of a
batch, keeps it from coming back. It does nothing about a timer that is still
on its way into the list, and `handleRead` does not ask whether a timer of its
batch has been cancelled before it calls it. So a cancel is final exactly when
it comes in time (`InTime`): `cancel_final` follows a timer that is `Stopped`
through the rest of any run, and `not_cancel_final` is the batch in which one
callback cancels the next.
-/

namespace Ham.Net

open Ham.Lib

namespace TimerQueue

variable {q q' : TimerQueue} {p : TimerPtr} {l : TimerLabel}

/-- The label executes `cancelTimerInLoop` of the timer, at once or from the
loop's queue. -/
def Cancels (q : TimerQueue) (p : TimerPtr) : TimerLabel → Prop
  | .cancelTimer true p' => p' = p
  | .runFunctor _ _ => q.pendingFunctors_.head? = some (.cancelTimerInLoop p)
  | _ => False

/-- The timer has been inserted, and is not in the batch with its turn still to
come. -/
def InTime (q : TimerQueue) (p : TimerPtr) : Prop :=
  .addTimerInLoop p ∉ q.pendingFunctors_ ∧ ∀ e ∈ q.rest, e.second ≠ p

/-- The timer is nowhere from where it could be called again. -/
structure Stopped (q : TimerQueue) (p : TimerPtr) : Prop where
  alive : q.timers p ≠ none
  notQueued : .addTimerInLoop p ∉ q.pendingFunctors_
  notListed : ∀ e ∈ q.timerList_, e.second ≠ p
  notWaiting : ∀ e ∈ q.rest, e.second ≠ p
  notBack : ∀ e ∈ q.expired, e.second = p → p ∈ q.cancelingTimers_

/-- A cancel in time stops the timer. -/
theorem cancelTimerInLoop_stopped (h : Wf q) (hin : q.InTime p)
    (hcancel : q.cancelTimerInLoop p = .ok q') : Stopped q' p := by
  obtain ⟨t, ht, hcase⟩ := cancelTimerInLoop_ok hcancel
  have halive : q.timers p ≠ none := by
    rw [ht]
    exact Option.some_ne_none t
  -- the entry of a timer is found by its expiration
  have hentry : ∀ e ∈ q.timerList_, e.second = p → e = ⟨t.expiration_, p⟩ := fun e he heq =>
    (h.listed e he).unique ⟨t, ht, rfl⟩ heq
  have hnotListed : ⟨t.expiration_, p⟩ ∉ q.timerList_ → ∀ e ∈ q.timerList_, e.second ≠ p :=
    fun hnot e he heq => hnot (hentry e he heq ▸ he)
  rcases hcase with ⟨hmem, rfl⟩ | ⟨hnot, -, rfl⟩ | ⟨hnot, hcalling, rfl⟩
  · refine ⟨halive, hin.1, ?_, hin.2, ?_⟩
    · intro e he heq
      obtain ⟨hne, he⟩ := OrderedSet.mem_erase.mp he
      exact hne (hentry e he heq)
    · intro e he heq
      exact absurd heq.symm (h.apart e he _ hmem)
  · exact ⟨halive, hin.1, hnotListed hnot, hin.2, fun e he heq => Finset.mem_insert_self _ _⟩
  · refine ⟨halive, hin.1, hnotListed hnot, hin.2, ?_⟩
    intro e he
    have hphase : q'.phase = .outside := by
      by_contra hphase
      rw [h.calling.mpr hphase] at hcalling
      cases hcalling
    simp [expired, hphase] at he

theorem Stopped.addTimerInLoop (h : Stopped q p) {p' : TimerPtr} {now setAt : Int} (hne : p' ≠ p)
    (hadd : q.addTimerInLoop p' now setAt = .ok q') : Stopped q' p ∧ q'.runs = q.runs := by
  obtain ⟨t, s, earliest, a, -, -, hmem, -, rfl⟩ := addTimerInLoop_ok hadd
  refine ⟨⟨h.alive, h.notQueued, ?_, h.notWaiting, h.notBack⟩, rfl⟩
  intro e he
  rcases (hmem e).mp he with rfl | he
  · exact hne
  · exact h.notListed e he

theorem Stopped.cancelTimerInLoop (h : Stopped q p) {p' : TimerPtr}
    (hcancel : q.cancelTimerInLoop p' = .ok q') : Stopped q' p ∧ q'.runs = q.runs := by
  obtain ⟨t, -, ⟨-, rfl⟩ | ⟨-, -, rfl⟩ | ⟨-, -, rfl⟩⟩ := cancelTimerInLoop_ok hcancel
  · exact ⟨⟨h.alive, h.notQueued, fun e he => h.notListed e (OrderedSet.mem_erase.mp he).2,
      h.notWaiting, h.notBack⟩, rfl⟩
  · exact ⟨⟨h.alive, h.notQueued, h.notListed, h.notWaiting,
      fun e he heq => Finset.mem_insert_of_mem (h.notBack e he heq)⟩, rfl⟩
  · exact ⟨h, rfl⟩

/-- What has been popped was not the insertion of a stopped timer. -/
theorem Stopped.pop (h : Stopped q p) {f : TimerFunctor} {fs : List TimerFunctor}
    (hfs : q.pendingFunctors_ = f :: fs) : Stopped { q with pendingFunctors_ := fs } p :=
  ⟨h.alive, fun hmem => h.notQueued (hfs ▸ List.mem_cons_of_mem f hmem), h.notListed, h.notWaiting,
    h.notBack⟩

/-- A new timer is not a stopped one. -/
theorem Stopped.alloc (h : Stopped q p) {p' : TimerPtr} (hnew : q.timers p' = none)
    (t : Option Timer) : p' ≠ p ∧ Stopped { q with timers := Function.update q.timers p' t } p := by
  have hne : p' ≠ p := by
    rintro rfl
    exact h.alive hnew
  refine ⟨hne, ?_, h.notQueued, h.notListed, h.notWaiting, h.notBack⟩
  show Function.update q.timers p' t p ≠ none
  rw [Function.update_of_ne (Ne.symm hne)]
  exact h.alive

/-- A stopped timer stays stopped, and no step calls it. -/
theorem Stopped.step (h : Stopped q p) (hwf : Wf q) (hstep : timerQueue.Step q l q') :
    Stopped q' p ∧ q'.runsOf p = q.runsOf p := by
  have hruns : Stopped q' p ∧ q'.runs = q.runs → Stopped q' p ∧ q'.runsOf p = q.runsOf p := by
    rintro ⟨hstopped, hruns⟩
    exact ⟨hstopped, by rw [runsOf, hruns]; rfl⟩
  cases step_moves hstep with
  | queueAdd fresh after =>
      subst after
      refine hruns ⟨⟨(h.alloc fresh _).2.alive, ?_, h.notListed, h.notWaiting, h.notBack⟩, rfl⟩
      intro hmem
      rcases List.mem_append.mp hmem with hmem | hmem
      · exact h.notQueued hmem
      · cases List.mem_singleton.mp hmem
        exact h.alive fresh
  | queueCancel after =>
      subst after
      refine hruns ⟨⟨h.alive, ?_, h.notListed, h.notWaiting, h.notBack⟩, rfl⟩
      intro hmem
      rcases List.mem_append.mp hmem with hmem | hmem
      · exact h.notQueued hmem
      · cases List.mem_singleton.mp hmem
  | addNow fresh add =>
      exact hruns ((h.alloc fresh _).2.addTimerInLoop (h.alloc fresh none).1 add)
  | addQueued pending add =>
      -- the functor that inserts a stopped timer is not in the queue
      refine hruns ((h.pop pending).addTimerInLoop ?_ add)
      rintro rfl
      exact h.notQueued (pending ▸ List.mem_cons_self)
  | cancelNow cancel => exact hruns (h.cancelTimerInLoop cancel)
  | cancelQueued pending cancel => exact hruns ((h.pop pending).cancelTimerInLoop cancel)
  | beginRead phase valid read =>
      obtain ⟨expired, s, a, hsplit, -, -, rfl⟩ := beginRead_ok read
      have hfront : ∀ e ∈ expired, e.second ≠ p := fun e he =>
        h.notListed e (OrderedSet.mem_of_front hsplit he)
      refine hruns ⟨⟨h.alive, h.notQueued, ?_, hfront, ?_⟩, rfl⟩
      · intro e he
        exact h.notListed e (OrderedSet.mem_of_back hsplit he)
      · intro e he heq
        exact absurd heq (hfront e he)
  | @runTimer now expired rest e phase run =>
      obtain ⟨t, -, rfl⟩ := runTimer_ok phase run
      have hrest := rest_of_phase phase
      have hexpired := expired_of_phase phase
      have hne : e.second ≠ p := h.notWaiting e (hrest ▸ List.mem_cons_self)
      refine ⟨⟨h.alive, h.notQueued, h.notListed, ?_, hexpired ▸ h.notBack⟩, ?_⟩
      · intro e' he'
        exact h.notWaiting e' (hrest ▸ List.mem_cons_of_mem e he')
      · simp [runsOf, hne]
  | @endRead now expired resetNow setAt phase read =>
      obtain ⟨q₁, hreset, a, rfl, -⟩ := hwf.reset phase read
      refine hruns ⟨⟨?_, ?_, ?_, fun e he => absurd he List.not_mem_nil,
        fun e he => absurd he List.not_mem_nil⟩, hreset.runs⟩
      · -- `reset` changes timers but frees none
        exact hreset.keeps.alive h.alive
      · show .addTimerInLoop p ∉ q₁.pendingFunctors_
        rw [hreset.pendingFunctors]
        exact h.notQueued
      · -- an entry that comes back is of a timer that has not been cancelled
        intro e' he'
        rcases (hreset.mem e').mp he' with hold | ⟨e, he, t, -, -, hnot, rfl⟩
        · exact h.notListed e' hold
        · rintro rfl
          exact hnot (h.notBack e (expired_of_phase phase ▸ he) rfl)

theorem Stopped.run {ls : List TimerLabel} (h : Stopped q p) (hwf : Wf q)
    (hrun : timerQueue.Run q ls q') : q'.runsOf p = q.runsOf p :=
  (hrun.invariant (I := fun q' => Wf q' ∧ Stopped q' p ∧ q'.runsOf p = q.runsOf p)
    ⟨hwf, h, rfl⟩ fun _ _ _ h hstep => by
      obtain ⟨hstopped, hruns⟩ := h.2.1.step h.1 hstep
      exact ⟨h.1.step hstep, hstopped, hruns.trans h.2.2⟩).2.2

end TimerQueue

open TimerQueue

/-- A cancel that comes in time is final: whatever happens after it, the
callback is not called again. -/
theorem cancel_final {ls ls' : List TimerLabel} {q q₁ q₂ : TimerQueue} {p : TimerPtr}
    {l : TimerLabel} (hrun : timerQueue.Run {} ls q) (hcancel : q.Cancels p l)
    (hstep : timerQueue.Step q l q₁) (hin : q.InTime p) (hrest : timerQueue.Run q₁ ls' q₂) :
    q₂.runsOf p = q₁.runsOf p := by
  have hwf := reachable_wf hrun
  have hstopped : Stopped q₁ p := by
    cases step_moves hstep with
    | cancelNow cancel =>
        cases hcancel
        exact cancelTimerInLoop_stopped hwf hin cancel
    | @cancelQueued p' now setAt fs pending cancel =>
        rw [Cancels, pending] at hcancel
        cases hcancel
        refine cancelTimerInLoop_stopped (hwf.pop pending).1 ⟨?_, hin.2⟩ cancel
        exact fun hmem => hin.1 (pending ▸ List.mem_cons_of_mem _ hmem)
    | @addQueued p' now setAt fs pending add =>
        rw [Cancels, pending] at hcancel
        cases hcancel
    | _ => cases hcancel
  exact hstopped.run (hwf.step hstep) hrest

/-- A repeating timer that cancels itself in its callback. -/
theorem cancel_final_itself : ∃ ls q q₁ q₂,
    timerQueue.Run {} ls q ∧ q.Cancels 1 (.cancelTimer true 1) ∧
    timerQueue.Step q (.cancelTimer true 1) q₁ ∧
    timerQueue.Run q₁ [.endRead 120 121, .beginRead 302 303, .runTimer,
      .endRead 310 311] q₂ ∧
    q₁.runsOf 1 ≠ [] ∧ q₂.runsOf 1 = q₁.runsOf 1 := by
  have hrun : ∃ q q₁ q₂,
      timerQueue.Run {} [.addTimer true 1 10 5 0 1, .addTimer true 2 300 0 1 1,
        .beginRead 110 111, .runTimer] q ∧
      q.InTime 1 ∧ timerQueue.Step q (.cancelTimer true 1) q₁ ∧
      timerQueue.Run q₁ [.endRead 120 121, .beginRead 302 303, .runTimer, .endRead 310 311] q₂ ∧
      q₁.runsOf 1 ≠ [] := by
    refine ⟨_, _, _, .cons ⟨?_, rfl⟩ (.cons ⟨?_, rfl⟩ (.cons ⟨?_, rfl⟩ (.cons ⟨?_, rfl⟩ (.nil _)))),
      ?_, ⟨?_, rfl⟩, .cons ⟨?_, rfl⟩ (.cons ⟨?_, rfl⟩ (.cons ⟨?_, rfl⟩ (.cons ⟨?_, rfl⟩ (.nil _)))),
      ?_⟩
    · exact ⟨by decide, rfl, fun _ => trivial⟩
    · exact ⟨by decide, rfl, fun _ => trivial⟩
    · exact ⟨rfl, by decide⟩
    · exact ⟨_, _, _, _, rfl⟩
    · exact ⟨List.not_mem_nil, fun e he => absurd he List.not_mem_nil⟩
    · exact ⟨Option.some_ne_none _, fun _ => Nat.one_pos⟩
    · exact ⟨_, _, rfl⟩
    · exact ⟨rfl, by decide⟩
    · exact ⟨_, _, _, _, rfl⟩
    · exact ⟨_, _, rfl⟩
    · exact List.cons_ne_nil _ _
  obtain ⟨q, q₁, q₂, hrun, hin, hstep, hrest, hone⟩ := hrun
  have hcancel : q.Cancels 1 (.cancelTimer true 1) := rfl
  exact ⟨_, q, q₁, q₂, hrun, hcancel, hstep, hrest, hone,
    cancel_final hrun hcancel hstep hin hrest⟩

/-- Two timers expire together, and the callback of the first cancels the
second: it is called all the same. -/
theorem not_cancel_final : ¬ ∀ ls ls' q q₁ q₂ p l,
    timerQueue.Run {} ls q → q.Cancels p l → timerQueue.Step q l q₁ →
    timerQueue.Run q₁ ls' q₂ → q₂.runsOf p = q₁.runsOf p := by
  intro hlaw
  have hrun : ∃ q q₁ q₂,
      timerQueue.Run {} [.addTimer true 1 10 0 0 1, .addTimer true 2 20 0 1 1, .beginRead 110 111,
        .runTimer] q ∧
      timerQueue.Step q (.cancelTimer true 2) q₁ ∧ timerQueue.Run q₁ [.runTimer] q₂ ∧
      q₁.runsOf 2 = [] ∧ q₂.runsOf 2 ≠ [] := by
    refine ⟨_, _, _, .cons ⟨?_, rfl⟩ (.cons ⟨?_, rfl⟩ (.cons ⟨?_, rfl⟩ (.cons ⟨?_, rfl⟩ (.nil _)))),
      ⟨?_, rfl⟩, .cons ⟨?_, rfl⟩ (.nil _), rfl, ?_⟩
    · exact ⟨by decide, rfl, fun _ => trivial⟩
    · exact ⟨by decide, rfl, fun _ => trivial⟩
    · exact ⟨rfl, by decide⟩
    · exact ⟨_, _, _, _, rfl⟩
    · exact ⟨Option.some_ne_none _, fun _ => Nat.lt_succ_self 1⟩
    · exact ⟨_, _, _, _, rfl⟩
    · exact List.cons_ne_nil _ _
  obtain ⟨q, q₁, q₂, hrun, hstep, hrest, hnone, hcalled⟩ := hrun
  have hcancel : q.Cancels 2 (.cancelTimer true 2) := rfl
  exact hcalled ((hlaw _ _ q q₁ q₂ 2 _ hrun hcancel hstep hrest).trans hnone)

end Ham.Net
