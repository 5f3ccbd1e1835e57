import Ham.Net.TimerSpec

/-!
# When timers fire

`Told` relates the calls made so far to the entries that are left: a timer that
has been called and has an entry, in the list or in the rest of the batch,
repeats, and its entry is a whole interval behind each of its calls; and in the
batch at work nothing is left that should have come before a call already made.
Each call then follows its predecessors as it should, which is
`firing_discipline`.
-/

namespace Ham.Net

open Ham.Lib

namespace TimerQueue

variable {q q' : TimerQueue} {p : TimerPtr} {l : TimerLabel}

/-- The timer of the call repeats, and `time` is an interval behind the call. -/
def Spaced (q : TimerQueue) (r : TimerRun) (time : Int) : Prop :=
  ∃ t, q.timers r.timer = some t ∧ 0 < t.interval_ ∧ r.now + ⌊t.interval_⌋ ≤ time

theorem Spaced.later {r : TimerRun} {time time' : Int} (h : q.Spaced r time) (hle : time ≤ time') :
    q.Spaced r time' := by
  obtain ⟨t, ht, hpos, htime⟩ := h
  exact ⟨t, ht, hpos, htime.trans hle⟩

theorem Spaced.keeps {r : TimerRun} {time : Int} (h : q.Spaced r time) (hkeeps : Keeps q q') :
    q'.Spaced r time := by
  obtain ⟨t, ht, hpos, htime⟩ := h
  obtain ⟨t', ht', hinterval⟩ := hkeeps _ t ht
  exact ⟨t', ht', hinterval ▸ hpos, hinterval ▸ htime⟩

structure Told (q : TimerQueue) : Prop where
  due : ∀ r ∈ q.runs, r.expiration ≤ r.now
  alive : ∀ r ∈ q.runs, q.timers r.timer ≠ none
  batch : ∀ r ∈ q.runs, r.batch ≤ q.batches
  order : q.runs.Pairwise fun r s =>
    r.batch = s.batch → r.expiration ≤ s.expiration ∧ r.timer ≠ s.timer
  spaced : q.runs.Pairwise fun r s => r.timer = s.timer → q.Spaced r s.now
  /-- A timer that has been called is not on its way into the list. -/
  queued : ∀ r ∈ q.runs, .addTimerInLoop r.timer ∉ q.pendingFunctors_
  listed : ∀ r ∈ q.runs, ∀ e ∈ q.timerList_, e.second = r.timer → q.Spaced r e.first
  waiting : ∀ r ∈ q.runs, ∀ e ∈ q.rest, e.second = r.timer → q.Spaced r e.first
  turn : ∀ r ∈ q.runs, ∀ e ∈ q.rest, r.batch = q.batches →
    r.expiration ≤ e.first ∧ r.timer ≠ e.second
  /-- The batch is due, and its timers have not been called later. -/
  expired : ∀ now expired rest, q.phase = .calling now expired rest →
    ∀ e ∈ expired, e.first ≤ now ∧ ∀ r ∈ q.runs, e.second = r.timer → r.now ≤ now

theorem told_init : Told {} where
  due := fun _ h => absurd h List.not_mem_nil
  alive := fun _ h => absurd h List.not_mem_nil
  batch := fun _ h => absurd h List.not_mem_nil
  order := .nil
  spaced := .nil
  queued := fun _ h => absurd h List.not_mem_nil
  listed := fun _ h => absurd h List.not_mem_nil
  waiting := fun _ h => absurd h List.not_mem_nil
  turn := fun _ h => absurd h List.not_mem_nil
  expired := fun _ _ _ h => by cases h

/-- What a step that calls nothing has to show: it adds no entry of a timer that
has been called. -/
theorem Told.of_quiet (h : Told q) (hkeeps : Keeps q q') (hruns : q'.runs = q.runs)
    (hphase : q'.phase = q.phase) (hbatches : q'.batches = q.batches)
    (hqueued : ∀ r ∈ q.runs, .addTimerInLoop r.timer ∉ q'.pendingFunctors_)
    (hlisted : ∀ r ∈ q.runs, ∀ e ∈ q'.timerList_, e.second = r.timer → e ∈ q.timerList_) :
    Told q' := by
  have hrest : q'.rest = q.rest := by
    rw [rest, hphase]
    rfl
  refine ⟨hruns ▸ h.due, ?_, ?_, hruns ▸ h.order, ?_, hruns ▸ hqueued, ?_, ?_, ?_, ?_⟩
  · intro r hr
    exact hkeeps.alive (h.alive r (hruns ▸ hr))
  · rw [hruns, hbatches]
    exact h.batch
  · rw [hruns]
    exact h.spaced.imp fun hspaced heq => (hspaced heq).keeps hkeeps
  · intro r hr e he heq
    rw [hruns] at hr
    exact (h.listed r hr e (hlisted r hr e he heq) heq).keeps hkeeps
  · intro r hr e he heq
    rw [hruns] at hr
    rw [hrest] at he
    exact (h.waiting r hr e he heq).keeps hkeeps
  · rw [hruns, hrest, hbatches]
    exact h.turn
  · rw [hruns, hphase]
    exact h.expired

/-- The insertion of a timer that has not been called. -/
theorem Told.addTimerInLoop (h : Told q) {now setAt : Int} (hnew : ∀ r ∈ q.runs, r.timer ≠ p)
    (hadd : q.addTimerInLoop p now setAt = .ok q') : Told q' := by
  obtain ⟨t, s, earliest, a, -, -, hmem, -, rfl⟩ := addTimerInLoop_ok hadd
  refine h.of_quiet (.of_timers rfl) rfl rfl rfl h.queued ?_
  intro r hr e he heq
  rcases (hmem e).mp he with rfl | he
  · exact absurd heq.symm (hnew r hr)
  · exact he

theorem Told.cancelTimerInLoop (h : Told q) (hcancel : q.cancelTimerInLoop p = .ok q') :
    Told q' := by
  obtain ⟨t, -, ⟨-, rfl⟩ | ⟨-, -, rfl⟩ | ⟨-, -, rfl⟩⟩ := cancelTimerInLoop_ok hcancel
  · exact h.of_quiet (.of_timers rfl) rfl rfl rfl h.queued
      fun _ _ e he _ => (OrderedSet.mem_erase.mp he).2
  · exact h.of_quiet (.of_timers rfl) rfl rfl rfl h.queued fun _ _ _ he _ => he
  · exact h

/-- A functor leaves the queue. -/
theorem Told.pop (h : Told q) {f : TimerFunctor} {fs : List TimerFunctor}
    (hfs : q.pendingFunctors_ = f :: fs) : Told { q with pendingFunctors_ := fs } :=
  h.of_quiet (.of_timers rfl) rfl rfl rfl
    (fun r hr hmem => h.queued r hr (hfs ▸ List.mem_cons_of_mem f hmem)) fun _ _ _ he _ => he

/-- The batch is taken off the list. -/
theorem Told.beginRead (h : Told q) {now readAt : Int}
    (hread : q.beginRead now readAt = .ok q') : Told q' := by
  obtain ⟨expired, s, a, hsplit, hdue, -, rfl⟩ := beginRead_ok hread
  have hfront : ∀ e ∈ expired, e ∈ q.timerList_ := fun _ he => OrderedSet.mem_of_front hsplit he
  have hback : ∀ e ∈ s, e ∈ q.timerList_ := fun _ he => OrderedSet.mem_of_back hsplit he
  refine ⟨h.due, h.alive, ?_, h.order, h.spaced, h.queued, ?_, ?_, ?_, ?_⟩
  · intro r hr
    exact Nat.le_succ_of_le (h.batch r hr)
  · intro r hr e he
    exact h.listed r hr e (hback e he)
  · intro r hr e he
    exact h.listed r hr e (hfront e he)
  · -- the calls made so far belong to earlier batches
    intro r hr e he heq
    have hle := h.batch r hr
    have heq : r.batch = q.batches + 1 := heq
    omega
  · rintro now' expired' rest' hcalling
    cases hcalling
    intro e he
    refine ⟨hdue e he, ?_⟩
    intro r hr heq
    obtain ⟨t, -, hpos, htime⟩ := h.listed r hr e (hfront e he) heq
    have hnonneg := Int.floor_nonneg.mpr hpos.le
    have hle := hdue e he
    omega

/-- The next callback is called. -/
theorem Told.runTimer (h : Told q) (hwf : Wf q) {now : Int} {expired rest : List TimeEntry}
    {e : TimeEntry} (hphase : q.phase = .calling now expired (e :: rest))
    (hrun : q.runTimer = .ok q') : Told q' := by
  have hrest := rest_of_phase hphase
  obtain ⟨hmem, hleft⟩ := hwf.rest_cons hrest
  obtain ⟨t, ht, rfl⟩ := runTimer_ok hphase hrun
  have hfirst : t.expiration_ = e.first := by
    obtain ⟨t', ht', hfirst⟩ := hwf.expired e hmem
    rw [ht] at ht'
    cases ht'
    exact hfirst
  have hdue : e.first ≤ now :=
    (h.expired now expired _ hphase e (expired_of_phase hphase ▸ hmem)).1
  have hold : ∀ e' ∈ rest, e' ∈ q.rest := fun e' he' => hrest ▸ List.mem_cons_of_mem e he'
  have hhere : e ∈ q.rest := hrest ▸ List.mem_cons_self
  have hlast : ∀ {P : TimerRun → Prop}, (∀ r ∈ q.runs, P r) →
      P ⟨e.second, q.batches, now, t.expiration_⟩ →
      ∀ r ∈ q.runs ++ [⟨e.second, q.batches, now, t.expiration_⟩], P r := by
    intro P hall hone
    exact List.forall_mem_append.mpr ⟨hall, List.forall_mem_singleton.mpr hone⟩
  refine ⟨?_, ?_, ?_, ?_, ?_, ?_, ?_, ?_, ?_, ?_⟩
  · exact hlast h.due (hfirst ▸ hdue)
  · refine hlast h.alive ?_
    rw [ht]
    exact Option.some_ne_none t
  · exact hlast h.batch (Nat.le_refl _)
  · refine List.pairwise_append.mpr ⟨h.order, List.pairwise_singleton _ _, ?_⟩
    intro r hr s hs heq
    rw [List.mem_singleton.mp hs] at heq ⊢
    rw [hfirst]
    exact h.turn r hr e hhere heq
  · refine List.pairwise_append.mpr ⟨h.spaced, List.pairwise_singleton _ _, ?_⟩
    intro r hr s hs heq
    rw [List.mem_singleton.mp hs] at heq ⊢
    exact (h.waiting r hr e hhere heq.symm).later hdue
  · refine hlast h.queued ?_
    intro hqueue
    exact (hwf.queued _ hqueue).2.2 e hmem rfl
  · refine hlast h.listed ?_
    intro e' he' heq
    exact absurd heq (hwf.apart e hmem e' he')
  · refine hlast (fun r hr e' he' => h.waiting r hr e' (hold e' he')) ?_
    intro e' he' heq
    exact absurd heq.symm (hleft e' he').2
  · refine hlast (fun r hr e' he' => h.turn r hr e' (hold e' he')) ?_
    intro e' he' _
    rw [hfirst]
    exact hleft e' he'
  · rintro now' expired' rest' hcalling
    cases hcalling
    intro e' he'
    obtain ⟨hdue', hpast⟩ := h.expired now expired _ hphase e' he'
    exact ⟨hdue', hlast hpast fun _ => le_refl now⟩

/-- Repeating timers come back an interval behind the batch. -/
theorem Told.endRead (h : Told q) (hwf : Wf q) {now resetNow setAt : Int}
    {expired : List TimeEntry} (hphase : q.phase = .calling now expired [])
    (hread : q.endRead resetNow setAt = .ok q') : Told q' := by
  obtain ⟨q₁, hreset, a, rfl, -⟩ := hwf.reset hphase hread
  have hruns := hreset.runs
  have hkeeps := hreset.keeps
  have hbatches : q₁.batches = q.batches := by
    obtain ⟨earliest, hframe⟩ := hreset.frame
    rw [hframe]
  refine ⟨hruns ▸ h.due, ?_, ?_, hruns ▸ h.order, ?_, ?_, ?_, ?_, ?_, ?_⟩
  · intro r hr
    exact hkeeps.alive (h.alive r (hruns ▸ hr))
  · show ∀ r ∈ q₁.runs, r.batch ≤ q₁.batches
    rw [hruns, hbatches]
    exact h.batch
  · show q₁.runs.Pairwise _
    rw [hruns]
    exact h.spaced.imp fun hspaced heq => (hspaced heq).keeps hkeeps
  · show ∀ r ∈ q₁.runs, .addTimerInLoop r.timer ∉ q₁.pendingFunctors_
    rw [hruns, hreset.pendingFunctors]
    exact h.queued
  · intro r hr e' he' heq
    have hr : r ∈ q.runs := hruns ▸ hr
    rcases (hreset.mem e').mp he' with hold | ⟨e, he, t, ht, hrepeat, -, rfl⟩
    · exact (h.listed r hr e' hold heq).keeps hkeeps
    · obtain ⟨-, hpast⟩ := h.expired now expired [] hphase e he
      have hspaced : q.Spaced r (addTime now t.interval_) := by
        refine ⟨t, heq ▸ ht, t.repeats.mp hrepeat, ?_⟩
        rw [(t.addTime_interval now hrepeat).1]
        exact Int.add_le_add_right (hpast r hr heq) _
      exact hspaced.keeps hkeeps
  -- behind the batch nothing waits for its call
  · intro r hr e he
    exact absurd he List.not_mem_nil
  · intro r hr e he
    exact absurd he List.not_mem_nil
  · intro now' expired' rest' hcalling
    cases hcalling

theorem Told.step (h : Told q) (hwf : Wf q) (hstep : timerQueue.Step q l q') : Told q' := by
  -- a new timer has not been called
  have hnew : ∀ p, q.timers p = none → ∀ r ∈ q.runs, r.timer ≠ p := by
    rintro p hnone r hr rfl
    exact h.alive r hr hnone
  cases step_moves hstep with
  | @queueAdd p when_ interval now setAt fresh after =>
      subst after
      refine h.of_quiet (.alloc fresh _ rfl) rfl rfl rfl ?_ fun _ _ _ he _ => he
      intro r hr hmem
      rcases List.mem_append.mp hmem with hmem | hmem
      · exact h.queued r hr hmem
      · cases List.mem_singleton.mp hmem
        exact hnew _ fresh r hr rfl
  | queueCancel after =>
      subst after
      refine h.of_quiet (.of_timers rfl) rfl rfl rfl ?_ fun _ _ _ he _ => he
      intro r hr hmem
      rcases List.mem_append.mp hmem with hmem | hmem
      · exact h.queued r hr hmem
      · cases List.mem_singleton.mp hmem
  | @addNow p when_ interval now setAt fresh add =>
      have halloc : Told { q with
          timers := Function.update q.timers p (some (Timer.create when_ interval)) } :=
        h.of_quiet (.alloc fresh _ rfl) rfl rfl rfl h.queued fun _ _ _ he _ => he
      exact halloc.addTimerInLoop (hnew p fresh) add
  | addQueued pending add =>
      refine (h.pop pending).addTimerInLoop ?_ add
      rintro r hr rfl
      exact h.queued r hr (pending ▸ List.mem_cons_self)
  | cancelNow cancel => exact h.cancelTimerInLoop cancel
  | cancelQueued pending cancel => exact (h.pop pending).cancelTimerInLoop cancel
  | beginRead phase valid read => exact h.beginRead read
  | runTimer phase run => exact h.runTimer hwf phase run
  | endRead phase read => exact h.endRead hwf phase read

theorem reachable_told {ls : List TimerLabel} (hrun : timerQueue.Run {} ls q) : Told q :=
  (hrun.invariant (I := fun q => Wf q ∧ Told q) ⟨wf_init, told_init⟩
    fun _ _ _ h hstep => ⟨h.1.step hstep, h.2.step h.1 hstep⟩).2

end TimerQueue

open TimerQueue

/-- In every run: no callback is called before its time; in one batch the
callbacks are called in the order of their times and each once; a timer that
does not repeat is called once; and two calls of a repeating timer are an
interval apart, in whole microseconds. -/
theorem firing_discipline {ls : List TimerLabel} {q : TimerQueue}
    (hrun : timerQueue.Run {} ls q) :
    (∀ r ∈ q.runs, r.expiration ≤ r.now) ∧
    (q.runs.Pairwise fun r s =>
      r.batch = s.batch → r.expiration ≤ s.expiration ∧ r.timer ≠ s.timer) ∧
    (∀ p t, q.timers p = some t → t.interval_ ≤ 0 → (q.runsOf p).length ≤ 1) ∧
    q.runs.Pairwise fun r s => r.timer = s.timer →
      ∃ t, q.timers r.timer = some t ∧ r.now + ⌊t.interval_⌋ ≤ s.now := by
  have h := reachable_told hrun
  refine ⟨h.due, h.order, ?_, ?_⟩
  · intro p t ht honce
    have hpairs := h.spaced.filter (·.timer = p)
    have hmem : ∀ r ∈ q.runsOf p, r.timer = p := fun r hr => by
      simpa using (List.mem_filter.mp hr).2
    rw [← runsOf] at hpairs
    -- two calls would make it a repeating timer
    match hruns : q.runsOf p with
    | [] => exact Nat.zero_le 1
    | [r] => exact Nat.le_refl 1
    | r :: s :: rest =>
        rw [hruns] at hpairs hmem
        have hr := hmem r List.mem_cons_self
        have hs := hmem s (List.mem_cons_of_mem _ List.mem_cons_self)
        obtain ⟨t', ht', hpos, -⟩ :=
          (List.pairwise_cons.mp hpairs).1 s List.mem_cons_self (hr.trans hs.symm)
        rw [hr, ht] at ht'
        cases ht'
        exact absurd honce hpos.not_ge
  · refine h.spaced.imp ?_
    intro r s hspaced heq
    obtain ⟨t, ht, -, htime⟩ := hspaced heq
    exact ⟨t, ht, htime⟩

/-- A repeating timer and a single one, in two batches. -/
theorem firing_discipline_repeating : ∃ ls q,
    timerQueue.Run {} ls q ∧ q.runs.map (·.timer) = [1, 2, 1] ∧
    ∀ r ∈ q.runs, r.expiration ≤ r.now := by
  have hrun : ∃ q, timerQueue.Run {} [.addTimer true 1 10 5 0 1, .addTimer true 2 15 0 1 1,
        .beginRead 110 111, .runTimer, .runTimer, .endRead 120 121, .beginRead 230 231,
        .runTimer] q ∧
      q.runs.map (·.timer) = [1, 2, 1] := by
    refine ⟨_, .cons ⟨?_, rfl⟩ (.cons ⟨?_, rfl⟩ (.cons ⟨?_, rfl⟩ (.cons ⟨?_, rfl⟩ (.cons ⟨?_, rfl⟩
      (.cons ⟨?_, rfl⟩ (.cons ⟨?_, rfl⟩ (.cons ⟨?_, rfl⟩ (.nil _)))))))), rfl⟩
    · exact ⟨by decide, rfl, fun _ => trivial⟩
    · exact ⟨by decide, rfl, fun _ => trivial⟩
    · exact ⟨rfl, by decide⟩
    · exact ⟨_, _, _, _, rfl⟩
    · exact ⟨_, _, _, _, rfl⟩
    · exact ⟨_, _, rfl⟩
    · exact ⟨rfl, by decide⟩
    · exact ⟨_, _, _, _, rfl⟩
  obtain ⟨q, hrun, htimers⟩ := hrun
  exact ⟨_, q, hrun, htimers, (firing_discipline hrun).1⟩

end Ham.Net
