import Ham.Net.TimerQueue

/-!
# What the operations of the timer queue do

One lemma for each operation that returns, with the new state as an update of
the old one; and `Wf`, what holds between any two steps: every entry of
`timerList_` and of the expired batch carries the expiration of its timer, and
a timer is in one place at a time — waiting to be inserted, in the list, or in
the batch.
-/

namespace Ham.Net

open Ham.Lib

/-- The time until the alarm, as the timerfd counts it. -/
theorem howMuchTimeFromNow_microseconds (when_ now : Int) :
    (howMuchTimeFromNow when_ now).microseconds = max (when_ - now) 100 := by
  simp only [howMuchTimeFromNow, Timespec.microseconds]
  split <;> omega

/-- The alarm goes off by the expiration and the time lost before it was set, or
100 microseconds after it was set. -/
theorem alarmFor_deadline (expiration now setAt : Int) :
    (TimerQueue.alarmFor expiration now setAt).deadline =
      max (expiration + (setAt - now)) (setAt + 100) := by
  have hvalue := howMuchTimeFromNow_microseconds expiration now
  show setAt + (howMuchTimeFromNow expiration now).microseconds = _
  omega

/-- What `restart` adds to the clock for a timer that repeats: the whole
microseconds of its interval. -/
theorem Timer.addTime_interval (t : Timer) (now : Int) (hrepeat : t.repeat_ = true) :
    addTime now t.interval_ = now + ⌊t.interval_⌋ ∧ 0 ≤ ⌊t.interval_⌋ := by
  have hpos : 0 ≤ t.interval_ := (t.repeats.mp hrepeat).le
  refine ⟨?_, Int.floor_nonneg.mpr hpos⟩
  rw [addTime, Rat.floor_def', Int.tdiv_eq_ediv_of_nonneg (Rat.num_nonneg.mpr hpos)]

namespace TimerQueue

variable {q q' : TimerQueue} {p : TimerPtr}

theorem deref_eq_ok {t : Timer} : q.deref p = .ok t ↔ q.timers p = some t := by
  unfold deref
  split <;> simp_all

theorem isEarliest_iff {when_ : Int} :
    q.isEarliest when_ = true ↔ ∀ e ∈ q.timerList_, when_ < e.first := by
  unfold isEarliest
  split
  · rename_i hnone
    refine iff_of_true rfl ?_
    intro e he
    exact absurd he (OrderedSet.begin_eq_none.mp hnone e)
  · rename_i e he
    rw [decide_eq_true_iff]
    refine ⟨fun hlt e' he' => ?_, fun hall => hall e (OrderedSet.begin_mem he)⟩
    exact hlt.trans_le (TimeEntry.first_le (OrderedSet.begin_le he he'))

theorem insert_ok (h : q.insert p = .ok q') :
    ∃ t, q.timers p = some t ∧ ⟨t.expiration_, p⟩ ∉ q.timerList_ ∧
      q' = { q with
        earliestChanged_ := q.isEarliest t.expiration_
        timerList_ := (q.timerList_.insert ⟨t.expiration_, p⟩).1 } := by
  simp only [insert, bind_eq_ok, deref_eq_ok, assert_eq_ok, pure_eq_ok, Except.ok.injEq] at h
  obtain ⟨t, ht, -, hnew, rfl⟩ := h
  exact ⟨t, ht, OrderedSet.insert_new.mp hnew, rfl⟩

/-- A new entry, and the alarm for it if it is the first. -/
theorem addTimerInLoop_ok {now setAt : Int} (h : q.addTimerInLoop p now setAt = .ok q') :
    ∃ t s earliest a, q.timers p = some t ∧ ⟨t.expiration_, p⟩ ∉ q.timerList_ ∧
      (∀ e, e ∈ s ↔ e = ⟨t.expiration_, p⟩ ∨ e ∈ q.timerList_) ∧
      (((∀ e ∈ q.timerList_, t.expiration_ < e.first) ∧
          a = some (alarmFor t.expiration_ now setAt)) ∨
        ((∃ e ∈ q.timerList_, e.first ≤ t.expiration_) ∧ a = q.alarm)) ∧
      q' = { q with timerList_ := s, earliestChanged_ := earliest, alarm := a } := by
  simp only [addTimerInLoop, bind_eq_ok, deref_eq_ok, pure_eq_ok, Except.ok.injEq] at h
  obtain ⟨q₁, hinsert, t', ht', rfl⟩ := h
  obtain ⟨t, ht, hnew, rfl⟩ := insert_ok hinsert
  rw [show q.timers p = some t' from ht'] at ht
  cases ht
  have hmem : ∀ e, e ∈ (q.timerList_.insert ⟨t'.expiration_, p⟩).1 ↔
      e = ⟨t'.expiration_, p⟩ ∨ e ∈ q.timerList_ := fun _ => OrderedSet.mem_insert
  cases hearly : q.isEarliest t'.expiration_ with
  | true =>
      exact ⟨t', _, true, _, ht', hnew, hmem, .inl ⟨isEarliest_iff.mp hearly, rfl⟩, rfl⟩
  | false =>
      refine ⟨t', _, false, _, ht', hnew, hmem, .inr ⟨?_, rfl⟩, rfl⟩
      have hnot := mt isEarliest_iff.mpr (ne_true_of_eq_false hearly)
      simpa using hnot

theorem cancelTimerInLoop_ok (h : q.cancelTimerInLoop p = .ok q') :
    ∃ t, q.timers p = some t ∧
      ((⟨t.expiration_, p⟩ ∈ q.timerList_ ∧
          q' = { q with timerList_ := q.timerList_.erase ⟨t.expiration_, p⟩ }) ∨
        (⟨t.expiration_, p⟩ ∉ q.timerList_ ∧ q.callingExpiredTimers_ = true ∧
          q' = { q with cancelingTimers_ := Insert.insert p q.cancelingTimers_ }) ∨
        (⟨t.expiration_, p⟩ ∉ q.timerList_ ∧ q.callingExpiredTimers_ = false ∧ q' = q)) := by
  simp only [cancelTimerInLoop, bind_eq_ok, deref_eq_ok, pure_eq_ok, Except.ok.injEq] at h
  obtain ⟨t, ht, h⟩ := h
  refine ⟨t, ht, ?_⟩
  split at h
  · rename_i hmem
    exact .inl ⟨hmem, h.symm⟩
  · rename_i hmem
    split at h
    · rename_i hcalling
      exact .inr (.inl ⟨hmem, hcalling, h.symm⟩)
    · rename_i hcalling
      exact .inr (.inr ⟨hmem, eq_false_of_ne_true hcalling, h.symm⟩)

theorem lt_helper {e : TimeEntry} {now : Int} : e < ⟨now, 0⟩ ↔ e.first < now := by
  rw [TimeEntry.lt_iff]
  simp

/-- Before the bound the entries are due earlier; at the bound there may be one
that is due now. -/
theorem lastExpired_le {now : Int} {e : TimeEntry}
    (he : e ∈ q.timerList_.elems.take (q.lastExpired now)) : e.first ≤ now := by
  have hbefore : e ∈ q.timerList_.elems.take (q.timerList_.lowerBound ⟨now, 0⟩) →
      e.first ≤ now := fun h => (lt_helper.mp (OrderedSet.lt_of_mem_take h)).le
  unfold lastExpired at he
  dsimp only at he
  split at he
  · rename_i hnow
    obtain ⟨e₀, he₀, hfirst⟩ := Option.map_eq_some_iff.mp hnow
    rw [List.take_add_one, he₀] at he
    rcases List.mem_append.mp he with he | he
    · exact hbefore he
    · rw [Option.toList_some, List.mem_singleton] at he
      rw [he]
      exact hfirst.le
  · exact hbefore he

/-- What `getExpired` takes has expired, and what it leaves has not. -/
theorem getExpired_ok {now : Int} {expired : List TimeEntry}
    (h : q.getExpired now = .ok (expired, q')) :
    ∃ s : OrderedSet TimeEntry, expired ++ s.elems = q.timerList_.elems ∧
      (∀ e ∈ expired, e.first ≤ now) ∧ (∀ e ∈ s, now < e.first) ∧
      q' = { q with timerList_ := s } := by
  simp only [getExpired, bind_eq_ok, assert_eq_ok, pure_eq_ok, Except.ok.injEq,
    Prod.mk.injEq] at h
  obtain ⟨-, hassert, rfl, rfl⟩ := h
  refine ⟨_, List.take_append_drop _ _, fun e he => lastExpired_le he, ?_, rfl⟩
  -- the first of the rest has been checked, and the others are not before it
  intro e he
  obtain ⟨e₀, he₀⟩ := OrderedSet.exists_begin he
  have hget : q.timerList_.elems[q.lastExpired now]? = some e₀ := by
    rw [← List.head?_drop]
    exact he₀
  rw [hget] at hassert
  have hfirst : now < e₀.first := by simpa using hassert
  exact hfirst.trans_le (TimeEntry.first_le (OrderedSet.begin_le he₀ he))

theorem readAlarmfd_eq (q : TimerQueue) (now : Int) :
    ∃ a, (a = q.alarm ∨ a = none) ∧ q.readAlarmfd now = { q with alarm := a } := by
  unfold readAlarmfd
  split
  · exact ⟨q.alarm, .inl rfl, rfl⟩
  · split
    · exact ⟨none, .inr rfl, rfl⟩
    · exact ⟨q.alarm, .inl rfl, rfl⟩

theorem beginRead_ok {now readAt : Int} (h : q.beginRead now readAt = .ok q') :
    ∃ (expired : List TimeEntry) (s : OrderedSet TimeEntry) (a : Option Alarm),
      expired ++ s.elems = q.timerList_.elems ∧ (∀ e ∈ expired, e.first ≤ now) ∧
      (∀ e ∈ s, now < e.first) ∧
      q' = { q with
        timerList_ := s
        alarm := a
        cancelingTimers_ := ∅
        callingExpiredTimers_ := true
        phase := .calling now expired expired
        batches := q.batches + 1 } := by
  obtain ⟨a, -, halarm⟩ := readAlarmfd_eq q readAt
  rw [beginRead, halarm] at h
  simp only [bind_eq_ok, Prod.exists, pure_eq_ok, Except.ok.injEq] at h
  obtain ⟨expired, q₁, hexpired, rfl⟩ := h
  obtain ⟨s, hsplit, hdue, hlater, rfl⟩ := getExpired_ok hexpired
  exact ⟨expired, s, a, hsplit, hdue, hlater, rfl⟩

theorem runTimer_ok {now : Int} {expired rest : List TimeEntry} {e : TimeEntry}
    (hphase : q.phase = .calling now expired (e :: rest)) (h : q.runTimer = .ok q') :
    ∃ t, q.timers e.second = some t ∧
      q' = { q with
        phase := .calling now expired rest
        runs := q.runs ++ [⟨e.second, q.batches, now, t.expiration_⟩] } := by
  simp only [runTimer, hphase, bind_eq_ok, deref_eq_ok, pure_eq_ok, Except.ok.injEq] at h
  obtain ⟨t, ht, rfl⟩ := h
  exact ⟨t, ht, rfl⟩

/-- Timers keep their intervals. -/
def Keeps (q q' : TimerQueue) : Prop :=
  ∀ p t, q.timers p = some t → ∃ t', q'.timers p = some t' ∧ t'.interval_ = t.interval_

theorem Keeps.of_timers (h : q'.timers = q.timers) : Keeps q q' :=
  fun _ t ht => ⟨t, h ▸ ht, rfl⟩

theorem Keeps.alloc (hnew : q.timers p = none) (t : Timer)
    (h : q'.timers = Function.update q.timers p (some t)) : Keeps q q' := by
  intro p' t' ht'
  have hne : p' ≠ p := by
    rintro rfl
    rw [hnew] at ht'
    cases ht'
  exact ⟨t', by rw [h, Function.update_of_ne hne, ht'], rfl⟩

/-- No timer is freed. -/
theorem Keeps.alive (h : Keeps q q') (hp : q.timers p ≠ none) : q'.timers p ≠ none := by
  obtain ⟨t, ht⟩ := Option.ne_none_iff_exists'.mp hp
  obtain ⟨t', ht', -⟩ := h p t ht
  rw [ht']
  exact Option.some_ne_none t'

/-! ## `reset` -/

/-- An expired entry whose timer repeats and is not cancelled, and the entry it
comes back with. -/
def Restarts (q : TimerQueue) (now : Int) (e e' : TimeEntry) : Prop :=
  ∃ t, q.timers e.second = some t ∧ t.repeat_ = true ∧ e.second ∉ q.cancelingTimers_ ∧
    e' = ⟨addTime now t.interval_, e.second⟩

theorem resetOne_ok {now : Int} {e : TimeEntry} (h : resetOne now q e = .ok q') :
    ∃ t, q.timers e.second = some t ∧
      ((t.repeat_ = true ∧ e.second ∉ q.cancelingTimers_ ∧ ∃ earliest,
          q' = { q with
            timers := Function.update q.timers e.second (some (t.restart now))
            earliestChanged_ := earliest
            timerList_ := (q.timerList_.insert ⟨addTime now t.interval_, e.second⟩).1 }) ∨
        (¬ (t.repeat_ = true ∧ e.second ∉ q.cancelingTimers_) ∧ q' = q)) := by
  simp only [resetOne, bind_eq_ok, deref_eq_ok] at h
  obtain ⟨t, ht, h⟩ := h
  refine ⟨t, ht, ?_⟩
  split at h
  · rename_i hrepeat
    obtain ⟨t', ht', -, rfl⟩ := insert_ok h
    have ht' : Function.update q.timers e.second (some (t.restart now)) e.second = some t' := ht'
    rw [Function.update_self] at ht'
    cases ht'
    have hexp : (t.restart now).expiration_ = addTime now t.interval_ := if_pos hrepeat.1
    refine .inl ⟨hrepeat.1, hrepeat.2, ?_⟩
    rw [hexp]
    exact ⟨_, rfl⟩
  · rename_i hrepeat
    cases h
    exact .inr ⟨hrepeat, rfl⟩

/-- What the loop of `reset` over `es` has done. -/
structure Reset (now : Int) (es : List TimeEntry) (q q' : TimerQueue) : Prop where
  frame : ∃ earliest, q' = { q with
    timers := q'.timers, earliestChanged_ := earliest, timerList_ := q'.timerList_ }
  mem : ∀ e', e' ∈ q'.timerList_ ↔ e' ∈ q.timerList_ ∨ ∃ e ∈ es, q.Restarts now e e'
  others : ∀ p, (∀ e ∈ es, e.second ≠ p) → q'.timers p = q.timers p
  timers : ∀ e ∈ es, ∃ t, q.timers e.second = some t ∧ q'.timers e.second =
    some (if t.repeat_ = true ∧ e.second ∉ q.cancelingTimers_ then t.restart now else t)

theorem Reset.runs {now : Int} {es : List TimeEntry} (h : Reset now es q q') :
    q'.runs = q.runs := by
  obtain ⟨earliest, hframe⟩ := h.frame
  rw [hframe]

theorem Reset.pendingFunctors {now : Int} {es : List TimeEntry} (h : Reset now es q q') :
    q'.pendingFunctors_ = q.pendingFunctors_ := by
  obtain ⟨earliest, hframe⟩ := h.frame
  rw [hframe]

/-- A restarted timer keeps its interval. -/
theorem Reset.keeps {now : Int} {es : List TimeEntry} (h : Reset now es q q') : Keeps q q' := by
  intro p t ht
  by_cases hbatch : ∃ e ∈ es, e.second = p
  · obtain ⟨e, he, rfl⟩ := hbatch
    obtain ⟨t', ht', hafter⟩ := h.timers e he
    rw [ht] at ht'
    cases ht'
    refine ⟨_, hafter, ?_⟩
    split <;> rfl
  · refine ⟨t, ?_, rfl⟩
    rw [h.others p fun e he heq => hbatch ⟨e, he, heq⟩]
    exact ht

theorem Reset.cons {now : Int} {e : TimeEntry} {es : List TimeEntry} {q₁ : TimerQueue}
    (hone : resetOne now q e = .ok q₁) (h : Reset now es q₁ q')
    (hfresh : ∀ e' ∈ es, e'.second ≠ e.second) : Reset now (e :: es) q q' := by
  obtain ⟨t, ht, hcase⟩ := resetOne_ok hone
  -- the first entry touches one timer and adds at most one entry
  obtain ⟨earliest, hframe⟩ : ∃ earliest, q₁ = { q with
      timers := q₁.timers, earliestChanged_ := earliest, timerList_ := q₁.timerList_ } := by
    rcases hcase with ⟨-, -, earliest, rfl⟩ | ⟨-, rfl⟩
    · exact ⟨earliest, rfl⟩
    · exact ⟨_, rfl⟩
  have hcanceling : q₁.cancelingTimers_ = q.cancelingTimers_ := by rw [hframe]
  have hothers : ∀ p, e.second ≠ p → q₁.timers p = q.timers p := by
    intro p hp
    rcases hcase with ⟨-, -, earliest, rfl⟩ | ⟨-, rfl⟩
    · exact Function.update_of_ne (Ne.symm hp) _ _
    · rfl
  have hself : q₁.timers e.second =
      some (if t.repeat_ = true ∧ e.second ∉ q.cancelingTimers_ then t.restart now else t) := by
    rcases hcase with ⟨hrepeat, hnot, earliest, rfl⟩ | ⟨hnot, rfl⟩
    · rw [if_pos ⟨hrepeat, hnot⟩]
      exact Function.update_self _ _ _
    · rw [if_neg hnot]
      exact ht
  have hmem : ∀ e', e' ∈ q₁.timerList_ ↔ e' ∈ q.timerList_ ∨ q.Restarts now e e' := by
    intro e'
    rcases hcase with ⟨hrepeat, hnot, earliest, rfl⟩ | ⟨hnot, rfl⟩
    · rw [OrderedSet.mem_insert, or_comm]
      refine or_congr Iff.rfl ⟨fun h => ⟨t, ht, hrepeat, hnot, h⟩, ?_⟩
      rintro ⟨t', ht', -, -, rfl⟩
      rw [ht] at ht'
      cases ht'
      rfl
    · refine ⟨.inl, ?_⟩
      rintro (h | ⟨t', ht', hrepeat, hcancel, -⟩)
      · exact h
      · rw [ht] at ht'
        cases ht'
        exact absurd ⟨hrepeat, hcancel⟩ hnot
  have hrestarts : ∀ e₀ ∈ es, ∀ e', q₁.Restarts now e₀ e' ↔ q.Restarts now e₀ e' := by
    intro e₀ he₀ e'
    rw [Restarts, hothers _ (Ne.symm (hfresh e₀ he₀)), hcanceling]
    rfl
  obtain ⟨earliest', hframe'⟩ := h.frame
  refine ⟨⟨earliest', ?_⟩, ?_, ?_, ?_⟩
  · rw [hframe', hframe]
  · intro e'
    rw [h.mem, hmem, or_assoc, List.exists_mem_cons_iff]
    refine or_congr Iff.rfl (or_congr Iff.rfl ?_)
    exact exists_congr fun e₀ => and_congr_right fun he₀ => hrestarts e₀ he₀ e'
  · intro p hp
    rw [h.others p fun e₀ he₀ => hp e₀ (List.mem_cons_of_mem _ he₀)]
    exact hothers p (hp e List.mem_cons_self)
  · intro e₀ he₀
    rcases List.mem_cons.mp he₀ with rfl | he₀
    · refine ⟨t, ht, ?_⟩
      rw [h.others _ hfresh]
      exact hself
    · obtain ⟨t₀, ht₀, hafter⟩ := h.timers e₀ he₀
      rw [hothers _ (Ne.symm (hfresh e₀ he₀))] at ht₀
      rw [hcanceling] at hafter
      exact ⟨t₀, ht₀, hafter⟩

theorem reset_ok {now : Int} {es : List TimeEntry} (hnodup : (es.map (·.second)).Nodup)
    (h : es.foldlM (resetOne now) q = .ok q') : Reset now es q q' := by
  induction es generalizing q with
  | nil =>
      cases h
      exact ⟨⟨_, rfl⟩, by simp, fun _ _ => rfl, by simp⟩
  | cons e es ih =>
      rw [List.foldlM_cons, bind_eq_ok] at h
      obtain ⟨q₁, hone, hrest⟩ := h
      rw [List.map_cons, List.nodup_cons] at hnodup
      refine .cons hone (ih hnodup.2 hrest) ?_
      intro e' he' heq
      exact hnodup.1 (heq ▸ List.mem_map_of_mem he')

/-- The alarm at the end of `reset`. -/
theorem rearm_ok {now setAt : Int} (h : q.rearm now setAt = .ok q') :
    ∃ a, q' = { q with alarm := a } ∧
      ∀ e t, q.timerList_.begin? = some e → q.timers e.second = some t →
        (0 < t.expiration_ ∧ a = some (alarmFor t.expiration_ now setAt)) ∨
        (t.expiration_ ≤ 0 ∧ a = q.alarm) := by
  unfold rearm at h
  split at h
  · rename_i hnone
    cases h
    refine ⟨_, rfl, ?_⟩
    intro e t he
    rw [hnone] at he
    cases he
  · rename_i e₀ he₀
    simp only [bind_eq_ok, deref_eq_ok, pure_eq_ok, Except.ok.injEq] at h
    obtain ⟨t₀, ht₀, rfl⟩ := h
    by_cases hvalid : 0 < t₀.expiration_
    · rw [if_pos hvalid]
      refine ⟨_, rfl, ?_⟩
      intro e t he ht
      rw [he₀] at he
      cases he
      rw [ht₀] at ht
      cases ht
      exact .inl ⟨hvalid, rfl⟩
    · rw [if_neg hvalid]
      refine ⟨_, rfl, ?_⟩
      intro e t he ht
      rw [he₀] at he
      cases he
      rw [ht₀] at ht
      cases ht
      exact .inr ⟨not_lt.mp hvalid, rfl⟩

/-- `handleRead` behind the last callback: the loop of `reset`, then the
alarm. -/
theorem endRead_ok {now resetNow setAt : Int} {expired : List TimeEntry}
    (hphase : q.phase = .calling now expired []) (hnodup : (expired.map (·.second)).Nodup)
    (h : q.endRead resetNow setAt = .ok q') :
    ∃ q₁, Reset now expired q q₁ ∧ ∃ a, q' = { q₁ with
        callingExpiredTimers_ := false, phase := .outside, alarm := a } ∧
      ∀ e t, q₁.timerList_.begin? = some e → q₁.timers e.second = some t →
        (0 < t.expiration_ ∧ a = some (alarmFor t.expiration_ resetNow setAt)) ∨
        (t.expiration_ ≤ 0 ∧ a = q.alarm) := by
  simp only [endRead, hphase, bind_eq_ok] at h
  obtain ⟨q₂, hloop, hrearm⟩ := h
  have hreset := reset_ok hnodup hloop
  obtain ⟨a, rfl, halarm⟩ := rearm_ok hrearm
  obtain ⟨earliest, hframe⟩ := hreset.frame
  refine ⟨{ q with
    timers := q₂.timers, earliestChanged_ := earliest, timerList_ := q₂.timerList_ }, ?_, a, ?_, ?_⟩
  · exact ⟨⟨earliest, rfl⟩, hreset.mem, hreset.others, hreset.timers⟩
  · rw [hframe]
  · intro e t he ht
    refine (halarm e t he ht).imp id fun hold => ⟨hold.1, hold.2.trans ?_⟩
    rw [hframe]

/-! ## Well-formed queues -/

/-- The calls of one timer's callback. -/
def runsOf (q : TimerQueue) (p : TimerPtr) : List TimerRun :=
  q.runs.filter (·.timer = p)

/-- The entries `handleRead` is working on. -/
def expired (q : TimerQueue) : List TimeEntry :=
  match q.phase with
  | .outside => []
  | .calling _ expired _ => expired

/-- Those whose callbacks are still to be called. -/
def rest (q : TimerQueue) : List TimeEntry :=
  match q.phase with
  | .outside => []
  | .calling _ _ rest => rest

theorem expired_of_phase {now : Int} {expired rest : List TimeEntry}
    (h : q.phase = .calling now expired rest) : q.expired = expired := by
  simp [TimerQueue.expired, h]

theorem rest_of_phase {now : Int} {expired rest : List TimeEntry}
    (h : q.phase = .calling now expired rest) : q.rest = rest := by
  simp [TimerQueue.rest, h]

/-- The entry carries the expiration of its timer. -/
def Carries (q : TimerQueue) (e : TimeEntry) : Prop :=
  ∃ t, q.timers e.second = some t ∧ t.expiration_ = e.first

theorem Carries.unique {e e' : TimeEntry} (h : q.Carries e) (h' : q.Carries e')
    (heq : e.second = e'.second) : e = e' := by
  obtain ⟨t, ht, hfirst⟩ := h
  obtain ⟨t', ht', hfirst'⟩ := h'
  rw [heq, ht'] at ht
  cases ht
  cases e
  cases e'
  cases heq
  cases hfirst
  cases hfirst'
  rfl

structure Wf (q : TimerQueue) : Prop where
  listed : ∀ e ∈ q.timerList_, q.Carries e
  expired : ∀ e ∈ q.expired, q.Carries e
  sorted : q.expired.Pairwise (· < ·)
  suffix : q.rest <:+ q.expired
  /-- What has expired is out of the list. -/
  apart : ∀ e ∈ q.expired, ∀ e' ∈ q.timerList_, e'.second ≠ e.second
  /-- What waits to be inserted is nowhere yet. -/
  queued : ∀ p, .addTimerInLoop p ∈ q.pendingFunctors_ →
    q.timers p ≠ none ∧ (∀ e ∈ q.timerList_, e.second ≠ p) ∧ ∀ e ∈ q.expired, e.second ≠ p
  once : ∀ p, q.pendingFunctors_.count (.addTimerInLoop p) ≤ 1
  calling : q.callingExpiredTimers_ = true ↔ q.phase ≠ .outside

theorem wf_init : Wf {} where
  listed := fun e he => absurd he (OrderedSet.not_mem_empty e)
  expired := fun e he => absurd he List.not_mem_nil
  sorted := .nil
  suffix := List.suffix_refl _
  apart := fun e he => absurd he List.not_mem_nil
  queued := fun p hp => absurd hp List.not_mem_nil
  once := fun p => Nat.zero_le 1
  calling := by simp

/-- The timers of a batch are different ones. -/
theorem Wf.nodup (h : Wf q) : (q.expired.map (·.second)).Nodup := by
  rw [List.Nodup, List.pairwise_map]
  refine List.Pairwise.imp_of_mem ?_ h.sorted
  intro e e' he he' hlt heq
  exact hlt.ne ((h.expired e he).unique (h.expired e' he') heq)

/-- What is left of a batch is behind the entry whose turn it is, and of other
timers. -/
theorem Wf.rest_cons (h : Wf q) {e : TimeEntry} {rest : List TimeEntry}
    (hrest : q.rest = e :: rest) :
    e ∈ q.expired ∧ ∀ e' ∈ rest, e.first ≤ e'.first ∧ e.second ≠ e'.second := by
  have hsorted := h.sorted.sublist h.suffix.sublist
  have hnodup := h.nodup.sublist (h.suffix.sublist.map (·.second))
  rw [hrest] at hsorted hnodup
  refine ⟨h.suffix.mem (hrest ▸ List.mem_cons_self), ?_⟩
  intro e' he'
  refine ⟨TimeEntry.first_le ((List.pairwise_cons.mp hsorted).1 e' he').le, ?_⟩
  intro heq
  exact (List.nodup_cons.mp hnodup).1 (List.mem_map.mpr ⟨e', he', heq.symm⟩)

/-- A timer that is nowhere can be put somewhere. -/
theorem Wf.not_listed (h : Wf q) (hp : q.timers p = none) :
    (∀ e ∈ q.timerList_, e.second ≠ p) ∧ (∀ e ∈ q.expired, e.second ≠ p) ∧
    .addTimerInLoop p ∉ q.pendingFunctors_ := by
  refine ⟨?_, ?_, ?_⟩
  · rintro e he rfl
    obtain ⟨t, ht, -⟩ := h.listed e he
    rw [hp] at ht
    cases ht
  · rintro e he rfl
    obtain ⟨t, ht, -⟩ := h.expired e he
    rw [hp] at ht
    cases ht
  · intro hq
    exact (h.queued p hq).1 hp

/-- `make_shared<Timer>`. -/
theorem Wf.alloc (h : Wf q) (hp : q.timers p = none) (t : Timer) :
    Wf { q with timers := Function.update q.timers p (some t) } := by
  obtain ⟨hlist, hexpired, -⟩ := h.not_listed hp
  have hcarries : ∀ e, e.second ≠ p → q.Carries e →
      Carries { q with timers := Function.update q.timers p (some t) } e := by
    rintro e hne ⟨t', ht', hfirst⟩
    exact ⟨t', (Function.update_of_ne hne _ _).trans ht', hfirst⟩
  refine ⟨fun e he => hcarries e (hlist e he) (h.listed e he),
    fun e he => hcarries e (hexpired e he) (h.expired e he), h.sorted, h.suffix, h.apart, ?_,
    h.once, h.calling⟩
  intro p' hp'
  refine ⟨?_, (h.queued p' hp').2⟩
  show Function.update q.timers p (some t) p' ≠ none
  by_cases heq : p' = p
  · subst heq
    simp
  · rw [Function.update_of_ne heq]
    exact (h.queued p' hp').1

/-- A functor more in the queue. -/
theorem Wf.enqueue (h : Wf q) {f : TimerFunctor}
    (hadd : ∀ p, f = .addTimerInLoop p → q.timers p ≠ none ∧ (∀ e ∈ q.timerList_, e.second ≠ p) ∧
      (∀ e ∈ q.expired, e.second ≠ p) ∧ .addTimerInLoop p ∉ q.pendingFunctors_) :
    Wf { q with pendingFunctors_ := q.pendingFunctors_ ++ [f] } := by
  refine ⟨h.listed, h.expired, h.sorted, h.suffix, h.apart, ?_, ?_, h.calling⟩
  · intro p hp
    rcases List.mem_append.mp hp with hp | hp
    · exact h.queued p hp
    · obtain ⟨halive, hlist, hexpired, -⟩ := hadd p (List.mem_singleton.mp hp).symm
      exact ⟨halive, hlist, hexpired⟩
  · intro p
    show (q.pendingFunctors_ ++ [f]).count _ ≤ 1
    rw [List.count_append]
    by_cases hf : f = .addTimerInLoop p
    · rw [List.count_eq_zero.mpr (hadd p hf).2.2.2, hf, List.count_singleton_self]
    · rw [List.count_singleton, if_neg (by simpa using hf), Nat.add_zero]
      exact h.once p

/-- The next functor leaves the queue. -/
theorem Wf.pop (h : Wf q) {f : TimerFunctor} {fs : List TimerFunctor}
    (hfs : q.pendingFunctors_ = f :: fs) :
    Wf { q with pendingFunctors_ := fs } ∧ ∀ p, f = .addTimerInLoop p →
      .addTimerInLoop p ∉ fs ∧ ∀ e ∈ q.expired, e.second ≠ p := by
  refine ⟨⟨h.listed, h.expired, h.sorted, h.suffix, h.apart, ?_, ?_, h.calling⟩, ?_⟩
  · intro p hp
    exact h.queued p (hfs ▸ List.mem_cons_of_mem f hp)
  · intro p
    have honce := h.once p
    rw [hfs, List.count_cons] at honce
    exact Nat.le_trans (Nat.le_add_right _ _) honce
  · rintro p rfl
    have honce := h.once p
    rw [hfs, List.count_cons_self] at honce
    exact ⟨List.count_eq_zero.mp (by omega), (h.queued p (hfs ▸ List.mem_cons_self)).2.2⟩

/-- A waiting timer goes into the list. -/
theorem Wf.addTimerInLoop (h : Wf q) {now setAt : Int}
    (hqueue : .addTimerInLoop p ∉ q.pendingFunctors_) (hbatch : ∀ e ∈ q.expired, e.second ≠ p)
    (hadd : q.addTimerInLoop p now setAt = .ok q') : Wf q' := by
  obtain ⟨t, s, earliest, a, ht, -, hmem, -, rfl⟩ := addTimerInLoop_ok hadd
  refine ⟨?_, h.expired, h.sorted, h.suffix, ?_, ?_, h.once, h.calling⟩
  · intro e he
    rcases (hmem e).mp he with rfl | he
    · exact ⟨t, ht, rfl⟩
    · exact h.listed e he
  · intro e he e' he'
    rcases (hmem e').mp he' with rfl | he'
    · exact Ne.symm (hbatch e he)
    · exact h.apart e he e' he'
  · intro p' hp'
    obtain ⟨halive, hlist, hexpired⟩ := h.queued p' hp'
    refine ⟨halive, ?_, hexpired⟩
    intro e he
    rcases (hmem e).mp he with rfl | he
    · rintro rfl
      exact hqueue hp'
    · exact hlist e he

theorem Wf.cancelTimerInLoop (h : Wf q) (hcancel : q.cancelTimerInLoop p = .ok q') : Wf q' := by
  obtain ⟨t, -, ⟨-, rfl⟩ | ⟨-, -, rfl⟩ | ⟨-, -, rfl⟩⟩ := cancelTimerInLoop_ok hcancel
  · refine ⟨fun e he => h.listed e (OrderedSet.mem_erase.mp he).2, h.expired, h.sorted, h.suffix,
      fun e he e' he' => h.apart e he e' (OrderedSet.mem_erase.mp he').2, ?_, h.once, h.calling⟩
    intro p' hp'
    obtain ⟨halive, hlist, hexpired⟩ := h.queued p' hp'
    exact ⟨halive, fun e he => hlist e (OrderedSet.mem_erase.mp he).2, hexpired⟩
  · exact ⟨h.listed, h.expired, h.sorted, h.suffix, h.apart, h.queued, h.once, h.calling⟩
  · exact h

theorem Wf.beginRead (h : Wf q) {now readAt : Int} (hread : q.beginRead now readAt = .ok q') :
    Wf q' := by
  obtain ⟨expired, s, a, hsplit, hdue, hlater, rfl⟩ := beginRead_ok hread
  have hfront : ∀ e ∈ expired, e ∈ q.timerList_ := fun _ he => OrderedSet.mem_of_front hsplit he
  have hback : ∀ e ∈ s, e ∈ q.timerList_ := fun _ he => OrderedSet.mem_of_back hsplit he
  have hsorted := q.timerList_.sorted
  rw [← hsplit, List.pairwise_append] at hsorted
  refine ⟨fun e he => h.listed e (hback e he), fun e he => h.listed e (hfront e he), hsorted.1,
    List.suffix_refl _, ?_, ?_, h.once, by simp⟩
  · -- a timer has one entry, which is before the cut or behind it
    intro e he e' he' heq
    have hsame := (h.listed e' (hback e' he')).unique (h.listed e (hfront e he)) heq
    exact (hsorted.2.2 e he e' he').ne hsame.symm
  · intro p hp
    obtain ⟨halive, hlist, -⟩ := h.queued p hp
    exact ⟨halive, fun e he => hlist e (hback e he), fun e he => hlist e (hfront e he)⟩

theorem Wf.runTimer (h : Wf q) {now : Int} {expired rest : List TimeEntry} {e : TimeEntry}
    (hphase : q.phase = .calling now expired (e :: rest)) (hrun : q.runTimer = .ok q') : Wf q' := by
  obtain ⟨t, -, rfl⟩ := runTimer_ok hphase hrun
  have hexpired := expired_of_phase hphase
  have hrest := rest_of_phase hphase
  have hsuffix := h.suffix
  rw [hrest, hexpired] at hsuffix
  refine ⟨h.listed, ?_, ?_, (List.suffix_cons e rest).trans hsuffix, ?_, ?_, h.once, ?_⟩
  · exact hexpired ▸ h.expired
  · exact hexpired ▸ h.sorted
  · exact hexpired ▸ h.apart
  · exact hexpired ▸ h.queued
  · have hcalling : q.callingExpiredTimers_ = true := h.calling.mpr (by simp [hphase])
    simp [hcalling]

/-- An old entry is of a timer outside the batch, a new one carries the restarted
expiration. -/
theorem Reset.carries {now : Int} {es : List TimeEntry} (hreset : Reset now es q q')
    (hlisted : ∀ e ∈ q.timerList_, q.Carries e)
    (hapart : ∀ e ∈ es, ∀ e' ∈ q.timerList_, e'.second ≠ e.second) :
    ∀ e' ∈ q'.timerList_, q'.Carries e' := by
  intro e' he'
  rcases (hreset.mem e').mp he' with hold | ⟨e, he, t, ht, hrepeat, hnot, rfl⟩
  · obtain ⟨t, ht, hfirst⟩ := hlisted e' hold
    refine ⟨t, ?_, hfirst⟩
    rw [← ht]
    exact hreset.others e'.second fun e he => Ne.symm (hapart e he e' hold)
  · obtain ⟨t', ht', hafter⟩ := hreset.timers e he
    rw [ht] at ht'
    cases ht'
    rw [if_pos ⟨hrepeat, hnot⟩] at hafter
    exact ⟨_, hafter, if_pos hrepeat⟩

/-- `endRead_ok` for a well-formed queue, whose batch has no timer twice. -/
theorem Wf.reset (h : Wf q) {now resetNow setAt : Int} {expired : List TimeEntry}
    (hphase : q.phase = .calling now expired []) (hread : q.endRead resetNow setAt = .ok q') :
    ∃ q₁, Reset now expired q q₁ ∧ ∃ a, q' = { q₁ with
        callingExpiredTimers_ := false, phase := .outside, alarm := a } ∧
      ∀ e t, q₁.timerList_.begin? = some e → q₁.timers e.second = some t →
        (0 < t.expiration_ ∧ a = some (alarmFor t.expiration_ resetNow setAt)) ∨
        (t.expiration_ ≤ 0 ∧ a = q.alarm) := by
  have hnodup := h.nodup
  rw [expired_of_phase hphase] at hnodup
  exact endRead_ok hphase hnodup hread

theorem Wf.endRead (h : Wf q) {now resetNow setAt : Int} {expired : List TimeEntry}
    (hphase : q.phase = .calling now expired []) (hread : q.endRead resetNow setAt = .ok q') :
    Wf q' := by
  obtain ⟨q₁, hreset, a, rfl, -⟩ := h.reset hphase hread
  have hpending := hreset.pendingFunctors
  rw [← expired_of_phase hphase] at hreset
  refine ⟨?_, fun e he => absurd he List.not_mem_nil, .nil, List.suffix_refl _,
    fun e he => absurd he List.not_mem_nil, ?_, ?_, by simp⟩
  · exact hreset.carries h.listed h.apart
  · intro p hp
    have hp : .addTimerInLoop p ∈ q.pendingFunctors_ := hpending ▸ hp
    obtain ⟨halive, hlist, hbatch⟩ := h.queued p hp
    refine ⟨?_, ?_, fun e he => absurd he List.not_mem_nil⟩
    · show q₁.timers p ≠ none
      rw [hreset.others p hbatch]
      exact halive
    · intro e' he'
      rcases (hreset.mem e').mp he' with hold | ⟨e, he, t, -, -, -, rfl⟩
      · exact hlist e' hold
      · exact hbatch e he
  · intro p
    show q₁.pendingFunctors_.count _ ≤ 1
    rw [hpending]
    exact h.once p

/-! ## The steps of the system -/

/-- What a label stands for: the operation that runs, and what comes before it. -/
inductive Moves (q q' : TimerQueue) : TimerLabel → Prop
  | queueAdd {p : TimerPtr} {when_ : Int} {interval : ℚ} {now setAt : Nat}
      (fresh : q.timers p = none) (after : q' = { q with
        timers := Function.update q.timers p (some (Timer.create when_ interval))
        pendingFunctors_ := q.pendingFunctors_ ++ [.addTimerInLoop p] }) :
      Moves q q' (.addTimer false p when_ interval now setAt)
  | queueCancel {p : TimerPtr} (after : q' = { q with
        pendingFunctors_ := q.pendingFunctors_ ++ [.cancelTimerInLoop p] }) :
      Moves q q' (.cancelTimer false p)
  | addNow {p : TimerPtr} {when_ : Int} {interval : ℚ} {now setAt : Nat}
      (fresh : q.timers p = none) (add : TimerQueue.addTimerInLoop
        { q with timers := Function.update q.timers p (some (Timer.create when_ interval)) }
        p now setAt = .ok q') :
      Moves q q' (.addTimer true p when_ interval now setAt)
  | addQueued {p : TimerPtr} {now setAt : Nat} {fs : List TimerFunctor}
      (pending : q.pendingFunctors_ = .addTimerInLoop p :: fs)
      (add : TimerQueue.addTimerInLoop { q with pendingFunctors_ := fs } p now setAt = .ok q') :
      Moves q q' (.runFunctor now setAt)
  | cancelNow {p : TimerPtr} (cancel : q.cancelTimerInLoop p = .ok q') :
      Moves q q' (.cancelTimer true p)
  | cancelQueued {p : TimerPtr} {now setAt : Nat} {fs : List TimerFunctor}
      (pending : q.pendingFunctors_ = .cancelTimerInLoop p :: fs)
      (cancel : TimerQueue.cancelTimerInLoop { q with pendingFunctors_ := fs } p = .ok q') :
      Moves q q' (.runFunctor now setAt)
  | beginRead {now readAt : Nat} (phase : q.phase = .outside) (valid : 0 < now)
      (read : q.beginRead now readAt = .ok q') : Moves q q' (.beginRead now readAt)
  | runTimer {now : Int} {expired rest : List TimeEntry} {e : TimeEntry}
      (phase : q.phase = .calling now expired (e :: rest)) (run : q.runTimer = .ok q') :
      Moves q q' .runTimer
  | endRead {now : Int} {expired : List TimeEntry} {resetNow setAt : Nat}
      (phase : q.phase = .calling now expired []) (read : q.endRead resetNow setAt = .ok q') :
      Moves q q' (.endRead resetNow setAt)

theorem step_moves {l : TimerLabel} (h : timerQueue.Step q l q') : Moves q q' l := by
  obtain ⟨hen, hstep⟩ := h
  have hstep : q.step l = .ok q' := hstep
  cases l with
  | addTimer inLoop p when_ interval now setAt =>
      cases inLoop with
      | true => exact .addNow hen.2.1 hstep
      | false => exact .queueAdd hen.2.1 (Except.ok.inj hstep).symm
  | cancelTimer inLoop p =>
      cases inLoop with
      | true => exact .cancelNow hstep
      | false => exact .queueCancel (Except.ok.inj hstep).symm
  | runFunctor now setAt =>
      obtain ⟨-, hne⟩ := hen
      simp only [step, runFunctor] at hstep
      split at hstep
      · rename_i hnil
        exact absurd hnil hne
      · exact .addQueued ‹_› hstep
      · exact .cancelQueued ‹_› hstep
  | beginRead now readAt => exact .beginRead hen.1 hen.2 hstep
  | runTimer =>
      obtain ⟨now, expired, e, rest, hphase⟩ := hen
      exact .runTimer hphase hstep
  | endRead resetNow setAt =>
      obtain ⟨now, expired, hphase⟩ := hen
      exact .endRead hphase hstep

theorem Wf.step {l : TimerLabel} (h : Wf q) (hstep : timerQueue.Step q l q') : Wf q' := by
  cases step_moves hstep with
  | @queueAdd p when_ interval now setAt fresh after =>
      subst after
      obtain ⟨hlist, hbatch, hqueue⟩ := h.not_listed fresh
      refine (h.alloc fresh (Timer.create when_ interval)).enqueue ?_
      rintro p' hp'
      cases hp'
      exact ⟨by simp, hlist, hbatch, hqueue⟩
  | queueCancel after =>
      subst after
      refine h.enqueue ?_
      rintro p' hp'
      cases hp'
  | addNow fresh add =>
      obtain ⟨-, hbatch, hqueue⟩ := h.not_listed fresh
      exact (h.alloc fresh _).addTimerInLoop hqueue hbatch add
  | addQueued pending add =>
      obtain ⟨hwf, hfree⟩ := h.pop pending
      exact hwf.addTimerInLoop (hfree _ rfl).1 (hfree _ rfl).2 add
  | cancelNow cancel => exact h.cancelTimerInLoop cancel
  | cancelQueued pending cancel => exact (h.pop pending).1.cancelTimerInLoop cancel
  | beginRead phase valid read => exact h.beginRead read
  | runTimer phase run => exact h.runTimer phase run
  | endRead phase read => exact h.endRead phase read

theorem reachable_wf {ls : List TimerLabel} (hrun : timerQueue.Run {} ls q) : Wf q :=
  hrun.invariant wf_init fun _ _ _ h hstep => h.step hstep

end TimerQueue

end Ham.Net
