import Ham.Net.TimerSpec

/-!
# `timerList_` as a set of timers

`getExpired` looks for the first entry that is not before `(now, nullptr)` and
steps over one entry that is due at `now` exactly. It takes what is due as long
as there is at most one such entry; a second one fails the assertion
(`getExpired_takes_due`).

The entries are keyed by an expiration that changes: `timerSet_represents` says
that no timer is in the set while its key does, also in the middle of `reset`.
-/

namespace Ham.Net

open Ham.Lib

namespace TimerQueue

variable {q q' : TimerQueue} {p : TimerPtr} {now : Int}

/-! ## `getExpired` -/

/-- `getExpired` returns the entries that are due, in the order of their times,
and leaves the others. -/
def TakesDue (q : TimerQueue) (now : Int) : Prop :=
  ∃ expired q', q.getExpired now = .ok (expired, q') ∧
    expired = q.timerList_.elems.filter (fun e => e.first ≤ now) ∧
    expired.Pairwise (fun e e' => e.first ≤ e'.first) ∧
    q'.timerList_.elems = q.timerList_.elems.filter (fun e => now < e.first)

/-- The entries that are due at `now` exactly. -/
def dueNow (q : TimerQueue) (now : Int) : List TimeEntry :=
  q.timerList_.elems.filter fun e => e.first = now

/-- If it returns, it returns what is due. -/
theorem takesDue_of_ok {expired : List TimeEntry} (h : q.getExpired now = .ok (expired, q')) :
    q.TakesDue now := by
  obtain ⟨s, hsplit, hdue, hlater, rfl⟩ := getExpired_ok h
  have hsorted := q.timerList_.sorted
  rw [← hsplit, List.pairwise_append] at hsorted
  have hlater : ∀ e ∈ s.elems, now < e.first := hlater
  refine ⟨expired, _, h, ?_, hsorted.1.imp fun hlt => TimeEntry.first_le hlt.le, ?_⟩
  · rw [← hsplit, List.filter_append, List.filter_eq_self.mpr (by simpa using hdue),
      List.filter_eq_nil_iff.mpr (by simpa using hlater), List.append_nil]
  · show s.elems = _
    rw [← hsplit, List.filter_append, List.filter_eq_nil_iff.mpr (by simpa using hdue),
      List.filter_eq_self.mpr (by simpa using hlater), List.nil_append]

/-- What the assertion looks at. -/
theorem getExpired_eq (q : TimerQueue) (now : Int) :
    q.getExpired now =
      if q.timerList_.elems[q.lastExpired now]?.all (fun e => decide (now < e.first)) = true then
        .ok (q.timerList_.elems.take (q.lastExpired now),
          { q with timerList_ := q.timerList_.eraseFront (q.lastExpired now) })
      else .error (.assertion .getExpired) := by
  unfold getExpired assert
  dsimp only
  split <;> rfl

/-- The entry at the bound and those behind it are not due before `now`. -/
theorem le_of_lowerBound {i : Nat} {e : TimeEntry} (hi : q.timerList_.lowerBound ⟨now, 0⟩ ≤ i)
    (he : q.timerList_.elems[i]? = some e) : now ≤ e.first := by
  have hmem : e ∈ q.timerList_.elems.drop (q.timerList_.lowerBound ⟨now, 0⟩) := by
    refine List.mem_iff_getElem?.mpr ⟨i - q.timerList_.lowerBound ⟨now, 0⟩, ?_⟩
    rw [List.getElem?_drop, Nat.add_sub_cancel' hi]
    exact he
  exact TimeEntry.first_le (OrderedSet.le_of_mem_drop hmem)

/-- The assertion fails on a second entry that is due now. -/
theorem getExpired_fails (h : ¬ q.timerList_.elems[q.lastExpired now]?.all
      (fun e => decide (now < e.first)) = true) : 2 ≤ (q.dueNow now).length := by
  -- the entry behind the last expired one is due, so it is due now
  obtain ⟨e, he, hdue⟩ : ∃ e, q.timerList_.elems[q.lastExpired now]? = some e ∧
      e.first ≤ now := by
    cases hget : q.timerList_.elems[q.lastExpired now]? with
    | none => simp [hget] at h
    | some e => exact ⟨e, rfl, by simpa [hget] using h⟩
  unfold lastExpired at he
  dsimp only at he
  split at he
  · rename_i hbound
    obtain ⟨e₀, he₀, hnow₀⟩ := Option.map_eq_some_iff.mp hbound
    have hnow : e.first = now := le_antisymm hdue (le_of_lowerBound (Nat.le_succ _) he)
    obtain ⟨hlt, rfl⟩ := List.getElem?_eq_some_iff.mp he
    obtain ⟨hlt₀, rfl⟩ := List.getElem?_eq_some_iff.mp he₀
    have hcut := List.take_append_drop (q.timerList_.lowerBound ⟨now, 0⟩) q.timerList_.elems
    rw [List.drop_eq_getElem_cons hlt₀, List.drop_eq_getElem_cons hlt] at hcut
    rw [dueNow, ← hcut, List.filter_append, List.length_append,
      List.filter_cons_of_pos (by simpa using hnow₀),
      List.filter_cons_of_pos (by simpa using hnow)]
    simp only [List.length_cons]
    omega
  · rename_i hbound
    have hnow : e.first = now := le_antisymm hdue (le_of_lowerBound (Nat.le_refl _) he)
    exact absurd (by rw [he, Option.map_some, hnow]) hbound

/-- One entry at most is stepped over. -/
theorem dueNow_of_ok {expired : List TimeEntry} (h : q.getExpired now = .ok (expired, q')) :
    (q.dueNow now).length ≤ 1 := by
  obtain ⟨s, hsplit, -, hlater, -⟩ := getExpired_ok h
  have hbehind : s.elems.filter (fun e => e.first = now) = [] := by
    rw [List.filter_eq_nil_iff]
    intro e he
    simpa using (hlater e he).ne'
  have hbefore : (q.timerList_.elems.take (q.timerList_.lowerBound ⟨now, 0⟩)).filter
      (fun e => e.first = now) = [] := by
    rw [List.filter_eq_nil_iff]
    intro e he
    simpa using (lt_helper.mp (OrderedSet.lt_of_mem_take he)).ne
  have hexpired : expired = q.timerList_.elems.take (q.lastExpired now) := by
    rw [getExpired_eq] at h
    split at h
    · cases h
      rfl
    · cases h
  rw [dueNow, ← hsplit, List.filter_append, hbehind, List.append_nil, hexpired]
  unfold lastExpired
  dsimp only
  split
  · rw [List.take_add_one, List.filter_append, hbefore, List.nil_append]
    refine (List.length_filter_le _ _).trans ?_
    cases q.timerList_.elems[q.timerList_.lowerBound ⟨now, 0⟩]? <;> simp
  · rw [hbefore]
    exact Nat.zero_le 1

/-- `getExpired` takes what is due exactly when at most one timer is due at
`now` to the microsecond. Otherwise its assertion fails. -/
theorem getExpired_takes_due (q : TimerQueue) (now : Int) :
    (q.TakesDue now ↔ (q.dueNow now).length ≤ 1) ∧
    (2 ≤ (q.dueNow now).length → q.getExpired now = .error (.assertion .getExpired)) := by
  have hcases := getExpired_eq q now
  split at hcases
  · have hone := dueNow_of_ok hcases
    refine ⟨iff_of_true (takesDue_of_ok hcases) hone, ?_⟩
    intro htwo
    omega
  · rename_i hfails
    have htwo := getExpired_fails hfails
    refine ⟨iff_of_false ?_ (by omega), fun _ => hcases⟩
    rintro ⟨expired, q', hok, -⟩
    rw [hcases] at hok
    cases hok

/-- Two timers for the same microsecond, and the clock at it. -/
theorem getExpired_two_due : ∃ q : TimerQueue,
    timerQueue.Run {} [.addTimer true 1 500 0 0 0, .addTimer true 2 500 0 1 1] q ∧
    ¬ q.TakesDue 500 ∧ q.getExpired 500 = .error (.assertion .getExpired) := by
  refine ⟨_, .cons ⟨⟨by decide, rfl, fun _ => trivial⟩, rfl⟩
    (.cons ⟨⟨by decide, rfl, fun _ => trivial⟩, rfl⟩ (.nil _)), ?_, rfl⟩
  rintro ⟨expired, q', hok, -⟩
  cases hok

/-! ## `insert` -/

/-- `insert` returns for a timer that has no entry. -/
theorem insert_returns (halive : q.timers p ≠ none) (hout : ∀ e ∈ q.timerList_, e.second ≠ p) :
    ∃ q', q.insert p = .ok q' := by
  obtain ⟨t, ht⟩ := Option.ne_none_iff_exists'.mp halive
  have hnew : (q.timerList_.insert ⟨t.expiration_, p⟩).2 = true :=
    OrderedSet.insert_new.mpr fun hmem => hout _ hmem rfl
  refine ⟨{ q with
    earliestChanged_ := q.isEarliest t.expiration_
    timerList_ := (q.timerList_.insert ⟨t.expiration_, p⟩).1 }, ?_⟩
  simp only [insert, deref_eq_ok.mpr ht, ok_bind, assert_pos hnew]
  rfl

theorem addTimerInLoop_returns (halive : q.timers p ≠ none)
    (hout : ∀ e ∈ q.timerList_, e.second ≠ p) (now setAt : Int) :
    ∃ q', q.addTimerInLoop p now setAt = .ok q' := by
  obtain ⟨t, ht⟩ := Option.ne_none_iff_exists'.mp halive
  obtain ⟨q₁, hinsert⟩ := insert_returns halive hout
  have ht₁ : q₁.timers p = some t := by
    obtain ⟨t', -, -, rfl⟩ := insert_ok hinsert
    exact ht
  simp only [addTimerInLoop, hinsert, ok_bind, deref_eq_ok.mpr ht₁]
  exact ⟨_, rfl⟩

/-! ## The loop of `reset` -/

/-- The timers of the entries are alive, different ones, and not in the set. -/
structure Detached (q : TimerQueue) (es : List TimeEntry) : Prop where
  alive : ∀ e ∈ es, q.timers e.second ≠ none
  nodup : (es.map (·.second)).Nodup
  out : ∀ e ∈ es, ∀ e' ∈ q.timerList_, e'.second ≠ e.second

/-- One round takes its entry off the list of those that are out of the set. -/
theorem Detached.resetOne {e : TimeEntry} {es : List TimeEntry} (h : Detached q (e :: es))
    (now : Int) : ∃ q', TimerQueue.resetOne now q e = .ok q' ∧ Detached q' es := by
  obtain ⟨t, ht⟩ := Option.ne_none_iff_exists'.mp (h.alive e List.mem_cons_self)
  have hnodup := h.nodup
  rw [List.map_cons, List.nodup_cons] at hnodup
  by_cases hrepeat : t.repeat_ = true ∧ e.second ∉ q.cancelingTimers_
  · obtain ⟨q', hinsert⟩ := insert_returns
      (q := { q with timers := Function.update q.timers e.second (some (t.restart now)) })
      (by simp) (h.out e List.mem_cons_self)
    refine ⟨q', ?_, ?_⟩
    · simp only [TimerQueue.resetOne, deref_eq_ok.mpr ht, ok_bind, if_pos hrepeat]
      exact hinsert
    · obtain ⟨t', -, -, rfl⟩ := insert_ok hinsert
      refine ⟨?_, hnodup.2, ?_⟩
      · intro e₀ he₀
        show Function.update q.timers e.second (some (t.restart now)) e₀.second ≠ none
        by_cases heq : e₀.second = e.second
        · rw [heq, Function.update_self]
          exact Option.some_ne_none _
        · rw [Function.update_of_ne heq]
          exact h.alive e₀ (List.mem_cons_of_mem e he₀)
      · -- the new entry is of a timer that is not in the batch again
        intro e₀ he₀ e' he'
        rcases OrderedSet.mem_insert.mp he' with rfl | he'
        · intro heq
          exact hnodup.1 (List.mem_map.mpr ⟨e₀, he₀, heq.symm⟩)
        · exact h.out e₀ (List.mem_cons_of_mem e he₀) e' he'
  · refine ⟨q, ?_, fun e₀ he₀ => h.alive e₀ (List.mem_cons_of_mem e he₀), hnodup.2,
      fun e₀ he₀ => h.out e₀ (List.mem_cons_of_mem e he₀)⟩
    simp only [TimerQueue.resetOne, deref_eq_ok.mpr ht, ok_bind, if_neg hrepeat]
    rfl

/-- After any number of rounds the timers still to come are out of the set. -/
theorem Detached.reset (now : Int) (done : List TimeEntry) {todo : List TimeEntry}
    (h : Detached q (done ++ todo)) :
    ∃ q', done.foldlM (TimerQueue.resetOne now) q = .ok q' ∧ Detached q' todo := by
  induction done generalizing q with
  | nil => exact ⟨q, rfl, h⟩
  | cons e done ih =>
      obtain ⟨q₁, hone, hrest⟩ := h.resetOne now
      obtain ⟨q', hloop, htodo⟩ := ih hrest
      refine ⟨q', ?_, htodo⟩
      rw [List.foldlM_cons, hone, ok_bind]
      exact hloop

theorem Wf.detached (h : Wf q) : Detached q q.expired := by
  refine ⟨?_, h.nodup, h.apart⟩
  intro e he
  obtain ⟨t, ht, -⟩ := h.expired e he
  rw [ht]
  exact Option.some_ne_none t

/-! ## Assertions -/

theorem deref_error {f : Fault} (h : q.deref p = .error f) : f = .dangling := by
  unfold deref at h
  split at h
  · cases h
    rfl
  · cases h

/-- Past a dereference a function stops where it stops for some timer. -/
theorem deref_bind_error {β : Type} {k : Timer → Except Fault β} {site : Assertion}
    (h : (q.deref p >>= k) = .error (.assertion site)) :
    ∃ t, q.timers p = some t ∧ k t = .error (.assertion site) := by
  cases hderef : q.deref p with
  | ok t =>
      rw [hderef, ok_bind] at h
      exact ⟨t, deref_eq_ok.mp hderef, h⟩
  | error f =>
      rw [hderef, error_bind] at h
      cases h
      cases deref_error hderef

/-- Taking what is due can only fail its own assertion. -/
theorem getExpired_error {f : Fault} (h : q.getExpired now = .error f) :
    f = .assertion .getExpired := by
  rw [getExpired_eq] at h
  split at h
  · cases h
  · cases h
    rfl

/-- From a well-formed queue `getExpired` is the only function whose assertion
can fail. -/
theorem Wf.assertion (h : Wf q) {l : TimerLabel} (hen : q.Enabled l) {site : Assertion}
    (herr : q.step l = .error (.assertion site)) : site = .getExpired := by
  have hadd : ∀ {q : TimerQueue} {p : TimerPtr} {now setAt : Int}, q.timers p ≠ none →
      (∀ e ∈ q.timerList_, e.second ≠ p) →
      q.addTimerInLoop p now setAt ≠ .error (.assertion site) := by
    intro q p now setAt halive hout hfails
    obtain ⟨q', hok⟩ := addTimerInLoop_returns halive hout now setAt
    cases hok.symm.trans hfails
  have hcancel : ∀ {q : TimerQueue} {p : TimerPtr},
      q.cancelTimerInLoop p ≠ .error (.assertion site) := by
    intro q p hfails
    obtain ⟨t, -, hfails⟩ := deref_bind_error hfails
    cases hfails
  cases l with
  | addTimer inLoop p when_ interval now setAt =>
      cases inLoop with
      | true => exact absurd herr (hadd (by simp) (h.not_listed hen.2.1).1)
      | false => cases herr
  | cancelTimer inLoop p =>
      cases inLoop with
      | true => exact absurd herr hcancel
      | false => cases herr
  | runFunctor now setAt =>
      simp only [TimerQueue.step, runFunctor] at herr
      split at herr
      · cases herr
      · rename_i p fs hfs
        obtain ⟨halive, hlist, -⟩ := h.queued p (hfs ▸ List.mem_cons_self)
        exact absurd herr (hadd halive hlist)
      · exact absurd herr hcancel
  | beginRead now readAt =>
      simp only [TimerQueue.step, TimerQueue.beginRead] at herr
      cases hget : (q.readAlarmfd readAt).getExpired now with
      | ok r =>
          rw [hget] at herr
          cases herr
      | error f =>
          rw [hget] at herr
          cases herr
          cases getExpired_error hget
          rfl
  | runTimer =>
      obtain ⟨now, expired, e, rest, hphase⟩ := hen
      simp only [TimerQueue.step, TimerQueue.runTimer, hphase] at herr
      obtain ⟨t, -, hfails⟩ := deref_bind_error herr
      cases hfails
  | endRead resetNow setAt =>
      obtain ⟨now, expired, hphase⟩ := hen
      simp only [TimerQueue.step, TimerQueue.endRead, hphase] at herr
      have hdetached := h.detached
      rw [expired_of_phase hphase] at hdetached
      rw [← List.append_nil expired] at hdetached
      obtain ⟨q₁, hloop, -⟩ := Detached.reset now expired
        (q := { q with callingExpiredTimers_ := false, phase := .outside })
        ⟨hdetached.alive, hdetached.nodup, hdetached.out⟩
      rw [hloop, ok_bind, rearm] at herr
      split at herr
      · cases herr
      · obtain ⟨t, -, hfails⟩ := deref_bind_error herr
        cases hfails

/-! ## The set in every state -/

/-- Every entry carries the expiration of its timer, and no timer has two. -/
def Keyed (q : TimerQueue) : Prop :=
  (∀ e ∈ q.timerList_, q.Carries e) ∧
  ∀ e ∈ q.timerList_, ∀ e' ∈ q.timerList_, e.second = e'.second → e = e'

theorem keyed_of_carries (h : ∀ e ∈ q.timerList_, q.Carries e) : q.Keyed :=
  ⟨h, fun e he e' he' heq => (h e he).unique (h e' he') heq⟩

/-- The lookup of `cancelTimerInLoop` finds a timer that has an entry. -/
theorem Keyed.lookup (h : q.Keyed) {t : Timer} (ht : q.timers p = some t) :
    ⟨t.expiration_, p⟩ ∈ q.timerList_ ↔ ∃ e ∈ q.timerList_, e.second = p := by
  refine ⟨fun hmem => ⟨_, hmem, rfl⟩, ?_⟩
  rintro ⟨e, he, rfl⟩
  obtain ⟨t', ht', hfirst⟩ := h.1 e he
  rw [ht] at ht'
  cases ht'
  rw [hfirst]
  exact he

/-- In every state between two steps, callbacks of a batch included, and after
any number of rounds of `reset`, the entries are keyed by the expirations of
their timers, a timer has one entry at most, and the timers of the batch that
have not been reinserted have none. No assertion of `insert` fails, and
`cancelTimerInLoop` finds a timer exactly if it has an entry. -/
theorem timerSet_represents {ls : List TimerLabel} (hrun : timerQueue.Run {} ls q) :
    q.Keyed ∧
    (∀ now expired rest, q.phase = .calling now expired rest →
      (∀ e ∈ expired, ∀ e' ∈ q.timerList_, e'.second ≠ e.second) ∧
      ∀ done todo, expired = done ++ todo → ∃ q₁,
        done.foldlM (TimerQueue.resetOne now)
          { q with callingExpiredTimers_ := false, phase := .outside } = .ok q₁ ∧
        q₁.Keyed ∧ ∀ e ∈ todo, ∀ e' ∈ q₁.timerList_, e'.second ≠ e.second) ∧
    (∀ l, timerQueue.enabled q l → timerQueue.step q l ≠ .error (.assertion .timerInsert)) ∧
    ∀ p t, q.timers p = some t →
      (⟨t.expiration_, p⟩ ∈ q.timerList_ ↔ ∃ e ∈ q.timerList_, e.second = p) := by
  have hwf := reachable_wf hrun
  have hkeyed := keyed_of_carries hwf.listed
  refine ⟨hkeyed, ?_, ?_, fun p t ht => hkeyed.lookup ht⟩
  · intro now expired rest hphase
    have hexpired := expired_of_phase hphase
    have hdetached := hwf.detached
    rw [hexpired] at hdetached
    refine ⟨hdetached.out, ?_⟩
    rintro done todo rfl
    obtain ⟨q₁, hloop, htodo⟩ := Detached.reset now done
      (q := { q with callingExpiredTimers_ := false, phase := .outside })
      ⟨hdetached.alive, hdetached.nodup, hdetached.out⟩
    refine ⟨q₁, hloop, keyed_of_carries ?_, htodo.out⟩
    have hnodup := hdetached.nodup
    rw [List.map_append, List.nodup_append] at hnodup
    exact (reset_ok hnodup.1 hloop).carries hwf.listed
      fun e he => hdetached.out e (List.mem_append_left todo he)
  · intro l hen herr
    cases hwf.assertion hen herr

/-- In a callback of a batch of two, one of which repeats. -/
theorem timerSet_represents_batch : ∃ q : TimerQueue,
    timerQueue.Run {} [.addTimer true 1 5 10 0 1, .addTimer true 2 6 0 1 1,
      .addTimer true 3 200 0 1 1, .beginRead 107 108, .runTimer, .addTimer true 4 3 0 110 111] q ∧
    q.timerList_.elems = [⟨3, 4⟩, ⟨200, 3⟩] ∧ q.Keyed ∧
    (∃ q₁, [⟨5, 1⟩].foldlM (TimerQueue.resetOne 107)
        { q with callingExpiredTimers_ := false, phase := .outside } = .ok q₁ ∧
      q₁.Keyed ∧ ∀ e' ∈ q₁.timerList_, e'.second ≠ 2) ∧
    (⟨200, 3⟩ ∈ q.timerList_ ↔ ∃ e ∈ q.timerList_, e.second = 3) := by
  obtain ⟨q, hrun, hlist, hphase, htimer⟩ : ∃ q : TimerQueue,
      timerQueue.Run {} [.addTimer true 1 5 10 0 1, .addTimer true 2 6 0 1 1,
        .addTimer true 3 200 0 1 1, .beginRead 107 108, .runTimer,
        .addTimer true 4 3 0 110 111] q ∧
      q.timerList_.elems = [⟨3, 4⟩, ⟨200, 3⟩] ∧
      q.phase = .calling 107 ([⟨5, 1⟩] ++ [⟨6, 2⟩]) [⟨6, 2⟩] ∧
      q.timers 3 = some (Timer.create 200 0) :=
    ⟨_, .cons ⟨⟨by decide, rfl, fun _ => trivial⟩, rfl⟩
      (.cons ⟨⟨by decide, rfl, fun _ => trivial⟩, rfl⟩
      (.cons ⟨⟨by decide, rfl, fun _ => trivial⟩, rfl⟩
      (.cons ⟨⟨rfl, by decide⟩, rfl⟩
      (.cons ⟨⟨_, _, _, _, rfl⟩, rfl⟩
      (.cons ⟨⟨by decide, rfl, fun _ => Nat.lt_succ_self 1⟩, rfl⟩ (.nil _)))))), rfl, rfl, rfl⟩
  obtain ⟨hkeyed, hbatch, -, hlookup⟩ := timerSet_represents hrun
  obtain ⟨-, hreset⟩ := hbatch 107 _ _ hphase
  obtain ⟨q₁, hloop, hkeyed₁, hout⟩ := hreset [⟨5, 1⟩] [⟨6, 2⟩] rfl
  exact ⟨q, hrun, hlist, hkeyed, ⟨q₁, hloop, hkeyed₁, hout ⟨6, 2⟩ List.mem_cons_self⟩,
    hlookup 3 _ htimer⟩

end TimerQueue

end Ham.Net
