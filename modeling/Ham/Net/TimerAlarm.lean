import Ham.Net.TimerSpec

/-!
# The alarm and the next timer

The timerfd is set in two places: when an entry goes in front of all others
(`earliestChanged_`), and at the end of `handleRead`, if the first entry has a
valid time. `Armed` says why this is enough: outside of `handleRead` the alarm
covers every entry; inside it, every entry is later than the batch, so that the
end of `handleRead` will set the alarm, or is covered already.

The timerfd counts from `timerfd_settime`, but the time it is set to has been
computed from an earlier reading of the clock. What passes between the two is
added to the deadline, and to nothing else (`alarm_covers_next`).
-/

namespace Ham.Net

open Ham.Lib

/-- The alarm is set, and goes off by the time of the entry and what was lost
before it was set, or 100 microseconds after it was set. -/
def Covers (alarm : Option Alarm) (e : TimeEntry) : Prop :=
  ∃ a, alarm = some a ∧ a.it_value ≠ ⟨0, 0⟩ ∧
    a.deadline ≤ max (e.first + (a.setAt - a.now)) (a.setAt + 100)

/-- An alarm that covers an entry covers the later ones. -/
theorem Covers.later {alarm : Option Alarm} {e e' : TimeEntry} (h : Covers alarm e)
    (hle : e.first ≤ e'.first) : Covers alarm e' := by
  obtain ⟨a, ha, hset, hdeadline⟩ := h
  exact ⟨a, ha, hset, hdeadline.trans (max_le_max_right _ (Int.add_le_add_right hle _))⟩

/-- `resetAlarmFd` covers what it is set for. -/
theorem covers_reset {expiration now setAt : Int} {e : TimeEntry} (hle : expiration ≤ e.first) :
    Covers (some (TimerQueue.alarmFor expiration now setAt)) e := by
  refine ⟨_, rfl, ?_, ?_⟩
  · intro hzero
    have hzero : howMuchTimeFromNow expiration now = ⟨0, 0⟩ := hzero
    have hmicros : (howMuchTimeFromNow expiration now).microseconds = 0 := by
      rw [hzero]
      rfl
    rw [howMuchTimeFromNow_microseconds] at hmicros
    omega
  · rw [alarmFor_deadline]
    exact max_le_max_right _ (Int.add_le_add_right hle _)

namespace TimerQueue

variable {q q' : TimerQueue} {p : TimerPtr} {l : TimerLabel}

/-- An entry the alarm need not cover yet: one behind the batch at work. -/
def Awaits (q : TimerQueue) (e : TimeEntry) : Prop :=
  match q.phase with
  | .outside => False
  | .calling now _ _ => now < e.first

theorem Awaits.later {e e' : TimeEntry} (h : q.Awaits e) (hle : e.first ≤ e'.first) :
    q.Awaits e' := by
  unfold Awaits at *
  split
  · rename_i hphase
    rw [hphase] at h
    exact h
  · rename_i hphase
    rw [hphase] at h
    exact lt_of_lt_of_le h hle

structure Armed (q : TimerQueue) : Prop where
  /-- The clock of the batch is valid. -/
  clock : ∀ now expired rest, q.phase = .calling now expired rest → 0 < now
  entries : ∀ e ∈ q.timerList_, q.Awaits e ∨ Covers q.alarm e

theorem armed_init : Armed {} where
  clock := fun _ _ _ h => by cases h
  entries := fun e he => absurd he (OrderedSet.not_mem_empty e)

theorem Armed.addTimerInLoop (h : Armed q) {now setAt : Int}
    (hadd : q.addTimerInLoop p now setAt = .ok q') : Armed q' := by
  obtain ⟨t, s, earliest, a, -, -, hmem, halarm, rfl⟩ := addTimerInLoop_ok hadd
  refine ⟨h.clock, ?_⟩
  intro e he
  rcases halarm with ⟨hfirst, rfl⟩ | ⟨⟨e₀, he₀, hle⟩, rfl⟩
  · -- the new entry is the first, and the alarm is for it
    refine .inr ?_
    rcases (hmem e).mp he with rfl | he
    · exact covers_reset (le_refl _)
    · exact covers_reset (hfirst e he).le
  · rcases (hmem e).mp he with rfl | he
    · exact (h.entries e₀ he₀).imp (·.later hle) (·.later hle)
    · exact h.entries e he

theorem Armed.cancelTimerInLoop (h : Armed q) (hcancel : q.cancelTimerInLoop p = .ok q') :
    Armed q' := by
  obtain ⟨t, -, ⟨-, rfl⟩ | ⟨-, -, rfl⟩ | ⟨-, -, rfl⟩⟩ := cancelTimerInLoop_ok hcancel
  · exact ⟨h.clock, fun e he => h.entries e (OrderedSet.mem_erase.mp he).2⟩
  · exact ⟨h.clock, h.entries⟩
  · exact h

theorem Armed.endRead (h : Armed q) (hwf : Wf q) {now resetNow setAt : Int}
    {expired : List TimeEntry} (hphase : q.phase = .calling now expired [])
    (hread : q.endRead resetNow setAt = .ok q') : Armed q' := by
  have hwf' := hwf.endRead hphase hread
  obtain ⟨q₁, hreset, a, rfl, halarm⟩ := hwf.reset hphase hread
  refine ⟨fun _ _ _ hcalling => (by cases hcalling), ?_⟩
  intro e he
  obtain ⟨e₀, he₀⟩ := OrderedSet.exists_begin he
  have hle : e₀.first ≤ e.first := TimeEntry.first_le (OrderedSet.begin_le he₀ he)
  obtain ⟨t, ht, hfirst⟩ := hwf'.listed e₀ (OrderedSet.begin_mem he₀)
  -- it is enough to cover the first entry
  refine .inr (Covers.later ?_ hle)
  rcases halarm e₀ t he₀ ht with ⟨-, rfl⟩ | ⟨hinvalid, rfl⟩
  · exact covers_reset hfirst.le
  · -- a time that is not valid is before the batch, so its entry came in during it
    have hnow := h.clock now expired [] hphase
    rw [hfirst] at hinvalid
    rcases (hreset.mem e₀).mp (OrderedSet.begin_mem he₀) with hold | ⟨e', -, t', -, hrep, -, rfl⟩
    · refine (h.entries e₀ hold).resolve_left ?_
      intro hawaits
      rw [Awaits, hphase] at hawaits
      have hlater : now < e₀.first := hawaits
      omega
    · obtain ⟨hadd, hpos⟩ := t'.addTime_interval now hrep
      have hinvalid : addTime now t'.interval_ ≤ 0 := hinvalid
      omega

theorem Armed.step (h : Armed q) (hwf : Wf q) (hstep : timerQueue.Step q l q') : Armed q' := by
  cases step_moves hstep with
  | queueAdd fresh after =>
      subst after
      exact ⟨h.clock, h.entries⟩
  | queueCancel after =>
      subst after
      exact ⟨h.clock, h.entries⟩
  | addNow fresh add =>
      refine Armed.addTimerInLoop ?_ add
      exact ⟨h.clock, h.entries⟩
  | addQueued pending add =>
      refine Armed.addTimerInLoop ?_ add
      exact ⟨h.clock, h.entries⟩
  | cancelNow cancel => exact h.cancelTimerInLoop cancel
  | cancelQueued pending cancel =>
      refine Armed.cancelTimerInLoop ?_ cancel
      exact ⟨h.clock, h.entries⟩
  | @beginRead now readAt phase valid read =>
      obtain ⟨expired, s, a, -, -, hlater, rfl⟩ := beginRead_ok read
      refine ⟨?_, fun e he => .inl (hlater e he)⟩
      intro now' expired' rest' hcalling
      cases hcalling
      exact Int.natCast_pos.mpr valid
  | @runTimer now expired rest e phase run =>
      -- the batch at work keeps its time, and with it the entries that may wait
      obtain ⟨t, -, rfl⟩ := runTimer_ok phase run
      refine ⟨?_, ?_⟩
      · intro now' expired' rest' hcalling
        cases hcalling
        exact h.clock now expired (e :: rest) phase
      · intro e' he'
        refine (h.entries e' he').imp_left ?_
        intro hawaits
        rw [Awaits, phase] at hawaits
        exact hawaits
  | endRead phase read => exact h.endRead hwf phase read

theorem reachable_armed {ls : List TimerLabel} (hrun : timerQueue.Run {} ls q) : Armed q :=
  (hrun.invariant (I := fun q => Wf q ∧ Armed q) ⟨wf_init, armed_init⟩
    fun _ _ _ h hstep => ⟨h.1.step hstep, h.2.step h.1 hstep⟩).2

end TimerQueue

open TimerQueue

/-- Outside of `handleRead` the timerfd is set, or has gone off unread, and its
deadline is not behind the first entry, put off by the time that passed between
the clock's reading and the setting, and the shortest time it can be set to. -/
theorem alarm_covers_next {ls : List TimerLabel} {q : TimerQueue} {e : TimeEntry}
    (hrun : timerQueue.Run {} ls q) (houtside : q.phase = .outside)
    (hfirst : q.timerList_.begin? = some e) :
    ∃ a, q.alarm = some a ∧ a.it_value ≠ ⟨0, 0⟩ ∧
      a.deadline ≤ max (e.first + (a.setAt - a.now)) (a.setAt + 100) := by
  refine ((reachable_armed hrun).entries e (OrderedSet.begin_mem hfirst)).resolve_left ?_
  intro hawaits
  rw [Awaits, houtside] at hawaits
  exact hawaits

/-- A callback adds a timer that is already due, in front of a repeating one. -/
theorem alarm_covers_next_due : ∃ ls q a,
    timerQueue.Run {} ls q ∧ q.timerList_.elems = [⟨0, 2⟩, ⟨125, 1⟩] ∧ q.alarm = some a ∧
    a.deadline ≤ max (0 + (a.setAt - a.now)) (a.setAt + 100) := by
  have hrun : ∃ q, timerQueue.Run {} [.addTimer true 1 10 5 0 1, .beginRead 120 121, .runTimer,
        .addTimer true 2 0 0 130 131, .endRead 140 141] q ∧
      q.phase = .outside ∧ q.timerList_.elems = [⟨0, 2⟩, ⟨125, 1⟩] ∧
      q.timerList_.begin? = some ⟨0, 2⟩ := by
    refine ⟨_, .cons ⟨?_, rfl⟩ (.cons ⟨?_, rfl⟩ (.cons ⟨?_, rfl⟩ (.cons ⟨?_, rfl⟩
      (.cons ⟨?_, rfl⟩ (.nil _))))), rfl, rfl, rfl⟩
    · exact ⟨by decide, rfl, fun _ => trivial⟩
    · exact ⟨rfl, by decide⟩
    · exact ⟨_, _, _, _, rfl⟩
    · exact ⟨by decide, rfl, fun _ => Nat.one_pos⟩
    · exact ⟨_, _, rfl⟩
  obtain ⟨q, hrun, houtside, helems, hfirst⟩ := hrun
  obtain ⟨a, ha, -, hdeadline⟩ := alarm_covers_next hrun houtside hfirst
  exact ⟨_, q, a, hrun, helems, ha, hdeadline⟩

/-- A microsecond between the clock's reading and `timerfd_settime`: the alarm
goes off a microsecond behind the timer it is set for. -/
theorem not_alarm_covers_next : ¬ ∀ ls q e, timerQueue.Run {} ls q → q.phase = .outside →
    q.timerList_.begin? = some e →
    ∃ a, q.alarm = some a ∧ a.it_value ≠ ⟨0, 0⟩ ∧ a.deadline ≤ max e.first (a.setAt + 100) := by
  intro hcovers
  obtain ⟨q, hrun, hphase, hfirst, halarm⟩ : ∃ q,
      timerQueue.Run {} [.addTimer true 1 1000 0 0 1] q ∧ q.phase = .outside ∧
      q.timerList_.begin? = some ⟨1000, 1⟩ ∧ q.alarm = some (alarmFor 1000 0 1) :=
    ⟨_, .cons ⟨⟨by decide, rfl, fun _ => trivial⟩, rfl⟩ (.nil _), rfl, rfl, rfl⟩
  obtain ⟨a, ha, -, hdeadline⟩ := hcovers _ q _ hrun hphase hfirst
  rw [halarm] at ha
  cases ha
  rw [alarmFor_deadline] at hdeadline
  exact absurd hdeadline (by decide)

end Ham.Net
