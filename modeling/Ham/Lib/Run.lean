import Mathlib

/-!
# Runs of labelled systems with faults

A `System` moves by labels: a label may be disabled in a state (the
environment cannot produce it there), and an enabled label either leads to a
next state or stops at a fault. A `Run` is a finite sequence of enabled,
fault-free steps.

* `Run.invariant` — the induction rule: what every step keeps holds at the
  end of every run;
* `Run.simulates` — the rule for two levels: a run of the system is a run of an
  abstract machine related to it step by step;
* `restrict` — the same system with a side condition on each step, so that "a
  run whose steps all meet `C`" is a run of `S.restrict C`;
* `Run.first_exit` — a run keeps a property, or splits at the first step that
  gives it up;
* `Run.until` — the rule for goals: what every step keeps or turns into the
  goal holds at the end, or the goal was reached on the way;
* `Run.restrict_or_first` — a run meets the condition throughout, or splits at
  the first step that does not;
* `Run.restrict_iff` — the rule for exact conditions: a run meets the condition
  throughout if and only if every state on its way is safe;
* `reaches_of_measure`, `not_reaches` — the rules for what can still happen: a
  measure that some step makes smaller, and a trap that no step leaves;
* `play` — where the labels are decidable, runs can be computed.
-/

namespace Ham.Lib

/-- A labelled system: which labels a state admits, and what an admitted
label does. -/
structure System (σ Label ε : Type*) where
  enabled : σ → Label → Prop
  step : σ → Label → Except ε σ

namespace System

variable {σ Label ε : Type*} {S : System σ Label ε} {s s' s'' : σ} {l : Label}
  {ls ls' : List Label}

/-- One enabled step that does not fault. -/
def Step (S : System σ Label ε) (s : σ) (l : Label) (s' : σ) : Prop :=
  S.enabled s l ∧ S.step s l = .ok s'

/-- Finite runs. -/
inductive Run (S : System σ Label ε) : σ → List Label → σ → Prop
  | nil (s : σ) : Run S s [] s
  | cons {s s' s'' : σ} {l : Label} {ls : List Label} :
      S.Step s l s' → Run S s' ls s'' → Run S s (l :: ls) s''

theorem Run.append (h : S.Run s ls s') (h' : S.Run s' ls' s'') :
    S.Run s (ls ++ ls') s'' := by
  induction h with
  | nil => exact h'
  | cons hstep _ ih => exact .cons hstep (ih h')

/-- A run over a concatenation passes through a middle state. -/
theorem Run.split (h : S.Run s (ls ++ ls') s'') :
    ∃ s', S.Run s ls s' ∧ S.Run s' ls' s'' := by
  induction ls generalizing s with
  | nil => exact ⟨s, .nil s, h⟩
  | cons l ls ih =>
      cases h with
      | cons hstep hrest =>
          obtain ⟨s', hfront, hback⟩ := ih hrest
          exact ⟨s', .cons hstep hfront, hback⟩

/-- The labels decide where a run ends. -/
theorem Run.unique (h : S.Run s ls s') (h' : S.Run s ls s'') : s' = s'' := by
  induction h with
  | nil =>
      cases h'
      rfl
  | cons hstep _ ih =>
      cases h' with
      | cons hstep' hrest' =>
          have heq := hstep.2.symm.trans hstep'.2
          cases heq
          exact ih hrest'

/-- The induction rule: a property every step keeps holds at the end of every
run that starts with it. -/
theorem Run.invariant {I : σ → Prop} (h : S.Run s ls s') (h0 : I s)
    (hstep : ∀ s l s', I s → S.Step s l s' → I s') : I s' := by
  induction h with
  | nil => exact h0
  | cons hst _ ih => exact ih (hstep _ _ _ h0 hst)

/-- The rule for simulations: a relation to an abstract state that every step
keeps, when the abstract state moves by `next`, holds between the ends. -/
theorem Run.simulates {α : Type*} {R : σ → α → Prop} {next : α → Label → α} {a : α}
    (h : S.Run s ls s') (h0 : R s a)
    (hstep : ∀ s l s' a, R s a → S.Step s l s' → R s' (next a l)) : R s' (ls.foldl next a) := by
  induction h generalizing a with
  | nil => exact h0
  | cons hst _ ih => exact ih (hstep _ _ _ _ h0 hst)

/-- A run keeps a property, or there is a first step that gives it up. -/
theorem Run.first_exit {I : σ → Prop} (h : S.Run s ls s'') (h0 : I s) :
    I s'' ∨
    ∃ pre l post t t', ls = pre ++ l :: post ∧ S.Run s pre t ∧ I t ∧ S.Step t l t' ∧ ¬ I t' ∧
      S.Run t' post s'' := by
  induction h with
  | nil => exact .inl h0
  | @cons s s' s'' l ls hst hrest ih =>
      by_cases hI : I s'
      · rcases ih hI with hend | ⟨pre, k, post, t, t', rfl, hpre, ht, hk, hnot, hpost⟩
        · exact .inl hend
        · exact .inr ⟨l :: pre, k, post, t, t', rfl, .cons hst hpre, ht, hk, hnot, hpost⟩
      · exact .inr ⟨[], l, ls, s, s', rfl, .nil s, h0, hst, hI, hrest⟩

/-- The rule for goals: a property that every step keeps, unless it reaches the
goal. -/
theorem Run.until {I G : σ → Prop} (h : S.Run s ls s') (h0 : I s)
    (hstep : ∀ s l s', I s → S.Step s l s' → G s' ∨ I s') :
    (∃ pre post t, ls = pre ++ post ∧ S.Run s pre t ∧ G t) ∨ I s' := by
  rcases h.first_exit h0 with hend | ⟨pre, l, post, t, t', rfl, hpre, ht, hst, hnot, hpost⟩
  · exact .inr hend
  · refine .inl ⟨pre ++ [l], post, t', by simp, hpre.append (.cons hst (.nil t')), ?_⟩
    exact (hstep t l t' ht hst).resolve_right hnot

/-- The system whose steps must also meet `C`. -/
def restrict (S : System σ Label ε) (C : σ → Label → Prop) : System σ Label ε where
  enabled := fun s l => S.enabled s l ∧ C s l
  step := S.step

theorem restrict_step {C : σ → Label → Prop} :
    (S.restrict C).Step s l s' ↔ S.Step s l s' ∧ C s l := by
  unfold Step restrict
  tauto

/-- Forgetting the side condition. -/
theorem Run.of_restrict {C : σ → Label → Prop} (h : (S.restrict C).Run s ls s') :
    S.Run s ls s' := by
  induction h with
  | nil => exact .nil _
  | cons hst _ ih => exact .cons (restrict_step.mp hst).1 ih

/-- Where the condition is one on the labels. -/
theorem run_restrict_labels {C : Label → Prop} :
    (S.restrict fun _ l => C l).Run s ls s' ↔ S.Run s ls s' ∧ ∀ l ∈ ls, C l := by
  constructor
  · intro h
    refine ⟨h.of_restrict, ?_⟩
    induction h with
    | nil => exact fun _ hl => absurd hl List.not_mem_nil
    | cons hst _ ih => exact List.forall_mem_cons.mpr ⟨(restrict_step.mp hst).2, ih⟩
  · rintro ⟨h, hall⟩
    induction h with
    | nil => exact .nil _
    | cons hst _ ih =>
        obtain ⟨hl, hall⟩ := List.forall_mem_cons.mp hall
        exact .cons (restrict_step.mpr ⟨hst, hl⟩) (ih hall)

/-- A run meets the condition throughout, or there is a first step that does
not. -/
theorem Run.restrict_or_first (C : σ → Label → Prop) (h : S.Run s ls s'') :
    (S.restrict C).Run s ls s'' ∨
    ∃ pre l post t t', ls = pre ++ l :: post ∧ (S.restrict C).Run s pre t ∧
      S.Step t l t' ∧ ¬ C t l ∧ S.Run t' post s'' := by
  induction h with
  | nil => exact .inl (.nil _)
  | @cons s s' s'' l ls hst hrest ih =>
      by_cases hC : C s l
      · rcases ih with hall | ⟨pre, k, post, t, t', rfl, hpre, hk, hnC, hpost⟩
        · exact .inl (.cons (restrict_step.mpr ⟨hst, hC⟩) hall)
        · exact .inr ⟨l :: pre, k, post, t, t', rfl,
            .cons (restrict_step.mpr ⟨hst, hC⟩) hpre, hk, hnC, hpost⟩
      · exact .inr ⟨[], l, ls, s, s', rfl, .nil s, hst, hC, hrest⟩

/-- Where the condition decides whether a safe state is followed by a safe one,
the runs that meet it are those through safe states only. -/
theorem Run.restrict_iff {C : σ → Label → Prop} {I P : σ → Prop} (h : S.Run s ls s'')
    (hI : I s) (hP : P s) (hkeep : ∀ s l s', I s → S.Step s l s' → I s')
    (hexact : ∀ s l s', I s → P s → S.Step s l s' → (C s l ↔ P s')) :
    (S.restrict C).Run s ls s'' ↔ ∀ pre post t, ls = pre ++ post → S.Run s pre t → P t := by
  induction h with
  | nil s =>
      refine iff_of_true (.nil s) ?_
      intro pre post t hsplit hpre
      obtain ⟨rfl, -⟩ := List.append_eq_nil_iff.mp hsplit.symm
      cases hpre
      exact hP
  | @cons s s' s'' l ls hst hrest ih =>
      have hnext := hkeep s l s' hI hst
      constructor
      · intro hall pre post t hsplit hpre
        obtain ⟨t', hmeets, htail⟩ : ∃ t', (S.restrict C).Step s l t' ∧
            (S.restrict C).Run t' ls s'' := by
          cases hall with
          | cons hmeets htail => exact ⟨_, hmeets, htail⟩
        obtain ⟨hst', hC⟩ := restrict_step.mp hmeets
        cases hst.2.symm.trans hst'.2
        have hP' := (hexact s l s' hI hP hst).mp hC
        cases hpre with
        | nil => exact hP
        | @cons _ u _ k pre hk hpre =>
            obtain ⟨rfl, hlabels⟩ := List.cons.inj hsplit
            cases hst.2.symm.trans hk.2
            exact (ih hnext hP').mp htail pre post t hlabels hpre
      · intro hsafe
        have hP' : P s' := hsafe [l] ls s' rfl (.cons hst (.nil s'))
        refine .cons (restrict_step.mpr ⟨hst, (hexact s l s' hI hP hst).mpr hP'⟩) ?_
        refine (ih hnext hP').mpr ?_
        intro pre post t hsplit hpre
        exact hsafe (l :: pre) post t (by rw [hsplit]; rfl) (.cons hst hpre)

/-! ## What can still be reached -/

/-- A run leads from `s` to a state of the goal. -/
def Reaches (S : System σ Label ε) (s : σ) (G : σ → Prop) : Prop := ∃ ls s', S.Run s ls s' ∧ G s'

theorem Reaches.head {G : σ → Prop} (hst : S.Step s l s') (h : S.Reaches s' G) :
    S.Reaches s G := by
  obtain ⟨ls, t, hrun, hG⟩ := h
  exact ⟨l :: ls, t, .cons hst hrun, hG⟩

/-- The rule for progress: short of the goal, some step keeps `I` and makes the
measure smaller. -/
theorem reaches_of_measure {I G : σ → Prop} (m : σ → Nat)
    (hstep : ∀ s, I s → G s ∨ ∃ l s', S.Step s l s' ∧ I s' ∧ m s' < m s) (h : I s) :
    S.Reaches s G := by
  generalize hn : m s = n
  induction n using Nat.strong_induction_on generalizing s with
  | _ n ih =>
      rcases hstep s h with hG | ⟨l, s', hst, hI, hlt⟩
      · exact ⟨[], s, .nil s, hG⟩
      · exact (ih (m s') (hn ▸ hlt) hI rfl).head hst

/-- The rule for dead ends: no step leaves the trap, and the goal is not in it. -/
theorem not_reaches {D G : σ → Prop} (hkeep : ∀ s l s', D s → S.Step s l s' → D s')
    (hG : ∀ s, D s → ¬ G s) (h : D s) : ¬ S.Reaches s G := by
  rintro ⟨ls, t, hrun, hgoal⟩
  exact hG t (hrun.invariant h hkeep) hgoal

/-! ## Executable runs -/

/-- Where the labels lead, if they can be followed. -/
def play (S : System σ Label ε) [∀ s l, Decidable (S.enabled s l)] : σ → List Label → Option σ
  | s, [] => some s
  | s, l :: ls =>
      if S.enabled s l then
        match S.step s l with
        | .ok s' => S.play s' ls
        | .error _ => none
      else none

theorem Run.of_play [∀ s l, Decidable (S.enabled s l)] (h : S.play s ls = some s') :
    S.Run s ls s' := by
  induction ls generalizing s with
  | nil =>
      cases h
      exact .nil _
  | cons l ls ih =>
      unfold play at h
      split at h
      · rename_i henabled
        split at h
        · rename_i t hstep
          exact .cons ⟨henabled, hstep⟩ (ih h)
        · cases h
      · cases h

instance {C : σ → Label → Prop} [∀ s l, Decidable (S.enabled s l)] [∀ s l, Decidable (C s l)]
    (s : σ) (l : Label) : Decidable ((S.restrict C).enabled s l) :=
  inferInstanceAs (Decidable (S.enabled s l ∧ C s l))

end System

end Ham.Lib
