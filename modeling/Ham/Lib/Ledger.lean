import Mathlib

/-!
# Ledgers

A log of acquisitions and releases. `held` replays it: a release must find its
resource held, and takes it away, so a log that replays releases nothing twice
and nothing it has not acquired. `Exclusive` says that it replays at every
moment, with at most one resource held.
-/

namespace Ham.Lib

inductive Entry (α : Type*) where
  | acquire (a : α)
  | release (a : α)
  deriving DecidableEq, Repr

namespace Ledger

variable {α : Type*} [DecidableEq α] {log : List (Entry α)} {a : α}

/-- One entry, with the resources held before it. -/
def settle (held : List α) : Entry α → Option (List α)
  | .acquire a => some (a :: held)
  | .release a => if a ∈ held then some (held.erase a) else none

/-- The resources held behind a log, or `none` if it does not replay. -/
def held (log : List (Entry α)) : Option (List α) := log.foldlM settle []

/-- At every moment the log replays, and holds at most one resource. -/
def Exclusive (log : List (Entry α)) : Prop :=
  ∀ pre, pre <+: log → ∃ h, held pre = some h ∧ h.length ≤ 1

theorem held_concat (log : List (Entry α)) (e : Entry α) :
    held (log ++ [e]) = (held log).bind fun h => settle h e := by
  unfold held
  rw [List.foldlM_append]
  cases List.foldlM settle [] log with
  | none => rfl
  | some h =>
      show List.foldlM settle h [e] = settle h e
      simp

theorem exclusive_nil : Exclusive ([] : List (Entry α)) := by
  intro pre hpre
  rw [List.prefix_nil.mp hpre]
  exact ⟨[], rfl, Nat.zero_le 1⟩

/-- A further entry makes one further moment. -/
theorem Exclusive.concat (h : Exclusive log) {e : Entry α} {hs : List α}
    (hheld : held (log ++ [e]) = some hs) (hlen : hs.length ≤ 1) : Exclusive (log ++ [e]) := by
  intro pre hpre
  rcases List.prefix_concat_iff.mp hpre with rfl | hpre
  · exact ⟨hs, hheld, hlen⟩
  · exact h pre hpre

theorem held_acquire (hfree : held log = some []) (a : α) :
    held (log ++ [.acquire a]) = some [a] := by
  rw [held_concat, hfree]
  rfl

theorem held_release (hheld : held log = some [a]) : held (log ++ [.release a]) = some [] := by
  rw [held_concat, hheld]
  simp [settle]

end Ledger

end Ham.Lib
