import Mathlib

/-!
# Descriptor tables

The descriptors of a process, up to its limit: each is free, or open and refers
to something. A new descriptor is the lowest free one.
-/

namespace Ham.Lib

/-- A table with one slot for each descriptor. -/
abbrev Descriptors (α : Type*) := List (Option α)

namespace Descriptors

variable {α : Type*} {ds : Descriptors α} {fd fd' : Nat} {x : α}

/-- What an open descriptor refers to. -/
def entry (ds : Descriptors α) (fd : Nat) : Option α := (ds[fd]?).join

/-- No descriptor is free. -/
def Full (ds : Descriptors α) : Prop := ∀ s ∈ ds, s ≠ none

/-- The descriptor that the next call gets. -/
def lowest (ds : Descriptors α) : Option Nat := ds.findIdx? Option.isNone

def install (ds : Descriptors α) (fd : Nat) (x : α) : Descriptors α := ds.set fd (some x)

def close (ds : Descriptors α) (fd : Nat) : Descriptors α := ds.set fd none

theorem lowest_eq_none : ds.lowest = none ↔ ds.Full := by
  unfold lowest Full
  rw [List.findIdx?_eq_none_iff]
  refine forall₂_congr fun s _ => ?_
  cases s <;> simp

theorem getElem?_lowest (h : ds.lowest = some fd) : ds[fd]? = some none := by
  obtain ⟨hlt, hnone, -⟩ := List.findIdx?_eq_some_iff_getElem.mp h
  rw [List.getElem?_eq_getElem hlt, Option.isNone_iff_eq_none.mp hnone]

/-- A new descriptor has been free. -/
theorem entry_lowest (h : ds.lowest = some fd) : ds.entry fd = none := by
  rw [entry, getElem?_lowest h]
  rfl

theorem entry_install (h : ds.lowest = some fd) (fd' : Nat) :
    (ds.install fd x).entry fd' = if fd' = fd then some x else ds.entry fd' := by
  obtain ⟨hlt, -⟩ := List.getElem?_eq_some_iff.mp (getElem?_lowest h)
  unfold entry install
  by_cases heq : fd' = fd
  · subst heq
    rw [if_pos rfl, List.getElem?_set_self hlt]
    rfl
  · rw [if_neg heq, List.getElem?_set_ne (Ne.symm heq)]

theorem entry_close (ds : Descriptors α) (fd fd' : Nat) :
    (ds.close fd).entry fd' = if fd' = fd then none else ds.entry fd' := by
  unfold entry close
  by_cases heq : fd' = fd
  · subst heq
    rw [if_pos rfl, List.getElem?_set_self']
    cases ds[fd']? <;> rfl
  · rw [if_neg heq, List.getElem?_set_ne (Ne.symm heq)]

/-- A descriptor in use is not the next one. -/
theorem ne_lowest (hlow : ds.lowest = some fd) {y : α} (hfd : ds.entry fd' = some y) :
    fd' ≠ fd := by
  rintro rfl
  rw [entry_lowest hlow] at hfd
  cases hfd

theorem entry_install_self (hlow : ds.lowest = some fd) : (ds.install fd x).entry fd = some x := by
  rw [entry_install hlow, if_pos rfl]

/-- What is open stays open. -/
theorem entry_install_of (hlow : ds.lowest = some fd) {y : α} (hfd : ds.entry fd' = some y) :
    (ds.install fd x).entry fd' = some y := by
  rw [entry_install hlow, if_neg (ne_lowest hlow hfd), hfd]

/-- What is open is the new one, or was open before. -/
theorem entry_install_cases (hlow : ds.lowest = some fd) {y : α}
    (h : (ds.install fd x).entry fd' = some y) :
    fd' = fd ∧ x = y ∨ ds.entry fd' = some y := by
  rw [entry_install hlow] at h
  split_ifs at h with heq
  · exact .inl ⟨heq, Option.some.inj h⟩
  · exact .inr h

theorem entry_close_iff {y : α} :
    (ds.close fd).entry fd' = some y ↔ fd' ≠ fd ∧ ds.entry fd' = some y := by
  rw [entry_close]
  split_ifs with heq <;> simp [heq]

theorem getElem?_of_entry (h : ds.entry fd = some x) : ds[fd]? = some (some x) := by
  unfold entry at h
  cases hs : ds[fd]? with
  | none =>
      rw [hs] at h
      cases h
  | some s =>
      rw [hs] at h
      exact congrArg some h

/-- There is a free descriptor behind a `close`. -/
theorem lowest_close_ne (h : ds.lowest ≠ none ∨ ds.entry fd = some x) :
    (ds.close fd).lowest ≠ none := by
  have hfree : ∃ fd' : Nat, (ds.close fd)[fd']? = some none := by
    by_cases hfd : ds[fd]? = none
    · rcases h with hlow | hx
      · obtain ⟨fd', hlow⟩ := Option.ne_none_iff_exists'.mp hlow
        have hfree := getElem?_lowest hlow
        refine ⟨fd', ?_⟩
        rw [close, List.getElem?_set_ne, hfree]
        rintro rfl
        rw [hfd] at hfree
        cases hfree
      · rw [getElem?_of_entry hx] at hfd
        cases hfd
    · obtain ⟨s, hs⟩ := Option.ne_none_iff_exists'.mp hfd
      obtain ⟨hlt, -⟩ := List.getElem?_eq_some_iff.mp hs
      exact ⟨fd, List.getElem?_set_self hlt⟩
  obtain ⟨fd', hfree⟩ := hfree
  intro hnone
  exact lowest_eq_none.mp hnone none (List.mem_of_getElem? hfree) rfl

/-- The one descriptor that is closed in a full table is the next to be had. -/
theorem Full.lowest_close (h : ds.Full) (hfd : ds.entry fd = some x) :
    (ds.close fd).lowest = some fd := by
  obtain ⟨hlt, -⟩ := List.getElem?_eq_some_iff.mp (getElem?_of_entry hfd)
  refine List.findIdx?_eq_some_iff_getElem.mpr ⟨by simpa [close] using hlt, ?_, ?_⟩
  · simp [close]
  · intro j hj
    have hne : ds[j] ≠ none := h _ (List.getElem_mem _)
    simpa [close, List.getElem_set_ne (Nat.ne_of_gt hj)] using hne

theorem install_close (hfd : ds.entry fd = some x) : (ds.close fd).install fd x = ds := by
  obtain ⟨hlt, heq⟩ := List.getElem?_eq_some_iff.mp (getElem?_of_entry hfd)
  unfold close install
  rw [List.set_set, ← heq, List.set_getElem_self]

theorem close_install (h : ds.lowest = some fd) : (ds.install fd x).close fd = ds := by
  obtain ⟨hlt, heq⟩ := List.getElem?_eq_some_iff.mp (getElem?_lowest h)
  unfold close install
  rw [List.set_set, ← heq, List.set_getElem_self]

end Descriptors

end Ham.Lib
