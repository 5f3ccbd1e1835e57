import Mathlib

/-!
# Ordered sets

`std::set` over a linear order, by its elements in increasing order; an
iterator is a position, the end iterator the number of elements.

* `insert` and `erase`, with `mem_insert` and `mem_erase`;
* `begin_le` — the first element is the least;
* `lowerBound` — the first element that is not less than a bound, with
  `lt_of_mem_take` for what stands before it and `le_of_mem_drop` for the rest;
* `eraseFront` — `erase(begin(), it)`.
-/

namespace Ham.Lib

structure OrderedSet (α : Type*) [LinearOrder α] where
  elems : List α
  sorted : elems.Pairwise (· < ·)

namespace OrderedSet

variable {α : Type*} [LinearOrder α]

instance : Membership α (OrderedSet α) := ⟨fun s a => a ∈ s.elems⟩

instance (a : α) (s : OrderedSet α) : Decidable (a ∈ s) :=
  inferInstanceAs (Decidable (a ∈ s.elems))

theorem mem_elems {a : α} {s : OrderedSet α} : a ∈ s.elems ↔ a ∈ s := Iff.rfl

def empty : OrderedSet α := ⟨[], .nil⟩

theorem not_mem_empty (a : α) : a ∉ (empty : OrderedSet α) := List.not_mem_nil

/-- `*begin()`, if there is one. -/
def begin? (s : OrderedSet α) : Option α := s.elems.head?

theorem begin_eq_none {s : OrderedSet α} : s.begin? = none ↔ ∀ a, a ∉ s := by
  rw [begin?, List.head?_eq_none_iff, List.eq_nil_iff_forall_not_mem]
  rfl

theorem begin_mem {s : OrderedSet α} {a : α} (h : s.begin? = some a) : a ∈ s :=
  List.mem_of_mem_head? (Option.mem_def.mpr h)

theorem begin_le {s : OrderedSet α} {a b : α} (h : s.begin? = some a) (hb : b ∈ s) : a ≤ b := by
  obtain ⟨rest, hrest⟩ := List.head?_eq_some_iff.mp h
  have hsorted := s.sorted
  rw [hrest, List.pairwise_cons] at hsorted
  rcases List.mem_cons.mp (hrest ▸ mem_elems.mpr hb) with rfl | hb
  · exact le_refl b
  · exact (hsorted.1 b hb).le

/-- The first element of a set with elements. -/
theorem exists_begin {s : OrderedSet α} {a : α} (h : a ∈ s) : ∃ b, s.begin? = some b := by
  cases hs : s.begin? with
  | none => exact absurd h (begin_eq_none.mp hs a)
  | some b => exact ⟨b, rfl⟩

theorem pairwise_orderedInsert {l : List α} {a : α} (hl : l.Pairwise (· < ·)) (ha : a ∉ l) :
    (l.orderedInsert (· ≤ ·) a).Pairwise (· < ·) := by
  induction l with
  | nil => simp
  | cons b l ih =>
      obtain ⟨hb, hl⟩ := List.pairwise_cons.mp hl
      obtain ⟨hne, ha⟩ := List.ne_and_not_mem_of_not_mem_cons ha
      by_cases hab : a ≤ b
      · rw [List.orderedInsert_cons_of_le _ _ hab]
        have hlt : a < b := lt_of_le_of_ne hab hne
        refine .cons ?_ (.cons hb hl)
        intro c hc
        rcases List.mem_cons.mp hc with rfl | hc
        · exact hlt
        · exact hlt.trans (hb c hc)
      · rw [List.orderedInsert_of_not_le _ _ hab]
        refine .cons ?_ (ih hl ha)
        intro c hc
        rcases List.mem_orderedInsert _ |>.mp hc with rfl | hc
        · exact not_le.mp hab
        · exact hb c hc

/-- `insert`, with whether there was nothing equal in the set. -/
def insert (s : OrderedSet α) (a : α) : OrderedSet α × Bool :=
  if h : a ∈ s.elems then (s, false)
  else (⟨s.elems.orderedInsert (· ≤ ·) a, pairwise_orderedInsert s.sorted h⟩, true)

theorem insert_new {s : OrderedSet α} {a : α} : (s.insert a).2 = true ↔ a ∉ s := by
  unfold insert
  split
  · rename_i h
    simp [← mem_elems, h]
  · rename_i h
    simp [← mem_elems, h]

theorem mem_insert {s : OrderedSet α} {a b : α} : b ∈ (s.insert a).1 ↔ b = a ∨ b ∈ s := by
  unfold insert
  split
  · rename_i h
    refine ⟨.inr, ?_⟩
    rintro (rfl | hb)
    · exact h
    · exact hb
  · exact List.mem_orderedInsert _

/-- `erase` of an element. -/
def erase (s : OrderedSet α) (a : α) : OrderedSet α :=
  ⟨s.elems.erase a, s.sorted.sublist List.erase_sublist⟩

theorem nodup (s : OrderedSet α) : s.elems.Nodup := s.sorted.imp ne_of_lt

theorem mem_erase {s : OrderedSet α} {a b : α} : b ∈ s.erase a ↔ b ≠ a ∧ b ∈ s :=
  s.nodup.mem_erase_iff

/-- The position of the first element that is not less than `a`. -/
def lowerBound (s : OrderedSet α) (a : α) : Nat := (s.elems.takeWhile (· < a)).length

theorem take_lowerBound (s : OrderedSet α) (a : α) :
    s.elems.take (s.lowerBound a) = s.elems.takeWhile (· < a) := by
  conv_lhs => rw [← List.takeWhile_append_dropWhile (p := fun b => decide (b < a)) (l := s.elems)]
  exact List.take_left

theorem lt_of_mem_take {s : OrderedSet α} {a b : α} (h : b ∈ s.elems.take (s.lowerBound a)) :
    b < a := by
  rw [take_lowerBound] at h
  simpa using List.mem_takeWhile_imp h

/-- What is cut off the front of a set was in it. -/
theorem mem_of_front {s t : OrderedSet α} {front : List α} {a : α}
    (h : front ++ s.elems = t.elems) (ha : a ∈ front) : a ∈ t :=
  mem_elems.mp (h ▸ List.mem_append_left _ ha)

/-- What is left behind the front was in the set. -/
theorem mem_of_back {s t : OrderedSet α} {front : List α} {a : α}
    (h : front ++ s.elems = t.elems) (ha : a ∈ s) : a ∈ t :=
  mem_elems.mp (h ▸ List.mem_append_right _ ha)

/-- `erase(begin(), it)`. -/
def eraseFront (s : OrderedSet α) (n : Nat) : OrderedSet α :=
  ⟨s.elems.drop n, s.sorted.sublist (List.drop_sublist n _)⟩

theorem drop_lowerBound (s : OrderedSet α) (a : α) :
    s.elems.drop (s.lowerBound a) = s.elems.dropWhile (· < a) := by
  conv_lhs => rw [← List.takeWhile_append_dropWhile (p := fun b => decide (b < a)) (l := s.elems)]
  exact List.drop_left

theorem le_of_mem_drop {s : OrderedSet α} {a b : α} (h : b ∈ s.elems.drop (s.lowerBound a)) :
    a ≤ b := by
  -- the rest is a set, and its first element is not less than the bound
  obtain ⟨c, hc⟩ := exists_begin (s := s.eraseFront (s.lowerBound a)) h
  have hcb : c ≤ b := begin_le hc h
  have hnot := List.head?_dropWhile_not (fun b => decide (b < a)) s.elems
  rw [← drop_lowerBound, show (s.elems.drop (s.lowerBound a)).head? = some c from hc] at hnot
  exact (not_lt.mp (by simpa using hnot)).trans hcb

end OrderedSet

end Ham.Lib
