import Mathlib

/-!
# First-match search over sequences

The scanning primitives a line-oriented parser rests on, over an arbitrary
symbol type:

* `search` — `std::search`: the position of the first occurrence of a
  pattern, the length of the sequence when there is none;
* `cutAt` — the sequence split around the first occurrence of a two-symbol
  delimiter;
* `trim` — both ends stripped of the symbols a predicate picks out;
* `lastIdx` — the position of the last occurrence of a symbol.

The two-symbol delimiter has no self-overlap (`a ≠ b`), so cutting a
delimiter-free piece off the front is exact (`cutAt_of_free`), a found cut
survives appended symbols (`cutAt_append`), and a sequence is uncuttable
exactly when it is delimiter-free (`cutAt_eq_none_iff`).
-/

namespace Ham.Lib

variable {α : Type*}

/-- `std::search`: position of the first occurrence of `pat`, or the length
of the sequence. -/
def search [DecidableEq α] (pat : List α) : List α → Nat
  | [] => 0
  | x :: xs => if pat <+: x :: xs then 0 else search pat xs + 1

/-- The sequence split around the first occurrence of the delimiter `a b`. -/
def cutAt [DecidableEq α] (a b : α) : List α → Option (List α × List α)
  | x :: y :: rest =>
      if x = a ∧ y = b then some ([], rest)
      else (cutAt a b (y :: rest)).map fun cut => (x :: cut.1, cut.2)
  | _ => none

/-- No occurrence of the delimiter `a b`. -/
def Free (a b : α) (xs : List α) : Prop := ¬ [a, b] <:+: xs

instance [DecidableEq α] (a b : α) (xs : List α) : Decidable (Free a b xs) :=
  inferInstanceAs (Decidable (¬ _))

/-! ## Delimiter-free sequences -/

theorem free_nil (a b : α) : Free a b [] := by
  simp [Free]

theorem free_singleton (a b x : α) : Free a b [x] := by
  intro h
  have := h.length_le
  simp at this

theorem free_cons_cons {a b x y : α} {rest : List α} :
    Free a b (x :: y :: rest) ↔ ¬ (x = a ∧ y = b) ∧ Free a b (y :: rest) := by
  unfold Free
  rw [List.infix_cons_iff, not_or]
  refine and_congr_left fun _ => not_congr ?_
  simp only [List.cons_prefix_cons, List.nil_prefix, and_true]
  exact ⟨fun h => ⟨h.1.symm, h.2.symm⟩, fun h => ⟨h.1.symm, h.2.symm⟩⟩

/-- A sequence without the delimiter's first symbol is delimiter-free. -/
theorem free_of_notMem {a b : α} {xs : List α} (h : a ∉ xs) : Free a b xs :=
  fun hx => h (hx.subset (by simp))

/-- A symbol other than `a` in front starts no delimiter. -/
theorem Free.cons {a b x : α} {xs : List α} (hx : x ≠ a) (h : Free a b xs) :
    Free a b (x :: xs) := by
  cases xs with
  | nil => exact free_singleton a b x
  | cons y ys => exact free_cons_cons.mpr ⟨fun hxy => hx hxy.1, h⟩

/-- Delimiter-free pieces glue when the seam does not complete a delimiter. -/
theorem Free.append {a b : α} {xs ys : List α} (hx : Free a b xs) (hy : Free a b ys)
    (hseam : ¬ (xs.getLast? = some a ∧ ys.head? = some b)) : Free a b (xs ++ ys) := by
  induction xs with
  | nil => exact hy
  | cons x rest ih =>
      cases rest with
      | nil =>
          cases ys with
          | nil => exact free_singleton a b x
          | cons y ys' =>
              refine free_cons_cons.mpr ⟨fun h => hseam ?_, hy⟩
              simp [h.1, h.2]
      | cons z rest' =>
          obtain ⟨hne, hrest⟩ := free_cons_cons.mp hx
          have hglued := ih hrest (by simpa [List.getLast?_cons_cons] using hseam)
          exact free_cons_cons.mpr ⟨hne, hglued⟩

/-! ## Trimming -/

/-- Both ends stripped of the symbols `p` picks out. -/
def trim (p : α → Bool) (xs : List α) : List α := (xs.dropWhile p).rdropWhile p

/-- Padding around a core that neither starts nor ends with a padding symbol
is stripped exactly. -/
theorem trim_padded (p : α → Bool) {left core right : List α}
    (hleft : ∀ x ∈ left, p x = true) (hright : ∀ x ∈ right, p x = true)
    (hhead : ∀ x ∈ core.head?, p x = false)
    (hlast : ∀ x ∈ core.getLast?, p x = false) :
    trim p (left ++ core ++ right) = core := by
  unfold trim
  rw [List.append_assoc, List.dropWhile_append_of_pos hleft]
  cases core with
  | nil => simp [List.dropWhile_eq_nil_iff.mpr hright]
  | cons x core' =>
      have hx : p x = false := hhead x (by simp)
      rw [List.cons_append, List.dropWhile_cons_of_neg (by simp [hx])]
      have hrev : ∀ y ∈ right.reverse, p y = true := by
        intro y hy
        exact hright y (List.mem_reverse.mp hy)
      have hcore : ((x :: core').rdropWhile p) = x :: core' := by
        rw [List.rdropWhile_eq_self_iff]
        intro hne
        simp [hlast _ (List.getLast?_eq_some_getLast hne)]
      rw [List.rdropWhile] at hcore
      rw [← List.cons_append, List.rdropWhile, List.reverse_append,
        List.dropWhile_append_of_pos hrev, hcore]

/-! ## Cutting -/

variable [DecidableEq α]

/-- A delimiter-free front is cut off whole. -/
theorem cutAt_of_free {a b : α} (hab : a ≠ b) {line : List α} (h : Free a b line)
    (rest : List α) : cutAt a b (line ++ a :: b :: rest) = some (line, rest) := by
  induction line with
  | nil => simp [cutAt]
  | cons x xs ih =>
      cases xs with
      | nil =>
          -- the seam `x a` is no delimiter, because `a ≠ b`
          simp [cutAt, hab]
      | cons y ys =>
          obtain ⟨hne, hrest⟩ := free_cons_cons.mp h
          have hcut := ih hrest
          simp only [List.cons_append] at hcut ⊢
          simp only [cutAt, if_neg hne]
          rw [hcut]
          rfl

/-- What a successful cut says about the sequence. -/
theorem cutAt_eq_some {a b : α} {xs line rest : List α}
    (h : cutAt a b xs = some (line, rest)) :
    xs = line ++ a :: b :: rest ∧ Free a b line := by
  induction xs generalizing line with
  | nil => simp [cutAt] at h
  | cons x xs ih =>
      cases xs with
      | nil => simp [cutAt] at h
      | cons y ys =>
          by_cases hxy : x = a ∧ y = b
          · simp only [cutAt, if_pos hxy, Option.some.injEq, Prod.mk.injEq] at h
            obtain ⟨rfl, rfl⟩ := h
            exact ⟨by simp [hxy.1, hxy.2], free_nil a b⟩
          · simp only [cutAt, if_neg hxy, Option.map_eq_some_iff] at h
            obtain ⟨⟨line', rest'⟩, hcut, heq⟩ := h
            obtain ⟨rfl, rfl⟩ := Prod.mk.inj heq
            obtain ⟨hsplit, hfree⟩ := ih hcut
            refine ⟨by simp [hsplit], ?_⟩
            cases line' with
            | nil => exact free_singleton a b x
            | cons z zs =>
                have hzy : z = y := by
                  simp only [List.cons_append, List.cons.injEq] at hsplit
                  exact hsplit.1.symm
                subst hzy
                exact free_cons_cons.mpr ⟨hxy, hfree⟩

/-- Nothing to cut exactly when the delimiter does not occur. -/
theorem cutAt_eq_none_iff {a b : α} {xs : List α} : cutAt a b xs = none ↔ Free a b xs := by
  induction xs with
  | nil => simp [cutAt, free_nil]
  | cons x xs ih =>
      cases xs with
      | nil => simp [cutAt, free_singleton]
      | cons y ys =>
          rw [free_cons_cons, ← ih]
          by_cases hxy : x = a ∧ y = b
          · simp [cutAt, hxy]
          · simp [cutAt, hxy]

/-- Symbols arriving behind a found cut do not move it. -/
theorem cutAt_append {a b : α} (hab : a ≠ b) {xs line rest : List α}
    (h : cutAt a b xs = some (line, rest)) (ys : List α) :
    cutAt a b (xs ++ ys) = some (line, rest ++ ys) := by
  obtain ⟨rfl, hfree⟩ := cutAt_eq_some h
  have := cutAt_of_free hab hfree (rest ++ ys)
  simpa using this

/-- A cut removes at least the two delimiter symbols. -/
theorem cutAt_length {a b : α} {xs line rest : List α}
    (h : cutAt a b xs = some (line, rest)) : rest.length + 2 ≤ xs.length := by
  obtain ⟨rfl, _⟩ := cutAt_eq_some h
  simp

/-- `search` for the delimiter finds the cut. -/
theorem search_eq_cutAt (a b : α) (xs : List α) :
    search [a, b] xs =
      match cutAt a b xs with
      | some cut => cut.1.length
      | none => xs.length := by
  induction xs with
  | nil => rfl
  | cons x xs ih =>
      cases xs with
      | nil => simp [search, cutAt]
      | cons y ys =>
          by_cases hxy : x = a ∧ y = b
          · simp [search, cutAt, hxy]
          · have hnp : ¬ [a, b] <+: x :: y :: ys := by
              simp only [List.cons_prefix_cons, List.nil_prefix, and_true]
              exact fun h => hxy ⟨h.1.symm, h.2.symm⟩
            rw [search, if_neg hnp, ih]
            simp only [cutAt, if_neg hxy]
            cases cutAt a b (y :: ys) <;> simp

/-! ## First occurrence of one symbol -/

/-- `std::find` stops at the first symbol after a front without it. -/
theorem idxOf_append_cons {c : α} {front : List α} (h : c ∉ front) (rest : List α) :
    (front ++ c :: rest).idxOf c = front.length := by
  rw [List.idxOf_append_of_notMem h, List.idxOf_cons_self, Nat.add_zero]

/-- What stands in front of the first occurrence. -/
theorem takeWhile_ne {c : α} {front : List α} (h : c ∉ front) (rest : List α) :
    (front ++ c :: rest).takeWhile (· ≠ c) = front := by
  have hall : ∀ x ∈ front, decide (x ≠ c) = true := fun x hx =>
    decide_eq_true fun heq => h (heq ▸ hx)
  rw [List.takeWhile_append_of_pos hall, List.takeWhile_cons_of_neg (by simp), List.append_nil]

/-- The first occurrence and what follows it. -/
theorem dropWhile_ne {c : α} {front : List α} (h : c ∉ front) (rest : List α) :
    (front ++ c :: rest).dropWhile (· ≠ c) = c :: rest := by
  have hall : ∀ x ∈ front, decide (x ≠ c) = true := fun x hx =>
    decide_eq_true fun heq => h (heq ▸ hx)
  rw [List.dropWhile_append_of_pos hall, List.dropWhile_cons_of_neg (by simp)]

/-- A sequence split at the first occurrence of `c`. -/
theorem eq_take_idxOf_append {c : α} {xs : List α} (h : c ∈ xs) :
    xs = xs.take (xs.idxOf c) ++ c :: xs.drop (xs.idxOf c + 1) ∧
      c ∉ xs.take (xs.idxOf c) := by
  obtain ⟨front, rest, hnot, heq⟩ := List.eq_append_cons_of_mem h |>.imp
    fun front hf => hf.imp fun rest hr => And.intro hr.2 hr.1
  have hidx : xs.idxOf c = front.length := by
    rw [heq]
    exact idxOf_append_cons hnot rest
  rw [hidx, heq]
  simp [hnot]

/-! ## Last occurrence of one symbol -/

/-- The position of the last occurrence. -/
def lastIdx (c : α) : List α → Option Nat
  | [] => none
  | x :: xs =>
      match lastIdx c xs with
      | some i => some (i + 1)
      | none => if x = c then some 0 else none

theorem lastIdx_eq_none_iff {c : α} {xs : List α} : lastIdx c xs = none ↔ c ∉ xs := by
  induction xs with
  | nil => simp [lastIdx]
  | cons x xs ih =>
      rw [List.mem_cons, not_or, ← ih, lastIdx]
      cases lastIdx c xs with
      | some i => simp
      | none =>
          by_cases hx : x = c
          · simp [hx]
          · simp [hx, Ne.symm hx]

/-- What follows the last occurrence has none. -/
theorem lastIdx_eq_some {c : α} {xs : List α} {i : Nat} (h : lastIdx c xs = some i) :
    ∃ front rest, xs = front ++ c :: rest ∧ c ∉ rest ∧ front.length = i := by
  induction xs generalizing i with
  | nil => cases h
  | cons x xs ih =>
      rw [lastIdx] at h
      cases hrest : lastIdx c xs with
      | some j =>
          rw [hrest] at h
          obtain ⟨front, rest, hsplit, hnot, hlength⟩ := ih hrest
          refine ⟨x :: front, rest, by rw [hsplit, List.cons_append], hnot, ?_⟩
          rw [List.length_cons, hlength]
          exact Option.some.inj h
      | none =>
          simp only [hrest] at h
          split at h
          · rename_i hx
            cases h
            exact ⟨[], xs, by rw [hx, List.nil_append], lastIdx_eq_none_iff.mp hrest, rfl⟩
          · cases h

/-- A further symbol is the last occurrence, or leaves it where it is. -/
theorem lastIdx_concat (c : α) (xs : List α) (x : α) :
    lastIdx c (xs ++ [x]) = if x = c then some xs.length else lastIdx c xs := by
  induction xs with
  | nil => rfl
  | cons y xs ih =>
      rw [List.cons_append, lastIdx, ih, lastIdx, List.length_cons]
      by_cases hx : x = c
      · simp [hx]
      · simp [hx]

/-- An occurrence with none behind it. -/
theorem lastIdx_append_cons {c : α} {rest : List α} (h : c ∉ rest) (front : List α) :
    lastIdx c (front ++ c :: rest) = some front.length := by
  have hrest : lastIdx c rest = none := lastIdx_eq_none_iff.mpr h
  induction front with
  | nil => simp [lastIdx, hrest]
  | cons x front ih => rw [List.cons_append, lastIdx, ih, List.length_cons]

end Ham.Lib
