import Ham.Lib.Scan

/-!
# Texts of lines

A text of lines with a two-symbol delimiter between them, and a blank line at
its end: two delimiters in a row. Where no line is empty and none holds the
delimiter's first symbol, the end of the text is the first place with two
delimiters (`search_blank`), and cutting at the delimiter gives back the lines
(`lines_intercalate`). A text of lines of one length is read off line by line
(`getElem?_flatMap_of_length`).
-/

namespace Ham.Lib

variable {α : Type*} [DecidableEq α] {a b : α}

/-- The pieces between the delimiters `a b`. -/
def lines (a b : α) (xs : List α) : List (List α) :=
  match _h : cutAt a b xs with
  | none => [xs]
  | some cut => cut.1 :: lines a b cut.2
  termination_by xs.length
  decreasing_by
    have hlt : cut.2.length + 2 ≤ xs.length := cutAt_length _h
    omega

theorem lines_of_free {xs : List α} (h : Free a b xs) : lines a b xs = [xs] := by
  have hcut : cutAt a b xs = none := cutAt_eq_none_iff.mpr h
  rw [lines]
  split
  · rfl
  · rename_i cut hsome
    rw [hcut] at hsome
    cases hsome

theorem lines_of_cut {xs line rest : List α} (h : cutAt a b xs = some (line, rest)) :
    lines a b xs = line :: lines a b rest := by
  rw [lines]
  split
  · rename_i hnone
    rw [h] at hnone
    cases hnone
  · rename_i cut hsome
    rw [h] at hsome
    cases hsome
    rfl

omit [DecidableEq α] in
/-- With one more at the end, there is a delimiter behind every line. -/
theorem intercalate_append (sep line : List α) (rest : List (List α)) :
    sep.intercalate (line :: rest) ++ sep = (line :: rest).flatMap (· ++ sep) := by
  induction rest generalizing line with
  | nil => simp
  | cons next rest ih =>
      rw [List.intercalate_cons_cons, List.flatMap_cons, ← ih next]
      simp

/-- Cutting at the delimiter undoes putting it between the lines. -/
theorem lines_intercalate (hab : a ≠ b) {line : List α} {rest : List (List α)}
    (h : ∀ l ∈ line :: rest, a ∉ l) :
    lines a b ([a, b].intercalate (line :: rest)) = line :: rest := by
  induction rest generalizing line with
  | nil =>
      rw [List.intercalate_singleton]
      exact lines_of_free (free_of_notMem (h line (by simp)))
  | cons next rest ih =>
      have hcut := cutAt_of_free hab (free_of_notMem (b := b) (h line (by simp)))
        ([a, b].intercalate (next :: rest))
      rw [List.intercalate_cons_cons, List.append_assoc]
      show lines a b (line ++ a :: b :: [a, b].intercalate (next :: rest)) = _
      rw [lines_of_cut hcut, ih fun l hl => h l (List.mem_cons_of_mem _ hl)]

/-- A search passes over what does not hold the first symbol of the pattern. -/
theorem search_notMem {pat line : List α} (h : a ∉ line) (xs : List α) :
    search (a :: pat) (line ++ xs) = line.length + search (a :: pat) xs := by
  induction line with
  | nil => simp
  | cons x line ih =>
      obtain ⟨hx, hline⟩ := List.ne_and_not_mem_of_not_mem_cons h
      have hno : ¬ a :: pat <+: x :: (line ++ xs) := by
        rw [List.cons_prefix_cons]
        exact fun hpre => hx hpre.1
      rw [List.cons_append, search, if_neg hno, ih hline, List.length_cons]
      omega

/-- One delimiter in front of a line is not two. -/
theorem search_line (hab : a ≠ b) {x : α} (hx : x ≠ a) (xs : List α) :
    search [a, b, a, b] (a :: b :: x :: xs) = search [a, b, a, b] (x :: xs) + 2 := by
  have hfirst : ¬ [a, b, a, b] <+: a :: b :: x :: xs := by
    simp only [List.cons_prefix_cons]
    exact fun hpre => hx hpre.2.2.1.symm
  have hsecond : ¬ [a, b, a, b] <+: b :: x :: xs := by
    rw [List.cons_prefix_cons]
    exact fun hpre => hab hpre.1
  rw [search, if_neg hfirst, search, if_neg hsecond]

/-- The first two delimiters in a row end the text. -/
theorem search_blank (hab : a ≠ b) {line : List α} {rest : List (List α)}
    (h : ∀ l ∈ line :: rest, l ≠ [] ∧ a ∉ l) (xs : List α) :
    search [a, b, a, b] ([a, b].intercalate (line :: rest) ++ a :: b :: a :: b :: xs) =
      ([a, b].intercalate (line :: rest)).length := by
  induction rest generalizing line with
  | nil =>
      rw [List.intercalate_singleton, search_notMem (h line (by simp)).2, search,
        if_pos (by simp), Nat.add_zero]
  | cons next rest ih =>
      have htail := ih fun l hl => h l (List.mem_cons_of_mem _ hl)
      -- the next line starts with a symbol that is not `a`
      obtain ⟨hne, hnot⟩ := h next (by simp)
      obtain ⟨x, next, rfl⟩ := List.exists_cons_of_ne_nil hne
      obtain ⟨hx, -⟩ := List.ne_and_not_mem_of_not_mem_cons hnot
      have htext : ∃ text, [a, b].intercalate ((x :: next) :: rest) = x :: text := by
        cases rest with
        | nil => exact ⟨next, List.intercalate_singleton⟩
        | cons l rest => exact ⟨_, List.intercalate_cons_cons⟩
      obtain ⟨text, htext⟩ := htext
      rw [List.intercalate_cons_cons, htext]
      rw [htext] at htail
      simp only [List.append_assoc, List.cons_append, List.nil_append, List.length_append,
        List.length_cons] at htail ⊢
      rw [search_notMem (h line (by simp)).2, search_line hab (Ne.symm hx), htail]

/-- A text whose lines all have the length `n`, symbol by symbol. -/
theorem getElem?_flatMap_of_length {β γ : Type*} {f : β → List γ} {n : Nat} (hn : 0 < n)
    {xs : List β} (h : ∀ x ∈ xs, (f x).length = n) (i : Nat) :
    (xs.flatMap f)[i]? = xs[i / n]?.bind fun x => (f x)[i % n]? := by
  induction xs generalizing i with
  | nil => simp
  | cons x xs ih =>
      obtain ⟨hx, hxs⟩ := List.forall_mem_cons.mp h
      rw [List.flatMap_cons]
      by_cases hi : i < n
      · rw [List.getElem?_append_left (by omega), Nat.div_eq_of_lt hi, Nat.mod_eq_of_lt hi]
        rfl
      · have hsub : i = (i - n) + n := by omega
        rw [List.getElem?_append_right (by omega), hx, ih hxs, hsub, Nat.add_sub_cancel,
          Nat.add_div_right _ hn, Nat.add_mod_right, List.getElem?_cons_succ]

end Ham.Lib
