import Ham.Base.Types
import Ham.Lib.Memory
import Ham.Lib.Scan

/-!
# `Exception::fillStack`

`backtrace_symbols` returns one string for each frame. The loop looks for a `(`,
a `+` and a `)`, writes a terminator in the place of each and demangles what is
between the first two. It uses the three positions whether it has found them or
not: all is well if and only if every string is a module, and then a name and an
offset in parentheses (`fillStack_safe_iff`); on a string without one of the
three symbols a null pointer is written through.
-/

namespace Ham.Exception

open Lib

/-- A string of `backtrace_symbols`, without its terminator. -/
structure Symbol where
  chars : Bytes
  nonempty : chars ≠ []
  no_nul : 0 ∉ chars

def Symbol.memory (s : Symbol) : Bytes := s.chars ++ [0]

/-- `begin_name`, `begin_offset` and `end_offset`, as positions in the string. -/
structure Marks where
  begin_name : Option Nat := none
  begin_offset : Option Nat := none
  end_offset : Option Nat := none
  deriving DecidableEq, Repr

/-- The loop over the characters, from a position on. -/
def scan (pos : Nat) (marks : Marks) : Bytes → Marks
  -- past the terminator
  | [] => marks
  | c :: cs =>
      if c = 0 then marks
      else if c = 40 then scan (pos + 1) { marks with begin_name := some pos } cs
      else if c = 43 then scan (pos + 1) { marks with begin_offset := some pos } cs
      else if c = 41 ∧ marks.begin_offset ≠ none then { marks with end_offset := some pos }
      else scan (pos + 1) marks cs

/-- `*position++ = '\0'`. -/
def terminate (position : Option Nat) (memory : Bytes) : Except Fault (Nat × Bytes) :=
  match position with
  | none => .error .nullPointer
  | some pos => .ok (pos + 1, memory.set pos 0)

/-- The string that starts at a position. -/
def cString (memory : Bytes) (pos : Nat) : Bytes := (memory.drop pos).takeWhile (· ≠ 0)

/-- What one frame appends. `demangle` is `abi::__cxa_demangle`, without a result
for a `status` other than `0`. -/
def frame (demangle : Bytes → Option Bytes) (memory : Bytes) : Except Fault Bytes := do
  let marks := scan 0 {} memory
  let (begin_name, memory) ← terminate marks.begin_name memory
  let (_, memory) ← terminate marks.begin_offset memory
  let (_, memory) ← terminate marks.end_offset memory
  match demangle (cString memory begin_name) with
  | some res => return res ++ [10]
  | none => return cString memory 0

/-- `fillStack`, on what `backtrace_symbols` returns; the first frame is its own. -/
def fillStack (demangle : Bytes → Option Bytes) (funcNames : Option (List Bytes)) :
    Except Fault Bytes :=
  match funcNames with
  | none => .ok []
  | some names =>
      (names.drop 1).foldlM (fun stack memory => do return stack ++ (← frame demangle memory)) []

/-! ## What the positions should be -/

/-- No `)` behind a `+`. -/
def Unclosed (xs : Bytes) : Prop := 41 ∉ xs.dropWhile (· ≠ 43)

instance (xs : Bytes) : Decidable (Unclosed xs) := inferInstanceAs (Decidable (_ ∉ _))

/-- `module(name+offset)` and a rest. A `(` or a `+` of the module is in front of
the last ones, and its `)` in front of every `+`. -/
structure IsFrame (module name offset rest chars : Bytes) : Prop where
  eq : chars = module ++ 40 :: (name ++ 43 :: (offset ++ 41 :: rest))
  name_free : 40 ∉ name
  offset_free : 40 ∉ offset ∧ 43 ∉ offset
  unclosed : Unclosed (module ++ 40 :: (name ++ 43 :: offset))

/-- The three positions are found inside the string, in order, and the frame
appends the demangled name and a line end, or else the module. -/
def Symbol.Handled (demangle : Bytes → Option Bytes) (s : Symbol) (text : Bytes) : Prop :=
  ∃ n o e, scan 0 {} s.memory = ⟨some n, some o, some e⟩ ∧ n < o ∧ o < e ∧ e < s.chars.length ∧
    text =
      match demangle (slice s.chars (n + 1) o) with
      | some res => res ++ [10]
      | none => s.chars.take n

/-- Every frame from index 1 on is handled, and nothing else is appended. -/
def FillsStack (demangle : Bytes → Option Bytes) (names : List Symbol) : Prop :=
  ∃ texts, fillStack demangle (some (names.map Symbol.memory)) = .ok texts.flatten ∧
    List.Forall₂ (Symbol.Handled demangle) (names.drop 1) texts

/-! ## Open texts -/

theorem unclosed_of_notMem {xs : Bytes} (h : 43 ∉ xs) : Unclosed xs := by
  have hall : ∀ x ∈ xs, decide (x ≠ 43) = true := by
    intro x hx
    exact decide_eq_true fun heq => h (heq ▸ hx)
  rw [Unclosed, List.dropWhile_eq_nil_iff.mpr hall]
  exact List.not_mem_nil

/-- From the first `+` on. -/
theorem unclosed_plus {front : Bytes} (h : 43 ∉ front) (rest : Bytes) :
    Unclosed (front ++ 43 :: rest) ↔ 41 ∉ rest := by
  rw [Unclosed, dropWhile_ne h]
  simp

/-- A text is without a `+`, or has a first one. -/
theorem plus_cases (xs : Bytes) :
    43 ∉ xs ∨ ∃ front rest, xs = front ++ 43 :: rest ∧ 43 ∉ front := by
  by_cases hplus : 43 ∈ xs
  · exact .inr ⟨_, _, eq_take_idxOf_append hplus⟩
  · exact .inl hplus

theorem Unclosed.of_append {xs ys : Bytes} (h : Unclosed (xs ++ ys)) : Unclosed xs := by
  rcases plus_cases xs with hfree | ⟨front, rest, rfl, hfront⟩
  · exact unclosed_of_notMem hfree
  · rw [List.append_assoc, List.cons_append, unclosed_plus hfront] at h
    rw [unclosed_plus hfront]
    exact fun hmem => h (List.mem_append_left ys hmem)

/-- A `)` leaves a text open that has no `+`. -/
theorem Unclosed.notMem_of_close {xs : Bytes} (h : Unclosed (xs ++ [41])) : 43 ∉ xs := by
  rcases plus_cases xs with hfree | ⟨front, rest, rfl, hfront⟩
  · exact hfree
  · rw [List.append_assoc, List.cons_append, unclosed_plus hfront] at h
    exact absurd (List.mem_append_right rest List.mem_cons_self) h

/-- A text is open, or has a first `)` behind a `+`. -/
theorem unclosed_or (xs : Bytes) :
    Unclosed xs ∨ ∃ front rest, xs = front ++ 41 :: rest ∧ 43 ∈ front ∧ Unclosed front := by
  rcases plus_cases xs with hfree | ⟨module, tail, rfl, hmodule⟩
  · exact .inl (unclosed_of_notMem hfree)
  · by_cases hclose : 41 ∈ tail
    · obtain ⟨hsplit, hfirst⟩ := eq_take_idxOf_append hclose
      refine .inr ⟨module ++ 43 :: tail.take (tail.idxOf 41), tail.drop (tail.idxOf 41 + 1),
        ?_, by simp, (unclosed_plus hmodule _).mpr hfirst⟩
      rw [List.append_assoc, List.cons_append, ← hsplit]
    · exact .inl ((unclosed_plus hmodule tail).mpr hclose)

/-! ## The scan -/

/-- The positions in a text without an end. -/
def marksOf (xs : Bytes) : Marks where
  begin_name := lastIdx 40 xs
  begin_offset := lastIdx 43 xs

theorem marksOf_concat (xs : Bytes) (c : Byte) : marksOf (xs ++ [c]) =
    if c = 40 then { marksOf xs with begin_name := some xs.length }
    else if c = 43 then { marksOf xs with begin_offset := some xs.length }
    else marksOf xs := by
  simp only [marksOf, lastIdx_concat]
  by_cases hname : c = 40
  · simp [hname]
  · by_cases hoffset : c = 43
    · simp [hoffset]
    · simp [hname, hoffset]

/-- The scan goes through an open text. -/
theorem scan_append (xs zs : Bytes) {ys : Bytes} (hnul : 0 ∉ ys) (hopen : Unclosed (xs ++ ys)) :
    scan xs.length (marksOf xs) (ys ++ zs) =
      scan (xs ++ ys).length (marksOf (xs ++ ys)) zs := by
  induction ys generalizing xs with
  | nil => rw [List.append_nil, List.nil_append]
  | cons c ys ih =>
      obtain ⟨hc, hnul⟩ : 0 ≠ c ∧ 0 ∉ ys := by simpa using hnul
      have hsplit : xs ++ c :: ys = xs ++ [c] ++ ys := by simp
      rw [hsplit] at hopen ⊢
      rw [← ih (xs ++ [c]) hnul hopen, List.cons_append, scan, if_neg (Ne.symm hc), marksOf_concat,
        List.length_append, List.length_singleton]
      split_ifs with hname hoffset hend
      · rfl
      · rfl
      · -- there would be a `+` in front
        obtain ⟨rfl, hmark⟩ := hend
        exact absurd (lastIdx_eq_none_iff.mpr hopen.of_append.notMem_of_close) hmark
      · rfl

/-- Without a `)` behind a `+` the scan ends at the terminator. -/
theorem scan_open {s : Symbol} (h : Unclosed s.chars) : scan 0 {} s.memory = marksOf s.chars := by
  have hscan := scan_append [] [0] s.no_nul h
  rw [List.nil_append] at hscan
  exact hscan

/-- The scan ends at the first `)` behind a `+`. -/
theorem scan_closed {s : Symbol} {front rest : Bytes} (hsplit : s.chars = front ++ 41 :: rest)
    (hplus : 43 ∈ front) (h : Unclosed front) :
    scan 0 {} s.memory = { marksOf front with end_offset := some front.length } := by
  have hnul : 0 ∉ front := by
    intro hmem
    exact s.no_nul (hsplit ▸ List.mem_append_left _ hmem)
  have hscan := scan_append [] (41 :: (rest ++ [0])) hnul h
  have hmemory : s.memory = front ++ 41 :: (rest ++ [0]) := by simp [Symbol.memory, hsplit]
  have hoffset : (marksOf front).begin_offset ≠ none := by
    intro hnone
    exact lastIdx_eq_none_iff.mp hnone hplus
  rw [List.nil_append] at hscan
  rw [hmemory]
  refine hscan.trans ?_
  simp [scan, hoffset]

/-! ## One frame -/

variable {module name offset rest : Bytes} {s : Symbol}

/-- The positions in a frame are those of its three symbols. -/
theorem IsFrame.scan (h : IsFrame module name offset rest s.chars) :
    Exception.scan 0 {} s.memory = ⟨some module.length, some (module.length + 1 + name.length),
      some (module.length + 1 + name.length + 1 + offset.length)⟩ := by
  have hsplit : s.chars = (module ++ 40 :: (name ++ 43 :: offset)) ++ 41 :: rest := by
    rw [h.eq]
    simp
  have hname : lastIdx 40 (module ++ 40 :: (name ++ 43 :: offset)) = some module.length := by
    apply lastIdx_append_cons
    simp [h.name_free, h.offset_free.1]
  have hoffset : lastIdx 43 (module ++ 40 :: (name ++ 43 :: offset)) =
      some (module.length + 1 + name.length) := by
    have hlast := lastIdx_append_cons h.offset_free.2 (module ++ 40 :: name)
    simpa [Nat.add_assoc, Nat.add_comm 1] using hlast
  rw [scan_closed hsplit (by simp) h.unclosed, marksOf, hname, hoffset]
  simp only [List.length_append, List.length_cons, Marks.mk.injEq, Option.some.injEq, true_and]
  omega

/-- Three positions in order make a frame. -/
theorem isFrame_of_ordered {n o e : Nat}
    (h : Exception.scan 0 {} s.memory = ⟨some n, some o, some e⟩) (hno : n < o) :
    ∃ module name offset rest, IsFrame module name offset rest s.chars := by
  rcases unclosed_or s.chars with hopen | ⟨front, rest, hsplit, hplus, hopen⟩
  · rw [scan_open hopen] at h
    cases congrArg Marks.end_offset h
  · rw [scan_closed hsplit hplus hopen, marksOf, Marks.mk.injEq] at h
    obtain ⟨hname, hoffset, -⟩ := h
    obtain ⟨module, tail, hmodule, htail, rfl⟩ := lastIdx_eq_some hname
    obtain ⟨before, offset, hbefore, hfree, rfl⟩ := lastIdx_eq_some hoffset
    -- the `+` is in what follows the `(`
    obtain ⟨name, rfl⟩ : ∃ name, tail = name ++ 43 :: offset := by
      rcases List.append_eq_append_iff.mp (hmodule.symm.trans hbefore) with
        ⟨between, hfront, htail⟩ | ⟨between, hfront, -⟩
      · cases between with
        | nil => cases htail
        | cons c name =>
            obtain ⟨-, rfl⟩ := List.cons.inj htail
            exact ⟨name, rfl⟩
      · rw [hfront, List.length_append] at hno
        omega
    simp only [List.mem_append, List.mem_cons, not_or] at htail
    refine ⟨module, name, offset, rest, ?_, htail.1, ⟨htail.2.2, hfree⟩, hmodule ▸ hopen⟩
    rw [hsplit, hmodule]
    simp

/-- The string up to a terminator. -/
theorem cString_append {text : Bytes} (h : 0 ∉ text) (front behind : Bytes) :
    cString (front ++ (text ++ 0 :: behind)) front.length = text := by
  rw [cString, List.drop_left]
  exact takeWhile_ne h behind

/-- A terminator in the place of a symbol. -/
theorem set_terminator (front : Bytes) {pos : Nat} (hpos : pos = front.length) (c : Byte)
    (behind : Bytes) : (front ++ c :: behind).set pos 0 = front ++ 0 :: behind := by
  subst hpos
  rw [List.set_append_right front.length 0 (Nat.le_refl _), Nat.sub_self, List.set_cons_zero]

/-- The string of a frame behind its three terminators. -/
theorem IsFrame.memory (h : IsFrame module name offset rest s.chars) :
    ((s.memory.set module.length 0).set (module.length + 1 + name.length) 0).set
      (module.length + 1 + name.length + 1 + offset.length) 0 =
      module ++ 0 :: (name ++ 0 :: (offset ++ 0 :: (rest ++ [0]))) := by
  have hmemory : s.memory =
      module ++ 40 :: (name ++ 43 :: (offset ++ 41 :: (rest ++ [0]))) := by
    simp [Symbol.memory, h.eq]
  have hplus : (module ++ 0 :: (name ++ 43 :: (offset ++ 41 :: (rest ++ [0])))).set
      (module.length + 1 + name.length) 0 =
      module ++ 0 :: (name ++ 0 :: (offset ++ 41 :: (rest ++ [0]))) := by
    have hpos : module.length + 1 + name.length = (module ++ 0 :: name).length := by
      simp only [List.length_append, List.length_cons]
      omega
    simpa using set_terminator (module ++ 0 :: name) hpos 43 (offset ++ 41 :: (rest ++ [0]))
  have hclose : (module ++ 0 :: (name ++ 0 :: (offset ++ 41 :: (rest ++ [0])))).set
      (module.length + 1 + name.length + 1 + offset.length) 0 =
      module ++ 0 :: (name ++ 0 :: (offset ++ 0 :: (rest ++ [0]))) := by
    have hpos : module.length + 1 + name.length + 1 + offset.length =
        (module ++ 0 :: (name ++ 0 :: offset)).length := by
      simp only [List.length_append, List.length_cons]
      omega
    simpa using set_terminator (module ++ 0 :: (name ++ 0 :: offset)) hpos 41 (rest ++ [0])
  rw [hmemory, set_terminator module rfl, hplus, hclose]

/-- What a frame appends. -/
theorem IsFrame.frame (h : IsFrame module name offset rest s.chars)
    (demangle : Bytes → Option Bytes) :
    Exception.frame demangle s.memory = .ok (
      match demangle name with
      | some res => res ++ [10]
      | none => module) := by
  have hnul := s.no_nul
  rw [h.eq] at hnul
  simp only [List.mem_append, List.mem_cons, not_or] at hnul
  obtain ⟨hmodule, -, hname, -, hoffset, -, -⟩ := hnul
  have htext : cString (module ++ 0 :: (name ++ 0 :: (offset ++ 0 :: (rest ++ [0]))))
      (module.length + 1) = name := by
    have hcut := cString_append hname (module ++ [0]) (offset ++ 0 :: (rest ++ [0]))
    simpa using hcut
  have hraw : cString (module ++ 0 :: (name ++ 0 :: (offset ++ 0 :: (rest ++ [0])))) 0 =
      module := cString_append hmodule [] _
  simp only [Exception.frame, h.scan, terminate, ok_bind, h.memory, htext, hraw]
  cases demangle name <;> rfl

/-- What is handled is a frame, and a frame is handled in one way. -/
theorem handled_iff {demangle : Bytes → Option Bytes} {text : Bytes} :
    s.Handled demangle text ↔
      (∃ module name offset rest, IsFrame module name offset rest s.chars) ∧
      Exception.frame demangle s.memory = .ok text := by
  have htext : ∀ {module name offset rest : Bytes}, IsFrame module name offset rest s.chars →
      s.chars.take module.length = module ∧
      slice s.chars (module.length + 1) (module.length + 1 + name.length) = name := by
    intro module name offset rest h
    have hname := slice_middle (module ++ [40]) name (43 :: (offset ++ 41 :: rest))
    rw [h.eq]
    exact ⟨List.take_left, by simpa using hname⟩
  constructor
  · rintro ⟨n, o, e, hscan, hno, -, -, rfl⟩
    obtain ⟨module, name, offset, rest, h⟩ := isFrame_of_ordered hscan hno
    obtain ⟨hmodule, hname⟩ := htext h
    refine ⟨⟨module, name, offset, rest, h⟩, ?_⟩
    rw [h.scan, Marks.mk.injEq, Option.some.injEq, Option.some.injEq] at hscan
    obtain ⟨rfl, rfl, -⟩ := hscan
    rw [h.frame, hname, hmodule]
  · rintro ⟨⟨module, name, offset, rest, h⟩, hframe⟩
    obtain ⟨hmodule, hname⟩ := htext h
    have hlength : module.length + 1 + name.length + 1 + offset.length < s.chars.length := by
      simp only [h.eq, List.length_append, List.length_cons]
      omega
    refine ⟨_, _, _, h.scan, by omega, by omega, hlength, ?_⟩
    rw [hname, hmodule]
    rw [h.frame] at hframe
    exact (Except.ok.inj hframe).symm

/-- A position that is not found is written through. -/
theorem frame_unmarked {memory : Bytes} {demangle : Bytes → Option Bytes}
    (h : (scan 0 {} memory).begin_name = none ∨ (scan 0 {} memory).begin_offset = none ∨
      (scan 0 {} memory).end_offset = none) :
    Exception.frame demangle memory = .error .nullPointer := by
  unfold Exception.frame
  generalize scan 0 {} memory = marks at h ⊢
  obtain ⟨begin_name, begin_offset, end_offset⟩ := marks
  cases begin_name with
  | none => rfl
  | some n =>
      cases begin_offset with
      | none => rfl
      | some o =>
          obtain rfl : end_offset = none := by simpa using h
          rfl

theorem frame_fault {memory : Bytes} {demangle : Bytes → Option Bytes} {f : Fault}
    (h : Exception.frame demangle memory = .error f) : f = .nullPointer := by
  have hmarks : ∀ marks : Marks, marks.begin_name = none ∨ marks.begin_offset = none ∨
      marks.end_offset = none ∨ ∃ n o e, marks = ⟨some n, some o, some e⟩ := by
    rintro ⟨begin_name, begin_offset, end_offset⟩
    cases begin_name <;> cases begin_offset <;> cases end_offset <;> simp
  rcases hmarks (scan 0 {} memory) with hnone | hnone | hnone | ⟨n, o, e, hscan⟩
  · rw [frame_unmarked (.inl hnone)] at h
    exact (Except.error.inj h).symm
  · rw [frame_unmarked (.inr (.inl hnone))] at h
    exact (Except.error.inj h).symm
  · rw [frame_unmarked (.inr (.inr hnone))] at h
    exact (Except.error.inj h).symm
  · -- with three positions the frame returns
    simp only [Exception.frame, hscan, terminate, ok_bind] at h
    split at h <;> cases h

/-- Without one of the three symbols a position is not found. -/
theorem scan_unmarked (h : 40 ∉ s.chars ∨ 43 ∉ s.chars ∨ 41 ∉ s.chars) :
    (scan 0 {} s.memory).begin_name = none ∨ (scan 0 {} s.memory).begin_offset = none ∨
      (scan 0 {} s.memory).end_offset = none := by
  rcases unclosed_or s.chars with hopen | ⟨front, rest, hsplit, hplus, hopen⟩
  · rw [scan_open hopen]
    exact .inr (.inr rfl)
  · rw [hsplit] at h
    have hname : 40 ∉ front := by
      intro hmem
      simp [hmem, hplus] at h
    rw [scan_closed hsplit hplus hopen]
    exact .inl (lastIdx_eq_none_iff.mpr hname)

/-! ## All frames -/

section

variable {demangle : Bytes → Option Bytes} {frames : List Symbol} {stack out : Bytes}

/-- The loop over the frames. -/
def appendFrames (demangle : Bytes → Option Bytes) (frames : List Symbol) (stack : Bytes) :
    Except Fault Bytes :=
  (frames.map Symbol.memory).foldlM
    (fun stack memory => do return stack ++ (← Exception.frame demangle memory)) stack

theorem fillStack_eq (demangle : Bytes → Option Bytes) (names : List Symbol) :
    fillStack demangle (some (names.map Symbol.memory)) =
      appendFrames demangle (names.drop 1) [] := by
  rw [appendFrames, List.map_drop]
  rfl

theorem appendFrames_cons (s : Symbol) (h : Exception.frame demangle s.memory = .ok out) :
    appendFrames demangle (s :: frames) stack = appendFrames demangle frames (stack ++ out) := by
  simp only [appendFrames, List.map_cons, List.foldlM_cons, h, ok_bind, pure_eq_ok]

/-- The texts of the frames, one behind the other. -/
theorem appendFrames_ok (stack : Bytes)
    (h : ∀ s ∈ frames, ∃ text, Exception.frame demangle s.memory = .ok text) :
    ∃ texts, List.Forall₂ (fun s text => Exception.frame demangle s.memory = .ok text)
      frames texts ∧ appendFrames demangle frames stack = .ok (stack ++ texts.flatten) := by
  induction frames generalizing stack with
  | nil => exact ⟨[], .nil, by simp [appendFrames]⟩
  | cons s frames ih =>
      obtain ⟨text, htext⟩ := h s List.mem_cons_self
      obtain ⟨texts, htexts, hrest⟩ :=
        ih (stack ++ text) fun s' hs' => h s' (List.mem_cons_of_mem s hs')
      refine ⟨text :: texts, .cons htext htexts, ?_⟩
      rw [appendFrames_cons s htext, hrest, List.flatten_cons, List.append_assoc]

/-- The loop ends at the first frame without its positions. -/
theorem appendFrames_fault
    (h : ∃ s ∈ frames, Exception.frame demangle s.memory = .error .nullPointer) :
    appendFrames demangle frames stack = .error .nullPointer := by
  induction frames generalizing stack with
  | nil =>
      obtain ⟨s, hs, -⟩ := h
      cases hs
  | cons s frames ih =>
      cases hframe : Exception.frame demangle s.memory with
      | error f =>
          obtain rfl := frame_fault hframe
          simp only [appendFrames, List.map_cons, List.foldlM_cons, hframe, error_bind]
      | ok text =>
          rw [appendFrames_cons s hframe]
          refine ih ?_
          obtain ⟨s', hs', hfault⟩ := h
          rcases List.mem_cons.mp hs' with rfl | hs'
          · rw [hframe] at hfault
            cases hfault
          · exact ⟨s', hs', hfault⟩

end

/-- `fillStack` handles every frame from index 1 on if and only if each is a
module with a name and an offset in parentheses. If one of them is without a
`(`, a `+` or a `)`, a null pointer is dereferenced. -/
theorem fillStack_safe_iff (demangle : Bytes → Option Bytes) (names : List Symbol) :
    (FillsStack demangle names ↔
      ∀ s ∈ names.drop 1, ∃ module name offset rest, IsFrame module name offset rest s.chars) ∧
    ((∃ s ∈ names.drop 1, 40 ∉ s.chars ∨ 43 ∉ s.chars ∨ 41 ∉ s.chars) →
      fillStack demangle (some (names.map Symbol.memory)) = .error .nullPointer) := by
  refine ⟨⟨?_, ?_⟩, ?_⟩
  · rintro ⟨texts, -, hhandled⟩
    have hboth := hhandled.imp fun s text h => handled_iff.mp h
    exact ((List.forall₂_and_left _ _).mp hboth).1
  · intro hframes
    have hok : ∀ s ∈ names.drop 1, ∃ text, frame demangle s.memory = .ok text := by
      intro s hs
      obtain ⟨module, name, offset, rest, h⟩ := hframes s hs
      exact ⟨_, h.frame demangle⟩
    obtain ⟨texts, htexts, hout⟩ := appendFrames_ok [] hok
    refine ⟨texts, by rw [fillStack_eq, hout, List.nil_append], ?_⟩
    have hboth := (List.forall₂_and_left _ _).mpr ⟨hframes, htexts⟩
    exact hboth.imp fun s text h => handled_iff.mpr h
  · rintro ⟨s, hs, hmissing⟩
    rw [fillStack_eq]
    exact appendFrames_fault ⟨s, hs, frame_unmarked (scan_unmarked hmissing)⟩

/-- `app(main+0x2a) [0x4]`, with a name that is not mangled: its module is
appended. -/
theorem fillStack_safe_iff_main : ∃ names : List Symbol,
    names.map Symbol.chars = [ascii ['a'], ascii ['a', 'p', 'p', '(', 'm', 'a', 'i', 'n', '+', '0',
      'x', '2', 'a', ')', ' ', '[', '0', 'x', '4', ']']] ∧
    FillsStack (fun _ => none) names ∧
    fillStack (fun _ => none) (some (names.map Symbol.memory)) = .ok (ascii ['a', 'p', 'p']) := by
  refine ⟨[⟨ascii ['a'], by decide, by decide⟩, ⟨ascii ['a', 'p', 'p', '(', 'm', 'a', 'i', 'n', '+',
    '0', 'x', '2', 'a', ')', ' ', '[', '0', 'x', '4', ']'], by decide, by decide⟩], rfl, ?_, rfl⟩
  refine (fillStack_safe_iff (fun _ => none) _).1.mpr ?_
  intro s hs
  obtain rfl := List.mem_singleton.mp hs
  exact ⟨ascii ['a', 'p', 'p'], ascii ['m', 'a', 'i', 'n'], ascii ['0', 'x', '2', 'a'],
    ascii [' ', '[', '0', 'x', '4', ']'], rfl, by decide, by decide, by decide⟩

/-- `app() [0x4]`, as a frame without a known function is printed. -/
theorem fillStack_null : ∃ names : List Symbol,
    names.map Symbol.chars = [ascii ['a'], ascii ['a', 'p', 'p', '(', ')', ' ', '[', '0', 'x', '4',
      ']']] ∧
    fillStack (fun _ => none) (some (names.map Symbol.memory)) = .error .nullPointer ∧
    ¬ FillsStack (fun _ => none) names := by
  refine ⟨[⟨ascii ['a'], by decide, by decide⟩, ⟨ascii ['a', 'p', 'p', '(', ')', ' ', '[', '0', 'x',
    '4', ']'], by decide, by decide⟩], rfl, rfl, ?_⟩
  rintro ⟨texts, hout, -⟩
  cases hout

end Ham.Exception
