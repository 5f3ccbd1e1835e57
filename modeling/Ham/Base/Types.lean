import Mathlib

/-!
# Common types

Bytes, time stamps, and the ways a call leaves the normal path. The build
enables assertions (`CMAKE_BUILD_TYPE` defaults to `Debug`), so a failed
`assert` ends the process; `CRITICAL` logs and calls `abort()`; an exception
thrown by a library unwinds out of the event loop. Code that can do any of
this returns `Except Fault`.
-/

namespace Ham

/-- A byte of the C++ program (`char`, by its bit pattern). -/
abbrev Byte := UInt8

abbrev Bytes := List Byte

/-- The bytes of an ASCII text. -/
def ascii (text : List Char) : Bytes := text.map fun c => c.val.toUInt8

/-- `std::to_string` of a natural number. -/
def decimal (n : Nat) : Bytes := ascii (Nat.toDigits 10 n)

/-- `Timestamp`, by its one field. -/
structure Timestamp where
  microsecondsFromEpoch_ : Int
  deriving DecidableEq, Repr

/-- The `assert` that failed, by the function it stands in. -/
inductive Assertion where
  | findCRLFRange
  | retrieveLength
  | retrieveUtilRange
  | ensureWritable
  | prependLength
  | peekIntLength
  | makeSpaceHeadroom
  | makeSpaceReadable
  | setMethodInvalid
  | updateChannelFresh
  | updateChannelKnown
  | updateChannelSame
  | removeChannelNoneEvent
  | removeChannelKnown
  | removeChannelSame
  | removeChannelStatus
  | sendRemaining
  | timerInsert
  | getExpired
  | startInLoop
  | establishConnection
  | retry
  | handleWrite
  | handleError
  | connectorDestructor
  deriving DecidableEq, Repr

inductive Fault where
  /-- A failed `assert`. -/
  | assertion (site : Assertion)
  /-- `std::length_error`, thrown by `std::string(first, last)` with `last < first`. -/
  | lengthError
  /-- `boost::bad_any_cast`. -/
  | badAnyCast
  /-- `CRITICAL(...)`: logged, then `abort()`. -/
  | critical
  /-- A callback bound to an object that has been destroyed. -/
  | dangling
  /-- A null pointer dereferenced. -/
  | nullPointer
  /-- `std::bad_weak_ptr`, thrown by `shared_from_this()` of an object that no `shared_ptr` owns. -/
  | badWeakPtr
  deriving DecidableEq, Repr

/-- `assert(cond)` at a named place. -/
def assert (cond : Prop) [Decidable cond] (site : Assertion) : Except Fault Unit :=
  if cond then .ok () else .error (.assertion site)

theorem assert_pos {cond : Prop} [Decidable cond] (h : cond) (site : Assertion) :
    assert cond site = .ok () := if_pos h

theorem assert_neg {cond : Prop} [Decidable cond] (h : ¬ cond) (site : Assertion) :
    assert cond site = .error (.assertion site) := if_neg h

theorem assert_eq_ok {cond : Prop} [Decidable cond] {site : Assertion} {u : Unit} :
    assert cond site = .ok u ↔ cond := by
  unfold assert
  split <;> simp_all

variable {α β ε : Type}

@[simp] theorem ok_bind (a : α) (f : α → Except ε β) : (Except.ok a >>= f) = f a := rfl

@[simp] theorem error_bind (e : ε) (f : α → Except ε β) :
    (Except.error e >>= f) = Except.error e := rfl

/-- A computation that returns is one whose parts return. -/
theorem bind_eq_ok {x : Except ε α} {f : α → Except ε β} {b : β} :
    (x >>= f) = .ok b ↔ ∃ a, x = .ok a ∧ f a = .ok b := by
  cases x <;> simp

@[simp] theorem pure_eq_ok (a : α) : (pure a : Except ε α) = Except.ok a := rfl

/-- The computation stops at a fault of a kind. -/
def Stops (kind : ε → Prop) (x : Except ε α) : Prop := ∃ e, x = .error e ∧ kind e

variable {kind : ε → Prop}

@[simp] theorem stops_ok (a : α) : ¬ Stops kind (.ok a : Except ε α) := by
  rintro ⟨e, he, -⟩
  cases he

@[simp] theorem stops_error (e : ε) : Stops kind (.error e : Except ε α) ↔ kind e := by
  constructor
  · rintro ⟨e', he, hkind⟩
    cases he
    exact hkind
  · intro hkind
    exact ⟨e, rfl, hkind⟩

/-- A computation stops in its first part, or behind it. -/
theorem stops_bind {x : Except ε α} {f : α → Except ε β} :
    Stops kind (x >>= f) ↔ Stops kind x ∨ ∃ a, x = .ok a ∧ Stops kind (f a) := by
  cases x with
  | error e => simp
  | ok a => simp

theorem stops_assert {kind : Fault → Prop} {cond : Prop} [Decidable cond] {site : Assertion} :
    Stops kind (assert cond site) ↔ ¬ cond ∧ kind (.assertion site) := by
  unfold assert
  split
  · simp_all
  · simp_all

/-! ## Decimal numbers -/

theorem toNat_ascii_digit {d : Char} (h : d.isDigit = true) :
    (d.val.toUInt8).toNat = d.toNat ∧ 48 ≤ d.toNat ∧ d.toNat ≤ 57 := by
  have hd : 48 ≤ d.toNat ∧ d.toNat ≤ 57 := Char.isDigit_iff_toNat.mp h
  refine ⟨?_, hd⟩
  show d.val.toNat % 256 = d.val.toNat
  have : d.val.toNat ≤ 57 := hd.2
  omega

theorem mem_decimal {n : Nat} {c : Byte} (h : c ∈ decimal n) : 48 ≤ c ∧ c ≤ 57 := by
  obtain ⟨d, hd, rfl⟩ := List.mem_map.mp h
  have hdigit := Nat.isDigit_of_mem_toDigits (by decide) (by decide) hd
  obtain ⟨hnat, hlow, hhigh⟩ := toNat_ascii_digit hdigit
  rw [UInt8.le_iff_toNat_le, UInt8.le_iff_toNat_le, hnat]
  exact ⟨hlow, hhigh⟩

/-- Reading digits byte by byte is reading them character by character. -/
theorem foldl_ascii_digits {ds : List Char} (h : ∀ d ∈ ds, d.isDigit = true) (n : Nat) :
    (ascii ds).foldl (fun n c => 10 * n + (c.toNat - 48)) n = Nat.ofDigitChars 10 ds n := by
  induction ds generalizing n with
  | nil => rfl
  | cons d ds ih =>
      obtain ⟨hnat, -, -⟩ := toNat_ascii_digit (h d (by simp))
      rw [Nat.ofDigitChars_cons, ← ih fun c hc => h c (List.mem_cons_of_mem _ hc)]
      simp only [ascii, List.map_cons, List.foldl_cons, hnat]
      rfl

theorem decimal_injective : Function.Injective decimal := by
  intro m n h
  have hdigit : ∀ k, ∀ d ∈ Nat.toDigits 10 k, d.isDigit = true :=
    fun k d hd => Nat.isDigit_of_mem_toDigits (by decide) (by decide) hd
  have hread := congrArg (fun xs => xs.foldl (fun n c => 10 * n + (c.toNat - 48)) 0) h
  simp only [decimal] at hread
  rw [foldl_ascii_digits (hdigit m), foldl_ascii_digits (hdigit n)] at hread
  simpa only [Nat.ofDigitChars_ten_toDigits] using hread

end Ham
