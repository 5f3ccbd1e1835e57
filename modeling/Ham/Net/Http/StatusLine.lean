import Ham.Net.Http.HttpResponse
import Ham.Net.Http.Parse

/-!
# The status line of a response

A client splits the status line at its first two spaces into the version, the
code and the message. `appendToBuffer` writes `Http/1.` and puts the message
right behind the code, so that no response gives back its code and its message
(`statusLine_undecodable`): without a space in the message there is no second
space, and with one the split falls into the message.
-/

namespace Ham.Net

open Ham.Lib

/-- What stands on either side of the first space. -/
def splitSpace (xs : Bytes) : Option (Bytes × Bytes) :=
  if 32 ∈ xs then some (xs.takeWhile (· ≠ 32), (xs.dropWhile (· ≠ 32)).tail) else none

/-- Version, code and message of a status line. -/
def readStatusLine (line : Bytes) : Option (Bytes × Bytes × Bytes) := do
  let (version, rest) ← splitSpace line
  let (code, message) ← splitSpace rest
  return (version, code, message)

theorem splitSpace_append {front : Bytes} (h : 32 ∉ front) (rest : Bytes) :
    splitSpace (front ++ 32 :: rest) = some (front, rest) := by
  rw [splitSpace, if_pos (by simp), takeWhile_ne h, dropWhile_ne h, List.tail_cons]

/-- A first part without a space is the version. -/
theorem readStatusLine_append {version : Bytes} (h : 32 ∉ version) (rest : Bytes) :
    readStatusLine (version ++ 32 :: rest) =
      (splitSpace rest).map fun cut => (version, cut.1, cut.2) := by
  rw [readStatusLine, splitSpace_append h]
  cases hcut : splitSpace rest <;> simp [hcut]

/-- Digits are no control characters and no spaces. -/
theorem notMem_decimal {c : Byte} (hc : c < 48) (n : Nat) : c ∉ decimal n :=
  fun h => absurd (mem_decimal h).1 (UInt8.not_le.mpr hc)

namespace HttpResponse

variable (r : HttpResponse)

/-- The code and the message come back from the line. -/
def Recovers (line : Bytes) : Prop :=
  ∃ version, readStatusLine line =
    some (version, decimal r.stateCode_.value, r.stateMessage_)

/-- `HTTP/1.` digit SP code SP message. -/
def IsStatusLine (line : Bytes) : Prop :=
  ∃ d : Byte, (48 ≤ d ∧ d ≤ 57) ∧
    line = ascii ['H', 'T', 'T', 'P', '/', '1', '.'] ++
      d :: 32 :: (decimal r.stateCode_.value ++ 32 :: r.stateMessage_)

/-- The line that `appendToBuffer` writes. -/
def firstLine : Bytes :=
  ascii ['H', 't', 't', 'p', '/', '1', '.'] ++
    (if r.version_ = .kHttp10 then 48 else 49) :: 32 ::
      (decimal r.stateCode_.value ++ r.stateMessage_)

variable {r}

/-- A line of the right form is read back. -/
theorem IsStatusLine.recovers {line : Bytes} (h : r.IsStatusLine line) : r.Recovers line := by
  obtain ⟨d, hd, rfl⟩ := h
  have hversion : 32 ∉ ascii ['H', 'T', 'T', 'P', '/', '1', '.'] ++ [d] := by
    simp only [List.mem_append, List.mem_singleton, not_or]
    refine ⟨by decide, ?_⟩
    rintro rfl
    exact absurd hd.1 (by decide)
  have hline : ascii ['H', 'T', 'T', 'P', '/', '1', '.'] ++
      d :: 32 :: (decimal r.stateCode_.value ++ 32 :: r.stateMessage_) =
      (ascii ['H', 'T', 'T', 'P', '/', '1', '.'] ++ [d]) ++
        32 :: (decimal r.stateCode_.value ++ 32 :: r.stateMessage_) := by simp
  refine ⟨ascii ['H', 'T', 'T', 'P', '/', '1', '.'] ++ [d], ?_⟩
  rw [hline, readStatusLine_append hversion, splitSpace_append (notMem_decimal (by decide) _)]
  rfl

/-- The first line of the text, and where it ends. -/
theorem takeLine_text (h : 13 ∉ r.stateMessage_) :
    ∃ rest, takeLine (r.appendToBuffer Buffer.new).readable = some (r.firstLine, rest) := by
  have hcode : 13 ∉ decimal r.stateCode_.value := notMem_decimal (by decide) _
  have hfront : 13 ∉ ascii ['H', 't', 't', 'p', '/', '1', '.'] := by decide
  have hfree : 13 ∉ r.firstLine := by
    unfold firstLine
    split <;> simp [hfront, hcode, h]
  have htext : ∃ rest, r.text = r.firstLine ++ 13 :: 10 :: rest := by
    refine ⟨(r.connectionPieces ++ r.headers_.toList.flatMap headerPieces ++
      [crlf, r.body_]).flatten, ?_⟩
    simp only [text, pieces, statusPieces, firstLine, List.flatten_append, List.flatten_cons,
      List.cons_append, List.nil_append, List.append_assoc]
    split <;> rfl
  obtain ⟨rest, htext⟩ := htext
  refine ⟨rest, ?_⟩
  rw [readable_appendToBuffer, Buffer.readable_new, List.nil_append, htext]
  exact cutAt_of_free (by decide) (free_of_notMem hfree) rest

/-- The message is not what is behind the second space. -/
theorem firstLine_not_recovers : ¬ r.Recovers r.firstLine := by
  rintro ⟨version, hread⟩
  have hversion : 32 ∉ ascii ['H', 't', 't', 'p', '/', '1', '.'] ++
      [if r.version_ = .kHttp10 then 48 else 49] := by
    split <;> decide
  have hcode : 32 ∉ decimal r.stateCode_.value := notMem_decimal (by decide) _
  have hline : r.firstLine = (ascii ['H', 't', 't', 'p', '/', '1', '.'] ++
      [if r.version_ = .kHttp10 then 48 else 49]) ++
        32 :: (decimal r.stateCode_.value ++ r.stateMessage_) := by simp [firstLine]
  rw [hline, readStatusLine_append hversion, Option.map_eq_some_iff] at hread
  obtain ⟨⟨code, message⟩, hsecond, hparts⟩ := hread
  obtain ⟨-, -, rfl⟩ : _ ∧ code = _ ∧ message = r.stateMessage_ := by simpa using hparts
  by_cases hspace : 32 ∈ r.stateMessage_
  · -- the second space is in the message, which has lost its front
    obtain ⟨hsplit, hfront⟩ := eq_take_idxOf_append hspace
    have hnot : 32 ∉ decimal r.stateCode_.value ++
        r.stateMessage_.take (r.stateMessage_.idxOf 32) := by simp [hcode, hfront]
    have hfirst := splitSpace_append hnot (r.stateMessage_.drop (r.stateMessage_.idxOf 32 + 1))
    rw [List.append_assoc, ← hsplit, hsecond] at hfirst
    have hmessage := congrArg (fun cut => cut.2.length) (Option.some.inj hfirst)
    simp only [List.length_drop] at hmessage
    have hpos := List.length_pos_of_mem hspace
    omega
  · -- there is no second space
    rw [splitSpace, if_neg (by simp [hcode, hspace])] at hsecond
    cases hsecond

/-- Whatever the code and the message, as long as the message is one line, the
first line that `appendToBuffer` writes is not of the form of a status line,
and its first two spaces do not give back the code and the message. -/
theorem statusLine_undecodable (r : HttpResponse) (h : 13 ∉ r.stateMessage_) :
    ∃ rest, takeLine (r.appendToBuffer Buffer.new).readable = some (r.firstLine, rest) ∧
      ¬ r.IsStatusLine r.firstLine ∧ ¬ r.Recovers r.firstLine := by
  obtain ⟨rest, hline⟩ := takeLine_text h
  exact ⟨rest, hline, fun hform => firstLine_not_recovers hform.recovers, firstLine_not_recovers⟩

/-- A response that begins like most others. -/
def okResponse : HttpResponse :=
  { stateCode_ := .k200_Ok, stateMessage_ := ascii ['O', 'K'], closeConnection_ := true }

theorem statusLine_undecodable_ok :
    ∃ rest, takeLine (okResponse.appendToBuffer Buffer.new).readable =
        some (okResponse.firstLine, rest) ∧
      ¬ okResponse.IsStatusLine okResponse.firstLine ∧
      ¬ okResponse.Recovers okResponse.firstLine :=
  statusLine_undecodable okResponse (by decide)

/-- `Http/1.1 200OK` has one space. -/
theorem okResponse_line :
    ∃ rest, takeLine (okResponse.appendToBuffer Buffer.new).readable = some
        (ascii ['H', 't', 't', 'p', '/', '1', '.', '1', ' ', '2', '0', '0', 'O', 'K'], rest) ∧
      readStatusLine
        (ascii ['H', 't', 't', 'p', '/', '1', '.', '1', ' ', '2', '0', '0', 'O', 'K']) = none ∧
      ¬ okResponse.IsStatusLine
        (ascii ['H', 't', 't', 'p', '/', '1', '.', '1', ' ', '2', '0', '0', 'O', 'K']) ∧
      ¬ okResponse.Recovers
        (ascii ['H', 't', 't', 'p', '/', '1', '.', '1', ' ', '2', '0', '0', 'O', 'K']) := by
  have hline : okResponse.firstLine =
      ascii ['H', 't', 't', 'p', '/', '1', '.', '1', ' ', '2', '0', '0', 'O', 'K'] := by decide
  obtain ⟨rest, hcut⟩ := takeLine_text (r := okResponse) (by decide)
  rw [hline] at hcut
  have hnot : ¬ okResponse.Recovers _ := firstLine_not_recovers
  rw [hline] at hnot
  exact ⟨rest, hcut, by decide, fun hform => hnot hform.recovers, hnot⟩

end HttpResponse

end Ham.Net
