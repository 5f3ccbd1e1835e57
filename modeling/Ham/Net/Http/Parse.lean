import Ham.Net.Http.HttpContext

/-!
# The abstract parser

`parse` says what a call of `parseRequest` computes, on byte lists and without
loop variables: cut a line, dispatch on the parse state, and let `headers`
consume header lines until one has no colon or none is complete.

* `parseLoop_refines` — under any bound above the number of readable bytes the
  code's loop computes what `parse` computes on them;
* `parseRequest_refines` — so does `parseRequest`, and it has no answer exactly
  where `parse` has none, which is in state `kGotAll` only.
-/

namespace Ham.Net

open Ham.Lib

/-- The first CRLF-terminated line and what follows it. -/
abbrev takeLine (xs : Bytes) : Option (Bytes × Bytes) := cutAt 13 10 xs

/-- How the header section ends: more bytes are needed behind an incomplete
line, or the rest is the body. -/
inductive HeaderEnd where
  | more (left : Bytes)
  | body (rest : Bytes)
  deriving DecidableEq

/-- Consume complete header lines. -/
def headers (r : HttpRequest) (xs : Bytes) : HttpRequest × HeaderEnd :=
  match _h : takeLine xs with
  | none => (r, .more xs)
  | some cut =>
      if 58 ∈ cut.1 then headers (r.addHeader cut.1 (cut.1.idxOf 58)) cut.2
      else (r, .body cut.2)
  termination_by xs.length
  decreasing_by
    have hlt : cut.2.length + 2 ≤ xs.length := cutAt_length _h
    omega

/-- A parse result seen from outside: the context, the bytes left in the
buffer, the outcome. -/
structure Parsed where
  context : HttpContext
  left : Bytes
  result : Except Fault Bool

/-- From the header state on. -/
def parseHeaders (r : HttpRequest) (xs : Bytes) : Parsed :=
  match headers r xs with
  | (r, .more left) => ⟨⟨r, .kExpectHeaders⟩, left, .ok true⟩
  | (r, .body rest) => ⟨⟨{ r with body_ := rest }, .kGotAll⟩, [], .ok true⟩

/-- From the request line on. -/
def parseFirst (r : HttpRequest) (xs : Bytes) (receiveTime : Timestamp) : Parsed :=
  match takeLine xs with
  | none => ⟨⟨r, .kExpectRequestLine⟩, xs, .ok false⟩
  | some (line, rest) =>
      let run := HttpContext.parseRequestLine r line
      match run.result with
      | .error f => ⟨⟨run.request, .kExpectRequestLine⟩, xs, .error f⟩
      | .ok false => ⟨⟨run.request, .kExpectRequestLine⟩, xs, .ok false⟩
      | .ok true => parseHeaders { run.request with receiveTime_ := receiveTime } rest

/-- The abstract parser; no answer in state `kGotAll`. -/
def parse (c : HttpContext) (xs : Bytes) (receiveTime : Timestamp) : Option Parsed :=
  match c.parseState_ with
  | .kExpectRequestLine => some (parseFirst c.request_ xs receiveTime)
  | .kExpectHeaders => some (parseHeaders c.request_ xs)
  | .kExpectBody => some ⟨⟨{ c.request_ with body_ := xs }, .kGotAll⟩, [], .ok true⟩
  | .kGotAll => none

def ParseExit.view (e : ParseExit) : Parsed := ⟨e.context, e.inputBuffer.readable, e.result⟩

/-! ## The header section -/

theorem headers_of_free (r : HttpRequest) {xs : Bytes} (h : Free 13 10 xs) :
    headers r xs = (r, .more xs) := by
  have hcut : takeLine xs = none := cutAt_eq_none_iff.mpr h
  rw [headers]
  split
  · rfl
  · rename_i cut hsome
    rw [hcut] at hsome
    cases hsome

theorem headers_of_cut (r : HttpRequest) {xs line rest : Bytes}
    (h : takeLine xs = some (line, rest)) :
    headers r xs =
      if 58 ∈ line then headers (r.addHeader line (line.idxOf 58)) rest
      else (r, .body rest) := by
  rw [headers]
  split
  · rename_i hnone
    rw [h] at hnone
    cases hnone
  · rename_i cut hsome
    rw [h] at hsome
    cases hsome
    rfl

/-- A complete line with a colon is one header. -/
theorem headers_line (r : HttpRequest) {line : Bytes} (hfree : Free 13 10 line)
    (hcolon : 58 ∈ line) (rest : Bytes) :
    headers r (line ++ 13 :: 10 :: rest) =
      headers (r.addHeader line (line.idxOf 58)) rest := by
  rw [headers_of_cut r (cutAt_of_free (by decide) hfree rest), if_pos hcolon]

/-- A complete line without a colon ends the section. -/
theorem headers_end (r : HttpRequest) {line : Bytes} (hfree : Free 13 10 line)
    (hcolon : 58 ∉ line) (rest : Bytes) :
    headers r (line ++ 13 :: 10 :: rest) = (r, .body rest) := by
  rw [headers_of_cut r (cutAt_of_free (by decide) hfree rest), if_neg hcolon]

/-! ## One pass of the loop -/

namespace HttpContext

/-- A found CRLF: the line the code slices out of the vector is the cut line,
and `retrieveUtil(crlf + 2)` leaves the rest. -/
theorem buffer_cut {b : Buffer} {line rest : Bytes} (h : takeLine b.readable = some (line, rest)) :
    b.findCRLF = some (b.peek + line.length) ∧
    slice b.buffer_ b.peek (b.peek + line.length) = line ∧
    ∃ b', b.retrieveUtil (b.peek + line.length + 2) = .ok b' ∧ b'.readable = rest := by
  obtain ⟨hsplit, -⟩ := cutAt_eq_some h
  obtain ⟨front, tail, hbuf, hfront, -⟩ := b.wf.split
  refine ⟨by rw [Buffer.findCRLF_eq]; exact congrArg (Option.map _) h, ?_, ?_⟩
  · have hmid := slice_middle front line (13 :: 10 :: rest ++ tail)
    rw [hbuf, hsplit]
    rw [hfront] at hmid
    simpa [RawBuffer.peek] using hmid
  · obtain ⟨b', hret, hread⟩ := b.retrieveUtil_spec
      (show line.length + 2 ≤ b.readable.length by rw [hsplit]; simp)
    refine ⟨b', by rw [Nat.add_assoc]; exact hret, ?_⟩
    rw [hread, hsplit]
    simp [List.drop_append]

theorem buffer_uncut {b : Buffer} (h : takeLine b.readable = none) : b.findCRLF = none := by
  rw [Buffer.findCRLF_eq]
  exact congrArg (Option.map _) h

variable (t : Timestamp)

/-- From the body state two more evaluations of the condition end the loop. -/
theorem parseLoop_body (n : Nat) (r : HttpRequest) (b : Buffer) :
    (parseLoop t (n + 2) ⟨⟨r, .kExpectBody⟩, b, true, true⟩).map ParseExit.view =
      some ⟨⟨{ r with body_ := b.readable }, .kGotAll⟩, [], .ok true⟩ := by
  simp [parseLoop, parseIteration, Buffer.retrieveAllAsString, ParseExit.view]

/-- From the header state the loop computes `parseHeaders`, given one pass for
each byte and three more. -/
theorem parseLoop_headers (n : Nat) (r : HttpRequest) (b : Buffer)
    (hn : b.readable.length + 3 ≤ n) :
    (parseLoop t n ⟨⟨r, .kExpectHeaders⟩, b, true, true⟩).map ParseExit.view =
      some (parseHeaders r b.readable) := by
  induction n generalizing r b with
  | zero => omega
  | succ n ih =>
      cases hcut : takeLine b.readable with
      | none =>
          obtain ⟨m, rfl⟩ : ∃ m, n = m + 1 := ⟨n - 1, by omega⟩
          rw [parseHeaders, headers_of_free r (cutAt_eq_none_iff.mp hcut)]
          simp [parseLoop, parseIteration, buffer_uncut hcut, ParseExit.view]
      | some cut =>
          obtain ⟨line, rest⟩ := cut
          obtain ⟨hfind, hline, b', hret, hread⟩ := buffer_cut hcut
          have hshort := cutAt_length hcut
          by_cases hcolon : 58 ∈ line
          · -- a header line: the induction hypothesis takes over behind it
            have hpos : line.idxOf 58 ≠ line.length :=
              Nat.ne_of_lt (List.idxOf_lt_length_of_mem hcolon)
            rw [parseHeaders, headers_of_cut r hcut, if_pos hcolon, ← parseHeaders, ← hread]
            rw [← ih (r.addHeader line (line.idxOf 58)) b' (by rw [hread]; omega)]
            simp [parseLoop, parseIteration, hfind, hline, hpos, hret]
          · -- no colon: the rest is the body
            have hpos : line.idxOf 58 = line.length := List.idxOf_eq_length hcolon
            obtain ⟨m, rfl⟩ : ∃ m, n = m + 2 := ⟨n - 2, by omega⟩
            rw [parseHeaders, headers_of_cut r hcut, if_neg hcolon]
            have hbody := parseLoop_body t m r b'
            rw [hread] at hbody
            rw [← hbody]
            simp [parseLoop, parseIteration, hfind, hline, hpos, hret]

/-- The loop computes `parse` in every state but `kGotAll`. -/
theorem parseLoop_refines (c : HttpContext) (b : Buffer) (n : Nat)
    (hn : b.readable.length + 3 ≤ n) (hstate : c.parseState_ ≠ .kGotAll) :
    (parseLoop t n ⟨c, b, true, true⟩).map ParseExit.view = parse c b.readable t := by
  obtain ⟨r, state⟩ := c
  cases state with
  | kGotAll => exact absurd rfl hstate
  | kExpectBody =>
      obtain ⟨m, rfl⟩ : ∃ m, n = m + 2 := ⟨n - 2, by omega⟩
      exact parseLoop_body t m r b
  | kExpectHeaders => exact parseLoop_headers t n r b hn
  | kExpectRequestLine =>
      obtain ⟨m, rfl⟩ : ∃ m, n = m + 2 := ⟨n - 2, by omega⟩
      show _ = some (parseFirst r b.readable t)
      unfold parseFirst
      cases hcut : takeLine b.readable with
      | none => simp [parseLoop, parseIteration, buffer_uncut hcut, ParseExit.view]
      | some cut =>
          obtain ⟨line, rest⟩ := cut
          obtain ⟨hfind, hline, b', hret, hread⟩ := buffer_cut hcut
          have hshort := cutAt_length hcut
          rcases hres : (parseRequestLine r line).result with f | ok
          · simp [parseLoop, parseIteration, hfind, hline, hres, ParseExit.view]
          · cases ok with
            | false => simp [parseLoop, parseIteration, hfind, hline, hres, ParseExit.view]
            | true =>
                simp only [hres]
                rw [← hread, ← parseLoop_headers t (m + 1) _ b' (by rw [hread]; omega)]
                simp [parseLoop, parseIteration, hfind, hline, hres, hret]

/-! ## Termination -/

/-- In state `kGotAll` no branch clears `hasMore`: the loop never ends. -/
theorem parseLoop_gotAll (n : Nat) (r : HttpRequest) (b : Buffer) (ok : Bool) :
    parseLoop t n ⟨⟨r, .kGotAll⟩, b, true, ok⟩ = none := by
  induction n with
  | zero => rfl
  | succ n ih =>
      rw [← ih]
      simp [parseLoop, parseIteration]

/-- On every buffer the code computes the abstract parse of the readable
bytes. -/
theorem parseRequest_refines (c : HttpContext) (b : Buffer) :
    (parseRequest c b t).map ParseExit.view = parse c b.readable t := by
  by_cases hstate : c.parseState_ = .kGotAll
  · obtain ⟨r, state⟩ := c
    subst hstate
    rw [parseRequest, parseLoop_gotAll]
    rfl
  · exact parseLoop_refines t c b _ (by simp) hstate

/-- An answer of the abstract parser is an answer of the code, in a buffer
that holds the bytes left. -/
theorem parseRequest_of_parse {c : HttpContext} {b : Buffer} {p : Parsed}
    (h : parse c b.readable t = some p) :
    ∃ b', parseRequest c b t = some ⟨p.context, b', p.result⟩ ∧ b'.readable = p.left := by
  have href := parseRequest_refines t c b
  rw [h, Option.map_eq_some_iff] at href
  obtain ⟨e, he, hview⟩ := href
  subst hview
  exact ⟨e.inputBuffer, he, rfl⟩

end HttpContext

end Ham.Net
