import Ham.Lib.Lines
import Ham.Net.Http.HttpResponse

/-!
# Framing of keep-alive responses

A client that shares one stream of responses with nobody: it reads up to the
first empty line, takes the header lines apart at the first `": "`, and lets
`Content-Length` say where the body ends. `responses_framed` says that on the
text of any responses with harmless header fields it finds every body and
every header, and the end of one response where the next begins, whatever the
bodies hold.
-/

namespace Ham.Net

open Ham.Lib HttpResponse

/-! ## The client -/

/-- A decimal number. -/
def readDecimal (xs : Bytes) : Option Nat :=
  if xs ≠ [] ∧ ∀ c ∈ xs, 48 ≤ c ∧ c ≤ 57 then
    some (xs.foldl (fun n c => 10 * n + (c.toNat - 48)) 0)
  else none

/-- Header lines, each cut at its first `": "`. -/
def readHeaders (headerLines : List Bytes) : Option HeaderMap :=
  headerLines.foldlM (fun m line => (cutAt 58 32 line).map fun cut => m.insert cut.1 cut.2) ∅

/-- One response off the front of the stream: its headers, its body, and the
rest of the stream. -/
def readResponse (xs : Bytes) : Option ((HeaderMap × Bytes) × Bytes) := do
  let stop := search [13, 10, 13, 10] xs
  let headers ← readHeaders (lines 13 10 (xs.take stop)).tail
  let length ← headers[contentLengthField]? >>= readDecimal
  let rest := xs.drop (stop + 4)
  if stop + 4 + length ≤ xs.length then some ((headers, rest.take length), rest.drop length)
  else none

theorem readResponse_shorter {xs rest : Bytes} {response : HeaderMap × Bytes}
    (h : readResponse xs = some (response, rest)) : rest.length < xs.length := by
  simp only [readResponse, Option.bind_eq_bind, Option.bind_eq_some_iff] at h
  obtain ⟨headers, -, length, -, h⟩ := h
  split at h
  · cases h
    rw [List.length_drop, List.length_drop]
    omega
  · cases h

/-- All responses of a stream; `none` if some bytes are left over. -/
def readResponses (xs : Bytes) : Option (List (HeaderMap × Bytes)) :=
  if xs = [] then some []
  else
    match _h : readResponse xs with
    | none => none
    | some (response, rest) => (readResponses rest).map (response :: ·)
  termination_by xs.length
  decreasing_by exact readResponse_shorter _h

/-! ## Decimal numbers -/

theorem readDecimal_decimal (n : Nat) : readDecimal (decimal n) = some n := by
  have hne : decimal n ≠ [] := by
    simp [decimal, ascii, Nat.toDigits_ne_nil]
  rw [readDecimal, if_pos ⟨hne, fun c hc => mem_decimal hc⟩, decimal, foldl_ascii_digits]
  · rw [Nat.ofDigitChars_ten_toDigits]
  · intro d hd
    exact Nat.isDigit_of_mem_toDigits (by decide) (by decide) hd

theorem length_decimal {n k : Nat} (hk : 0 < k) (h : n < 10 ^ k) : (decimal n).length ≤ k := by
  rw [decimal, ascii, List.length_map]
  exact (Nat.length_toDigits_le_iff (by decide) hk).mpr h

/-! ## The text of a response -/

/-- A response that can share a stream with others. -/
structure KeepAliveResponse extends HttpResponse where
  keepAlive : closeConnection_ = false
  message_line : 13 ∉ stateMessage_ ∧ 10 ∉ stateMessage_
  fields : ∀ h ∈ headers_.toList, 13 ∉ h.1 ∧ 10 ∉ h.1 ∧ 58 ∉ h.1
  values : ∀ h ∈ headers_.toList, 13 ∉ h.2 ∧ 10 ∉ h.2
  own_fields : ∀ h ∈ headers_.toList, h.1 ≠ contentLengthField ∧ h.1 ≠ connectionField
  body_length : body_.length < 10 ^ 13

namespace KeepAliveResponse

variable (r : KeepAliveResponse)

/-- The headers in the order in which they are sent. -/
def sent : List (Bytes × Bytes) :=
  (contentLengthField, decimal r.body_.length) ::
    (connectionField, ascii ['K', 'e', 'e', 'p', '-', 'A', 'l', 'i', 'v', 'e']) ::
    r.headers_.toList

/-- The headers a client is to find: the user's, and the two that
`appendToBuffer` adds. -/
def allHeaders : HeaderMap :=
  (r.headers_.insert contentLengthField (decimal r.body_.length)).insert connectionField
    (ascii ['K', 'e', 'e', 'p', '-', 'A', 'l', 'i', 'v', 'e'])

/-- The status line without its CRLF. -/
def statusLine : Bytes := r.statusPieces.dropLast.flatten

/-- One header line without its CRLF. -/
def headerLine (h : Bytes × Bytes) : Bytes := h.1 ++ 58 :: 32 :: h.2

/-- Thirteen digits just fit into the buffer of `snprintf`. -/
theorem contentLength_eq :
    r.contentLength = headerLine (contentLengthField, decimal r.body_.length) ++ crlf := by
  have hshort := length_decimal (by decide) r.body_length
  have htext : ascii ['C', 'o', 'n', 't', 'e', 'n', 't', '-', 'L', 'e', 'n', 'g', 't', 'h',
      ':', ' '] = contentLengthField ++ [58, 32] := rfl
  have hcrlf : crlf.length = 2 := rfl
  have hfield : contentLengthField.length = 14 := rfl
  rw [HttpResponse.contentLength, htext, List.take_of_length_le]
  · simp [headerLine]
  · simp only [List.length_append, List.length_cons, List.length_nil, hcrlf, hfield]
    omega

theorem text_lines :
    r.text = (r.statusLine :: r.sent.map headerLine).flatMap (· ++ crlf) ++ crlf ++ r.body_ := by
  have hstatus : r.statusPieces.flatten = r.statusLine ++ crlf := by
    simp [statusLine, HttpResponse.statusPieces]
  have hown : r.connectionPieces.flatten =
      (headerLine (contentLengthField, decimal r.body_.length) ++ crlf) ++
        (headerLine (connectionField,
          ascii ['K', 'e', 'e', 'p', '-', 'A', 'l', 'i', 'v', 'e']) ++ crlf) := by
    rw [HttpResponse.connectionPieces, r.keepAlive, ← r.contentLength_eq]
    simp
    rfl
  have huser : (r.headers_.toList.flatMap headerPieces).flatten =
      (r.headers_.toList.map headerLine).flatMap (· ++ crlf) := by
    induction r.headers_.toList with
    | nil => rfl
    | cons h hs ih =>
        rw [List.flatMap_cons, List.flatten_append, ih, List.map_cons, List.flatMap_cons]
        congr 1
        simp [headerPieces, headerLine]
        rfl
  rw [HttpResponse.text, HttpResponse.pieces]
  simp only [List.flatten_append, hstatus, hown, huser, sent, List.map_cons, List.flatMap_cons,
    List.flatten_cons, List.flatten_nil, List.append_nil, List.append_assoc]

theorem text_eq :
    r.text = [13, 10].intercalate (r.statusLine :: r.sent.map headerLine) ++
      13 :: 10 :: 13 :: 10 :: r.body_ := by
  have hcrlf : crlf = [13, 10] := rfl
  rw [r.text_lines, hcrlf, ← intercalate_append]
  simp

/-! ## Reading it back -/

theorem sent_spec {h : Bytes × Bytes} (hmem : h ∈ r.sent) : 13 ∉ h.1 ∧ 58 ∉ h.1 ∧ 13 ∉ h.2 := by
  rcases List.mem_cons.mp hmem with rfl | hmem
  · have hfield : 13 ∉ contentLengthField ∧ 58 ∉ contentLengthField := by decide
    refine ⟨hfield.1, hfield.2, fun hin => ?_⟩
    exact absurd (mem_decimal hin).1 (by decide)
  · rcases List.mem_cons.mp hmem with rfl | hmem
    · decide
    · exact ⟨(r.fields h hmem).1, (r.fields h hmem).2.2, (r.values h hmem).1⟩

theorem statusLine_spec : r.statusLine ≠ [] ∧ 13 ∉ r.statusLine := by
  have hcode : 13 ∉ decimal r.stateCode_.value :=
    fun hin => absurd (mem_decimal hin).1 (by decide)
  have hversion : ∀ x : Bytes, x = ascii ['0', ' '] ∨ x = ascii ['1', ' '] → 13 ∉ x := by
    rintro x (rfl | rfl)
    · decide
    · decide
  have hfirst : 13 ∉ ascii ['H', 't', 't', 'p', '/', '1', '.'] := by decide
  have hsecond : 13 ∉ if r.version_ = .kHttp10 then ascii ['0', ' '] else ascii ['1', ' '] := by
    apply hversion
    split_ifs
    · exact .inl rfl
    · exact .inr rfl
  constructor
  · simp [statusLine, HttpResponse.statusPieces, ascii]
  · simp only [statusLine, HttpResponse.statusPieces, List.dropLast_cons_cons,
      List.dropLast_singleton, List.flatten_cons, List.flatten_nil, List.append_nil,
      List.mem_append, not_or]
    exact ⟨hfirst, hsecond, hcode, r.message_line.1⟩

theorem line_spec {line : Bytes} (h : line ∈ r.statusLine :: r.sent.map headerLine) :
    line ≠ [] ∧ 13 ∉ line := by
  rcases List.mem_cons.mp h with rfl | h
  · exact r.statusLine_spec
  · obtain ⟨header, hmem, rfl⟩ := List.mem_map.mp h
    obtain ⟨hfield, -, hvalue⟩ := r.sent_spec hmem
    refine ⟨by simp [headerLine], ?_⟩
    simp [headerLine, hfield, hvalue]

/-- Header lines with a field that holds no colon, read one by one. -/
theorem foldlM_headerLine {hs : List (Bytes × Bytes)} (h : ∀ header ∈ hs, 58 ∉ header.1)
    (m : HeaderMap) :
    (hs.map headerLine).foldlM
        (fun m line => (cutAt 58 32 line).map fun cut => m.insert cut.1 cut.2) m =
      some (m.insertMany hs) := by
  induction hs generalizing m with
  | nil => simp
  | cons header hs ih =>
      have hcut : cutAt 58 32 (headerLine header) = some header :=
        cutAt_of_free (by decide) (free_of_notMem (h header (by simp))) header.2
      rw [List.map_cons, List.foldlM_cons, hcut, Std.ExtTreeMap.insertMany_cons]
      exact ih (fun x hx => h x (List.mem_cons_of_mem _ hx)) (m.insert header.1 header.2)

/-- The user's headers touch neither of the two the response adds. -/
theorem insertMany_sent : (∅ : HeaderMap).insertMany r.sent = r.allHeaders := by
  apply Std.ExtTreeMap.ext_getElem?
  intro k
  rw [sent, Std.ExtTreeMap.insertMany_cons, Std.ExtTreeMap.insertMany_cons]
  cases hk : r.headers_[k]? with
  | some v =>
      have hmem := Std.ExtTreeMap.mem_toList_iff_getElem?_eq_some.mpr hk
      obtain ⟨hlength, hconnection⟩ := r.own_fields _ hmem
      rw [Std.ExtTreeMap.getElem?_insertMany_list_of_mem Std.ReflCmp.compare_self
        Std.ExtTreeMap.distinct_keys_toList hmem, allHeaders, Std.ExtTreeMap.getElem?_insert,
        Std.ExtTreeMap.getElem?_insert, if_neg, if_neg, hk]
      · simpa [Std.LawfulEqCmp.compare_eq_iff_eq] using Ne.symm hlength
      · simpa [Std.LawfulEqCmp.compare_eq_iff_eq] using Ne.symm hconnection
  | none =>
      rw [Std.ExtTreeMap.getElem?_insertMany_list_of_contains_eq_false]
      · simp [allHeaders, Std.ExtTreeMap.getElem?_insert, hk]
      · simpa using hk

theorem readHeaders_sent : readHeaders (r.sent.map headerLine) = some r.allHeaders := by
  rw [readHeaders, foldlM_headerLine fun header hmem => (r.sent_spec hmem).2.1, insertMany_sent]

/-- One response off the front of a stream. -/
theorem readResponse_text (rest : Bytes) :
    readResponse (r.text ++ rest) = some ((r.allHeaders, r.body_), rest) := by
  have hspec : ∀ line ∈ r.statusLine :: r.sent.map headerLine, line ≠ [] ∧ 13 ∉ line :=
    fun _ hline => r.line_spec hline
  set head := [(13 : Byte), 10].intercalate (r.statusLine :: r.sent.map headerLine) with hhead
  have htext : r.text ++ rest = head ++ 13 :: 10 :: 13 :: 10 :: (r.body_ ++ rest) := by
    rw [r.text_eq]
    simp [hhead]
  have hstop : search [13, 10, 13, 10] (r.text ++ rest) = head.length := by
    rw [htext]
    exact search_blank (by decide) hspec (r.body_ ++ rest)
  have hlines : lines 13 10 head = r.statusLine :: r.sent.map headerLine :=
    lines_intercalate (by decide) fun line hline => (hspec line hline).2
  have htake : (r.text ++ rest).take head.length = head := by
    rw [htext, List.take_left]
  have hdrop : (r.text ++ rest).drop (head.length + 4) = r.body_ ++ rest := by
    rw [htext, List.drop_append]
    simp
  have hlength : r.allHeaders[contentLengthField]? = some (decimal r.body_.length) := by
    have hne : connectionField ≠ contentLengthField := by decide
    rw [allHeaders, Std.ExtTreeMap.getElem?_insert, if_neg,
      Std.ExtTreeMap.getElem?_insert_self]
    simpa [Std.LawfulEqCmp.compare_eq_iff_eq] using hne
  have hlong : head.length + 4 + r.body_.length ≤ (r.text ++ rest).length := by
    rw [htext]
    simp only [List.length_append, List.length_cons]
    omega
  simp only [readResponse, hstop, htake, hlines, List.tail_cons, r.readHeaders_sent, hdrop, hlength,
    Option.bind_eq_bind, Option.bind_some, readDecimal_decimal, if_pos hlong, List.take_left,
    List.drop_left]

end KeepAliveResponse

open KeepAliveResponse

theorem readResponses_text (rs : List KeepAliveResponse) :
    readResponses (rs.flatMap fun r => r.text) =
      some (rs.map fun r => (r.allHeaders, r.body_)) := by
  induction rs with
  | nil =>
      rw [readResponses]
      rfl
  | cons r rs ih =>
      have hone := r.readResponse_text (rs.flatMap fun r => r.text)
      have hne : r.text ++ rs.flatMap (fun r => r.text) ≠ [] := by
        rw [r.text_eq]
        simp
      rw [List.flatMap_cons, readResponses, if_neg hne]
      split
      · rename_i hnone
        rw [hone] at hnone
        cases hnone
      · rename_i response rest hsome
        rw [hone] at hsome
        cases hsome
        rw [ih]
        rfl

/-- A response whose body looks like the end of a header section. -/
def blankBody : KeepAliveResponse where
  stateCode_ := .k200_Ok
  body_ := [13, 10, 13, 10]
  closeConnection_ := false
  keepAlive := rfl
  message_line := by simp
  fields := by simp
  values := by simp
  own_fields := by simp
  body_length := by simp

example : (readResponses (blankBody.text ++ blankBody.text)).map (·.map Prod.snd) =
    some [[13, 10, 13, 10], [13, 10, 13, 10]] := by
  have htwo := readResponses_text [blankBody, blankBody]
  simp only [List.flatMap_cons, List.flatMap_nil, List.append_nil] at htwo
  rw [htwo]
  rfl

/-- Responses appended to one buffer, behind whatever it holds: a client that
goes by `Content-Length` finds the headers and the bodies of all of them, and
nothing else. -/
theorem responses_framed (rs : List KeepAliveResponse) (b : Buffer) :
    ∃ stream, (rs.foldl (fun b r => r.appendToBuffer b) b).readable = b.readable ++ stream ∧
      readResponses stream = some (rs.map fun r => (r.allHeaders, r.body_)) := by
  refine ⟨rs.flatMap fun r => r.text, ?_, readResponses_text rs⟩
  induction rs generalizing b with
  | nil => simp
  | cons r rs ih =>
      rw [List.foldl_cons, ih, readable_appendToBuffer, List.flatMap_cons, List.append_assoc]

end Ham.Net
