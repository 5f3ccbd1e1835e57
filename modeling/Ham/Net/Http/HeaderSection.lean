import Ham.Net.Http.FailedParse

/-!
# Where the header section ends

The headers end at the empty line, and what follows is the body. The code looks
for a colon instead: a line without one "is the empty line". `headerSection`
cuts the section by the empty line; the code ends it there if and only if every
line in front of it has a colon (`headers_end_at_empty_line`). Any other line
without a colon starts the body, the rest of the headers in it.
-/

namespace Ham.Net

open Ham.Lib HttpContext

/-- The complete lines in front of the first empty line, and what is behind it;
or all complete lines and the incomplete one. -/
def headerSection (xs : Bytes) : List Bytes × HeaderEnd :=
  match _h : takeLine xs with
  | none => ([], .more xs)
  | some cut =>
      if cut.1 = [] then ([], .body cut.2)
      else (cut.1 :: (headerSection cut.2).1, (headerSection cut.2).2)
  termination_by xs.length
  decreasing_by all_goals
    have hlt : cut.2.length + 2 ≤ xs.length := cutAt_length _h
    omega

/-- The name of a header line. -/
def headerName (line : Bytes) : Bytes := line.takeWhile (· ≠ 58)

/-- Its value. -/
def headerValue (line : Bytes) : Bytes := trim isspace (line.dropWhile (· ≠ 58)).tail

/-- The value of the last header line with a name. -/
def lastHeader (lines : List Bytes) (name : Bytes) : Option Bytes :=
  (lines.reverse.find? fun line => 58 ∈ line ∧ headerName line = name).map headerValue

/-- The context and the bytes left are those of a header section that ends at
its empty line: the section is over if there is one, the body is what is behind
it, and every header line in front of it is in the map. -/
structure EndsAtEmptyLine (r : HttpRequest) (xs : Bytes) (c : HttpContext) (left : Bytes) :
    Prop where
  state : c.parseState_ =
    match (headerSection xs).2 with
    | .body _ => .kGotAll
    | .more _ => .kExpectHeaders
  body : c.request_.body_ =
    match (headerSection xs).2 with
    | .body rest => rest
    | .more _ => r.body_
  left : left =
    match (headerSection xs).2 with
    | .body _ => []
    | .more rest => rest
  headers : ∀ name, c.request_.headers_[name]? =
    (lastHeader (headerSection xs).1 name).or r.headers_[name]?

/-! ## The section -/

theorem headerSection_uncut {xs : Bytes} (h : takeLine xs = none) :
    headerSection xs = ([], .more xs) := by
  rw [headerSection]
  split
  · rfl
  · rename_i cut hsome
    rw [h] at hsome
    cases hsome

theorem headerSection_cut {xs line rest : Bytes} (h : takeLine xs = some (line, rest)) :
    headerSection xs =
      if line = [] then ([], .body rest)
      else (line :: (headerSection rest).1, (headerSection rest).2) := by
  rw [headerSection]
  split
  · rename_i hnone
    rw [h] at hnone
    cases hnone
  · rename_i cut hsome
    rw [h] at hsome
    cases hsome
    rfl

/-- The body is behind at least one line end. -/
theorem headerSection_length {xs body : Bytes} (h : (headerSection xs).2 = .body body) :
    body.length + 2 ≤ xs.length := by
  induction xs using headerSection.induct with
  | case1 xs hcut =>
      rw [headerSection_uncut hcut] at h
      cases h
  | case2 xs cut hcut hempty =>
      rw [headerSection_cut hcut, if_pos hempty] at h
      cases h
      exact cutAt_length hcut
  | case3 xs cut hcut hline ih =>
      rw [headerSection_cut hcut, if_neg hline] at h
      have hrest := ih h
      have hshort : cut.2.length + 2 ≤ xs.length := cutAt_length hcut
      omega

/-! ## Header lines -/

/-- `addHeader` on a line with a colon. -/
theorem addHeader_colon (r : HttpRequest) {line : Bytes} (h : 58 ∈ line) :
    r.addHeader line (line.idxOf 58) =
      { r with headers_ := r.headers_.insert (headerName line) (headerValue line) } := by
  obtain ⟨hsplit, hname⟩ := eq_take_idxOf_append h
  generalize line.take (line.idxOf 58) = name at hsplit hname
  generalize line.drop (line.idxOf 58 + 1) = value at hsplit
  subst hsplit
  have hrest : slice (name ++ 58 :: value) (name.length + 1) (name ++ 58 :: value).length =
      value := by
    have hmid := slice_middle (name ++ [58]) value []
    simpa [Nat.add_assoc, Nat.add_comm 1] using hmid
  rw [idxOf_append_cons hname, HttpRequest.addHeader, hrest, slice_front, headerName, headerValue,
    takeWhile_ne hname, dropWhile_ne hname, List.tail_cons]

/-- The request with the headers of some lines. -/
def storeLines (r : HttpRequest) (lines : List Bytes) : HttpRequest :=
  lines.foldl (fun r line => r.addHeader line (line.idxOf 58)) r

theorem storeLines_body (r : HttpRequest) (lines : List Bytes) :
    (storeLines r lines).body_ = r.body_ := by
  induction lines generalizing r with
  | nil => rfl
  | cons line lines ih => exact ih (r.addHeader line (line.idxOf 58))

/-- Repeated names: the last line wins. -/
theorem storeLines_headers (r : HttpRequest) {lines : List Bytes}
    (h : ∀ line ∈ lines, 58 ∈ line) (name : Bytes) :
    (storeLines r lines).headers_[name]? = (lastHeader lines name).or r.headers_[name]? := by
  induction lines generalizing r with
  | nil => rfl
  | cons line lines ih =>
      have hcolon := h line List.mem_cons_self
      have hstep : storeLines r (line :: lines) =
          storeLines (r.addHeader line (line.idxOf 58)) lines := rfl
      rw [hstep, ih _ fun l hl => h l (List.mem_cons_of_mem line hl), addHeader_colon r hcolon,
        Std.ExtTreeMap.getElem?_insert]
      simp only [lastHeader, List.reverse_cons, List.find?_append]
      cases hfind : lines.reverse.find? fun line => 58 ∈ line ∧ headerName line = name with
      | some line' => simp
      | none =>
          by_cases hname : headerName line = name
          · simp [hname, hcolon]
          · simp [hname, Std.LawfulEqCmp.compare_eq_iff_eq]

/-! ## What the code makes of the section -/

/-- A section of header lines is read as it is. -/
theorem headers_of_colons (r : HttpRequest) {xs : Bytes}
    (h : ∀ line ∈ (headerSection xs).1, 58 ∈ line) :
    headers r xs = (storeLines r (headerSection xs).1, (headerSection xs).2) := by
  induction r, xs using headers.induct with
  | case1 r xs hcut =>
      rw [headers_of_free r (cutAt_eq_none_iff.mp hcut), headerSection_uncut hcut]
      rfl
  | case2 r xs cut hcut hcolon ih =>
      have hline : cut.1 ≠ [] := List.ne_nil_of_mem hcolon
      rw [headerSection_cut hcut, if_neg hline] at h ⊢
      have hrest := ih fun line hl => h line (List.mem_cons_of_mem _ hl)
      rw [headers_of_cut r hcut, if_pos hcolon, hrest]
      rfl
  | case3 r xs cut hcut hcolon =>
      -- the only line without a colon is the empty one
      have hempty : cut.1 = [] := by
        by_contra hline
        rw [headerSection_cut hcut, if_neg hline] at h
        exact hcolon (h cut.1 List.mem_cons_self)
      rw [headers_of_cut r hcut, if_neg hcolon, headerSection_cut hcut, if_pos hempty]
      rfl

/-- A line without a colon ends the section too early: what the code takes for
the body is longer than the body. -/
theorem headers_of_no_colon (r : HttpRequest) {xs line : Bytes}
    (hline : line ∈ (headerSection xs).1) (hcolon : 58 ∉ line) :
    ∃ r' rest, headers r xs = (r', .body rest) ∧
      ∀ body, (headerSection xs).2 = .body body → body.length < rest.length := by
  induction r, xs using headers.induct with
  | case1 r xs hcut =>
      rw [headerSection_uncut hcut] at hline
      cases hline
  | case2 r xs cut hcut hhere ih =>
      have hne : cut.1 ≠ [] := List.ne_nil_of_mem hhere
      rw [headerSection_cut hcut, if_neg hne] at hline ⊢
      rw [headers_of_cut r hcut, if_pos hhere]
      refine ih ((List.mem_cons.mp hline).resolve_left ?_)
      rintro rfl
      exact hcolon hhere
  | case3 r xs cut hcut hhere =>
      refine ⟨r, cut.2, by rw [headers_of_cut r hcut, if_neg hhere], ?_⟩
      intro body hbody
      by_cases hempty : cut.1 = []
      · rw [headerSection_cut hcut, if_pos hempty] at hline
        cases hline
      · rw [headerSection_cut hcut, if_neg hempty] at hbody
        have hlength := headerSection_length hbody
        omega

/-- From the header state, the section ends at its empty line exactly if all its
lines have colons. -/
theorem endsAtEmptyLine_iff (r : HttpRequest) (xs : Bytes) :
    EndsAtEmptyLine r xs (parseHeaders r xs).context (parseHeaders r xs).left ↔
      ∀ line ∈ (headerSection xs).1, 58 ∈ line := by
  constructor
  · intro h line hline
    by_contra hcolon
    obtain ⟨r', rest, hheaders, hlonger⟩ := headers_of_no_colon r hline hcolon
    have hstate := h.state
    have hbody := h.body
    simp only [parseHeaders, hheaders] at hstate hbody
    cases hend : (headerSection xs).2 with
    | more left =>
        rw [hend] at hstate
        cases hstate
    | body body =>
        rw [hend] at hbody
        have hlt := hlonger body hend
        rw [show rest = body from hbody] at hlt
        exact Nat.lt_irrefl _ hlt
  · intro hcolons
    have hheaders := headers_of_colons r hcolons
    have hstored := storeLines_headers r hcolons
    have hbody := storeLines_body r (headerSection xs).1
    cases hend : (headerSection xs).2 with
    | more left =>
        rw [hend] at hheaders
        constructor <;> simp only [parseHeaders, hheaders, hend]
        · exact hbody
        · exact hstored
    | body rest =>
        rw [hend] at hheaders
        constructor <;> simp only [parseHeaders, hheaders, hend]
        exact hstored

/-- On a context that expects headers, and on one that expects the request line
and finds a valid one, a call ends the header section at the first empty line,
with the rest of the buffer as the body and every header line in front of it in
the map, if and only if every line in front of it has a colon. -/
theorem headers_end_at_empty_line (r : HttpRequest) (b : Buffer) (t : Timestamp) :
    ((∃ e, parseRequest ⟨r, .kExpectHeaders⟩ b t = some e ∧ e.result = .ok true ∧
        EndsAtEmptyLine r b.readable e.context e.inputBuffer.readable) ↔
      ∀ line ∈ (headerSection b.readable).1, 58 ∈ line) ∧
    ∀ first rest, takeLine b.readable = some (first, rest) →
      (parseRequestLine r first).result = .ok true →
      ((∃ e, parseRequest ⟨r, .kExpectRequestLine⟩ b t = some e ∧ e.result = .ok true ∧
          EndsAtEmptyLine { (parseRequestLine r first).request with receiveTime_ := t } rest
            e.context e.inputBuffer.readable) ↔
        ∀ line ∈ (headerSection rest).1, 58 ∈ line) := by
  refine ⟨?_, ?_⟩
  · obtain ⟨b', hrun, hleft⟩ := parseRequest_of_parse t (c := ⟨r, .kExpectHeaders⟩) (b := b) rfl
    rw [parseHeaders_result] at hrun
    rw [← endsAtEmptyLine_iff r, ← hleft, hrun]
    simp
  · intro first rest hcut hresult
    obtain ⟨b', hrun, hleft⟩ := parseRequest_accepted (r := r) hcut hresult t
    rw [← endsAtEmptyLine_iff { (parseRequestLine r first).request with receiveTime_ := t },
      ← hleft, hrun]
    simp

/-- The request line of the two texts below. -/
def getLine : Bytes :=
  ascii ['G', 'E', 'T', ' ', '/', ' ', 'H', 'T', 'T', 'P', '/', '1', '.', '1']

/-- One header, the empty line, a body. -/
theorem headers_end_at_empty_line_get :
    ∃ e, parseRequest {} (Buffer.new.append (getLine ++ 13 :: 10 ::
        ascii ['A', ':', 'b', '\r', '\n', '\r', '\n', 'x'])) ⟨0⟩ = some e ∧
      e.result = .ok true ∧
      EndsAtEmptyLine { (parseRequestLine {} getLine).request with receiveTime_ := ⟨0⟩ }
        (ascii ['A', ':', 'b', '\r', '\n', '\r', '\n', 'x'])
        e.context e.inputBuffer.readable := by
  have hheader : takeLine (ascii ['A', ':', 'b', '\r', '\n', '\r', '\n', 'x']) =
      some (ascii ['A', ':', 'b'], ascii ['\r', '\n', 'x']) := by decide
  have hempty : takeLine (ascii ['\r', '\n', 'x']) = some ([], ascii ['x']) := by decide
  refine ((headers_end_at_empty_line {} _ ⟨0⟩).2 getLine
    (ascii ['A', ':', 'b', '\r', '\n', '\r', '\n', 'x']) ?_ (by decide)).mpr ?_
  · rw [Buffer.readable_append, Buffer.readable_new]
    decide
  · rw [headerSection_cut hheader, if_neg (by decide), headerSection_cut hempty, if_pos rfl]
    decide

/-- A line without a colon in front of a header: the header is in the body. -/
theorem headers_end_without_colon :
    ∃ e, parseRequest {} (Buffer.new.append (getLine ++ 13 :: 10 ::
        ascii ['x', '\r', '\n', 'A', ':', 'b', '\r', '\n', '\r', '\n'])) ⟨0⟩ = some e ∧
      e.result = .ok true ∧ e.context.parseState_ = .kGotAll ∧
      e.context.request_.body_ = ascii ['A', ':', 'b', '\r', '\n', '\r', '\n'] ∧
      ¬ EndsAtEmptyLine { (parseRequestLine {} getLine).request with receiveTime_ := ⟨0⟩ }
        (ascii ['x', '\r', '\n', 'A', ':', 'b', '\r', '\n', '\r', '\n'])
        e.context e.inputBuffer.readable := by
  have hcut : takeLine (Buffer.new.append (getLine ++ 13 :: 10 ::
      ascii ['x', '\r', '\n', 'A', ':', 'b', '\r', '\n', '\r', '\n'])).readable =
      some (getLine, ascii ['x', '\r', '\n', 'A', ':', 'b', '\r', '\n', '\r', '\n']) := by
    rw [Buffer.readable_append, Buffer.readable_new]
    decide
  have hline : takeLine (ascii ['x', '\r', '\n', 'A', ':', 'b', '\r', '\n', '\r', '\n']) =
      some (ascii ['x'], ascii ['A', ':', 'b', '\r', '\n', '\r', '\n']) := by decide
  obtain ⟨b', hrun, hleft⟩ := parseRequest_accepted (r := {}) hcut (by decide) ⟨0⟩
  refine ⟨_, hrun, rfl, ?_, ?_, ?_⟩
  · simp only [parseHeaders, headers_of_cut _ hline, if_neg (show 58 ∉ ascii ['x'] by decide)]
  · simp only [parseHeaders, headers_of_cut _ hline, if_neg (show 58 ∉ ascii ['x'] by decide)]
  · intro hends
    have hcolons := (endsAtEmptyLine_iff _ _).mp (hleft ▸ hends)
    rw [headerSection_cut hline, if_neg (by decide)] at hcolons
    exact absurd (hcolons _ List.mem_cons_self) (by decide)

end Ham.Net
