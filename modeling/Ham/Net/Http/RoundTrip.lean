import Ham.Net.Http.RequestLine

/-!
# Parsing inverts printing

`RequestText` is a request as a client would print it: the fields together
with the conditions that keep a delimiter out of each of them, and per header
the run of blanks on either side of the value. `parse_print` says that one call
of the parser on the printed text gives back the fields, the last header of
each name, and the body, and empties the buffer.
-/

namespace Ham.Net

open Ham.Lib HttpContext

/-- One printed header line: `name ':' blanks value blanks`. -/
structure HeaderLine where
  name : Bytes
  left : Bytes
  value : Bytes
  right : Bytes
  name_colon : 58 ∉ name
  name_free : Free 13 10 name
  left_blank : ∀ c ∈ left, c = 32 ∨ c = 9
  right_blank : ∀ c ∈ right, c = 32 ∨ c = 9
  value_free : Free 13 10 value
  value_head : ∀ c ∈ value.head?, isspace c = false
  value_last : ∀ c ∈ value.getLast?, isspace c = false

namespace HeaderLine

/-- The line without its CRLF. -/
def line (h : HeaderLine) : Bytes := h.name ++ 58 :: (h.left ++ h.value ++ h.right)

def print (h : HeaderLine) : Bytes := h.line ++ [13, 10]

/-- Blanks hold neither byte of a CRLF. -/
theorem blank_ne {xs : Bytes} (h : ∀ c ∈ xs, c = 32 ∨ c = 9) {c : Byte} (hc : c ∈ xs) :
    c ≠ 13 ∧ c ≠ 10 ∧ isspace c = true := by
  rcases h c hc with rfl | rfl <;> decide

theorem blank_free {xs : Bytes} (h : ∀ c ∈ xs, c = 32 ∨ c = 9) : Free 13 10 xs :=
  free_of_notMem fun hc => (blank_ne h hc).1 rfl

theorem line_free (h : HeaderLine) : Free 13 10 h.line := by
  have hleft : Free 13 10 (h.left ++ h.value) := by
    refine (blank_free h.left_blank).append h.value_free fun hseam => ?_
    exact (blank_ne h.left_blank (List.mem_of_getLast? hseam.1)).1 rfl
  have hpadded : Free 13 10 (h.left ++ h.value ++ h.right) := by
    refine hleft.append (blank_free h.right_blank) fun hseam => ?_
    exact (blank_ne h.right_blank (List.mem_of_head? hseam.2)).2.1 rfl
  exact h.name_free.append (hpadded.cons (by decide)) (by simp)

theorem addHeader_line (r : HttpRequest) (h : HeaderLine) :
    r.addHeader h.line (h.line.idxOf 58) =
      { r with headers_ := r.headers_.insert h.name h.value } :=
  r.addHeader_padded h.name_colon (fun _ hc => (blank_ne h.left_blank hc).2.2)
    (fun _ hc => (blank_ne h.right_blank hc).2.2) h.value_head h.value_last

end HeaderLine

/-- The map a list of header lines builds up in `m`. -/
def storeHeaders (m : HeaderMap) (hs : List HeaderLine) : HeaderMap :=
  hs.foldl (fun m h => m.insert h.name h.value) m

/-- The value of the last line with a given name. -/
def lastValue (hs : List HeaderLine) (field : Bytes) : Option Bytes :=
  (hs.reverse.find? fun h => h.name = field).map (·.value)

/-- The header section up to and including the empty line. -/
theorem headers_print (r : HttpRequest) (hs : List HeaderLine) (body : Bytes) :
    headers r (hs.flatMap HeaderLine.print ++ 13 :: 10 :: body) =
      ({ r with headers_ := storeHeaders r.headers_ hs }, .body body) := by
  induction hs generalizing r with
  | nil => exact headers_end r (free_nil 13 10) (by simp) body
  | cons h hs ih =>
      have hcolon : 58 ∈ h.line := by simp [HeaderLine.line]
      have hline := headers_line r h.line_free hcolon
        (hs.flatMap HeaderLine.print ++ 13 :: 10 :: body)
      rw [h.addHeader_line, ih] at hline
      simpa [HeaderLine.print, storeHeaders] using hline

/-- Repeated names: the last line wins. -/
theorem getElem?_storeHeaders (m : HeaderMap) (hs : List HeaderLine) (field : Bytes) :
    (storeHeaders m hs)[field]? = (lastValue hs field).or m[field]? := by
  induction hs generalizing m with
  | nil => simp [storeHeaders, lastValue]
  | cons h hs ih =>
      have hstep : storeHeaders m (h :: hs) = storeHeaders (m.insert h.name h.value) hs := rfl
      rw [hstep, ih, Std.ExtTreeMap.getElem?_insert]
      simp only [lastValue, List.reverse_cons, List.find?_append]
      cases hfind : hs.reverse.find? fun h => h.name = field with
      | some h' => simp
      | none =>
          by_cases hname : h.name = field
          · simp [hname]
          · simp [hname, Std.LawfulEqCmp.compare_eq_iff_eq]

/-- A request as it is printed. -/
structure RequestText where
  method : Method
  path : Bytes
  query : Option Bytes
  version : Version
  headerLines : List HeaderLine
  body : Bytes
  method_valid : method ≠ .kInvalid
  path_space : 32 ∉ path
  path_question : 63 ∉ path
  path_free : Free 13 10 path
  query_space : ∀ q ∈ query, 32 ∉ q
  query_free : ∀ q ∈ query, Free 13 10 q
  version_known : version ≠ .kUnknown

namespace RequestText

/-- `path` or `path?query`. -/
def target (R : RequestText) : Bytes :=
  match R.query with
  | none => R.path
  | some q => R.path ++ 63 :: q

/-- The version text. -/
def versionText (R : RequestText) : Bytes :=
  match R.version with
  | .kHttp10 => http10
  | _ => http11

/-- The request line without its CRLF. -/
def requestLine (R : RequestText) : Bytes :=
  R.method.toBytes ++ 32 :: (R.target ++ 32 :: R.versionText)

def print (R : RequestText) : Bytes :=
  R.requestLine ++ 13 :: 10 ::
    (R.headerLines.flatMap HeaderLine.print ++ 13 :: 10 :: R.body)

theorem target_space (R : RequestText) : 32 ∉ R.target := by
  unfold target
  cases hq : R.query with
  | none => exact R.path_space
  | some q =>
      have hqs := R.query_space q hq
      simp [R.path_space, hqs]

theorem target_free (R : RequestText) : Free 13 10 R.target := by
  unfold target
  cases hq : R.query with
  | none => exact R.path_free
  | some q =>
      exact R.path_free.append ((R.query_free q hq).cons (by decide)) (by simp)

theorem versionText_ofBytes (R : RequestText) : Version.ofBytes R.versionText = R.version := by
  unfold versionText
  cases hv : R.version with
  | kUnknown => exact absurd hv R.version_known
  | kHttp10 => decide
  | kHttp11 => decide

theorem versionText_free (R : RequestText) : Free 13 10 R.versionText := by
  unfold versionText
  split <;> decide

theorem requestLine_free (R : RequestText) : Free 13 10 R.requestLine := by
  have hmethod : Free 13 10 R.method.toBytes :=
    free_of_notMem fun h => absurd (Method.mem_toBytes h).1 (by decide)
  have hversion : Free 13 10 (R.target ++ 32 :: R.versionText) :=
    R.target_free.append (R.versionText_free.cons (by decide)) (by simp)
  exact hmethod.append (hversion.cons (by decide)) (by simp)

theorem targeted_target (R : RequestText) (r : HttpRequest) (hr : r.query_ = []) :
    targeted r R.target = { r with path_ := R.path, query_ := R.query.getD [] } := by
  unfold target
  cases hq : R.query with
  | none =>
      rw [targeted_path r R.path_question]
      simp [← hr]
  | some q =>
      rw [targeted_query r R.path_question]
      rfl

/-- The request the printed line stands for. -/
def lineRequest (R : RequestText) : HttpRequest where
  method_ := R.method
  path_ := R.path
  query_ := R.query.getD []
  version_ := R.version

/-- The request the whole text stands for. -/
def request (R : RequestText) (t : Timestamp) : HttpRequest :=
  { R.lineRequest with
    receiveTime_ := t
    headers_ := storeHeaders ∅ R.headerLines
    body_ := R.body }

theorem parseRequestLine_requestLine (R : RequestText) :
    (parseRequestLine {} R.requestLine).request = R.lineRequest ∧
    (parseRequestLine {} R.requestLine).result = .ok true := by
  have hv : R.versionText ≠ [] := by
    unfold versionText
    split <;> decide
  obtain ⟨hreq, hres⟩ := line_two_spaces (r := {}) rfl R.method_valid R.target_space hv
  rw [versioned, R.versionText_ofBytes, if_neg R.version_known,
    R.targeted_target _ rfl] at hreq
  rw [R.versionText_ofBytes, decide_eq_true R.version_known] at hres
  exact ⟨hreq, hres⟩

/-- What the abstract parser makes of the printed text. -/
theorem parse_eq (R : RequestText) (t : Timestamp) :
    parse {} R.print t = some ⟨⟨R.request t, .kGotAll⟩, [], .ok true⟩ := by
  have hcut : takeLine R.print = some (R.requestLine,
      R.headerLines.flatMap HeaderLine.print ++ 13 :: 10 :: R.body) :=
    cutAt_of_free (by decide) R.requestLine_free _
  obtain ⟨hreq, hres⟩ := R.parseRequestLine_requestLine
  show some (parseFirst {} R.print t) = _
  rw [parseFirst, hcut]
  simp only [hres, hreq, parseHeaders, headers_print]
  rfl

/-- What the code makes of a buffer that holds it. -/
theorem parseRequest_eq (R : RequestText) {b : Buffer} (h : b.readable = R.print)
    (t : Timestamp) :
    ∃ b', parseRequest {} b t = some ⟨⟨R.request t, .kGotAll⟩, b', .ok true⟩ ∧
      b'.readable = [] := by
  have hparse := R.parse_eq t
  rw [← h] at hparse
  exact parseRequest_of_parse t hparse

/-- `GET / HTTP/1.1` without headers or body. -/
def root : RequestText where
  method := .kGet
  path := ascii ['/']
  query := none
  version := .kHttp11
  headerLines := []
  body := []
  method_valid := by decide
  path_space := by decide
  path_question := by decide
  path_free := by decide
  query_space := by simp
  query_free := by simp
  version_known := by decide

end RequestText

theorem parse_print (R : RequestText) (b : Buffer) (t : Timestamp) (h : b.readable = R.print) :
    ∃ e, parseRequest {} b t = some e ∧ e.result = .ok true ∧ e.context.gotAll = true ∧
      e.context.request_.method_ = R.method ∧ e.context.request_.path_ = R.path ∧
      e.context.request_.query_ = R.query.getD [] ∧
      e.context.request_.version_ = R.version ∧
      (∀ field : Bytes, e.context.request_.headers_[field]? = lastValue R.headerLines field) ∧
      e.context.request_.body_ = R.body ∧ e.inputBuffer.readable = [] := by
  obtain ⟨b', hrun, hleft⟩ := R.parseRequest_eq h t
  refine ⟨_, hrun, rfl, rfl, rfl, rfl, rfl, rfl, ?_, rfl, hleft⟩
  intro field
  show (storeHeaders ∅ R.headerLines)[field]? = _
  simpa using getElem?_storeHeaders ∅ R.headerLines field

/-- A `Host` header line with the given blanks and a one-byte value. -/
def hostLine (left right : Bytes) (hl : ∀ c ∈ left, c = 32 ∨ c = 9)
    (hr : ∀ c ∈ right, c = 32 ∨ c = 9) (value : Byte) (hv : isspace value = false) :
    HeaderLine where
  name := ascii ['H', 'o', 's', 't']
  left := left
  value := [value]
  right := right
  name_colon := by decide
  name_free := by decide
  left_blank := hl
  right_blank := hr
  value_free := free_singleton 13 10 value
  value_head := by simpa using hv
  value_last := by simpa using hv

/-- `GET /a?b HTTP/1.1`, with `Host` given twice and a body. -/
def sampleText : RequestText where
  method := .kGet
  path := ascii ['/', 'a']
  query := some (ascii ['b'])
  version := .kHttp11
  headerLines :=
    [hostLine [] [] (by simp) (by simp) 120 (by decide),
     hostLine [32, 9] [32] (by simp) (by simp) 121 (by decide)]
  body := ascii ['o', 'k']
  method_valid := by decide
  path_space := by decide
  path_question := by decide
  path_free := by decide
  query_space := by decide
  query_free := by decide
  version_known := by decide

theorem parse_print_sample :
    ∃ e, parseRequest {} (Buffer.new.append sampleText.print) ⟨0⟩ = some e ∧
      e.context.request_.path_ = ascii ['/', 'a'] ∧
      e.context.request_.headers_[ascii ['H', 'o', 's', 't']]? = some [121] ∧
      e.context.request_.body_ = ascii ['o', 'k'] := by
  obtain ⟨e, hrun, -, -, -, hpath, -, -, hheaders, hbody, -⟩ :=
    parse_print sampleText (Buffer.new.append sampleText.print) ⟨0⟩ (by simp)
  refine ⟨e, hrun, hpath, ?_, hbody⟩
  rw [hheaders]
  decide

end Ham.Net
