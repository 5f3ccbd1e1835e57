import Ham.Net.Http.RoundTrip

/-!
# Parsing in pieces

One context and one buffer, fed chunk by chunk with a call of `parseRequest`
after each. The parser is resumable: after any calls its context and buffer
are those of one call on everything that arrived (`parse_resume`), because a
CRLF once found stays found (`cutAt_append`). From this `parseChunks_oneShot`
follows by induction over the chunks.
-/

namespace Ham.Net

open Ham.Lib HttpContext

/-- Two requests with the same message: every field but the receive time. -/
structure SameMessage (r s : HttpRequest) : Prop where
  method : r.method_ = s.method_
  version : r.version_ = s.version_
  path : r.path_ = s.path_
  query : r.query_ = s.query_
  headers : r.headers_ = s.headers_
  body : r.body_ = s.body_

/-- Append a chunk, call the parser, and so on: the exit of every call. A
call that faults is the last one; `none` when a call does not end. -/
def parseChunks (c : HttpContext) (b : Buffer) : List (Bytes × Timestamp) → Option (List ParseExit)
  | [] => some []
  | (chunk, t) :: chunks =>
      match parseRequest c (b.append chunk) t with
      | none => none
      | some e =>
          match e.result with
          | .error _ => some [e]
          | .ok _ => (parseChunks e.context e.inputBuffer chunks).map (e :: ·)

/-- All that has arrived behind `got` by the time of each call. -/
def arrivals (got : Bytes) : List (Bytes × Timestamp) → List Bytes
  | [] => []
  | (chunk, _) :: chunks => (got ++ chunk) :: arrivals (got ++ chunk) chunks

/-- A complete line has arrived. -/
def lineArrived (got : Bytes) : Bool := (takeLine got).isSome

/-! ## The header section in pieces -/

/-- An unfinished header section goes on where it stopped. -/
theorem headers_more_append (r : HttpRequest) (xs : Bytes) {r' : HttpRequest} {left : Bytes}
    (h : headers r xs = (r', .more left)) (ys : Bytes) :
    headers r (xs ++ ys) = headers r' (left ++ ys) := by
  induction r, xs using headers.induct with
  | case1 r xs hcut =>
      rw [headers_of_free r (cutAt_eq_none_iff.mp hcut)] at h
      cases h
      rfl
  | case2 r xs cut hcut hcolon ih =>
      rw [headers_of_cut r hcut, if_pos hcolon] at h
      rw [headers_of_cut r (cutAt_append (by decide) hcut ys), if_pos hcolon]
      exact ih h
  | case3 r xs cut hcut hcolon =>
      rw [headers_of_cut r hcut, if_neg hcolon] at h
      cases h

/-- Bytes behind a finished header section belong to the body. -/
theorem headers_body_append (r : HttpRequest) (xs : Bytes) {r' : HttpRequest} {rest : Bytes}
    (h : headers r xs = (r', .body rest)) (ys : Bytes) :
    headers r (xs ++ ys) = (r', .body (rest ++ ys)) := by
  induction r, xs using headers.induct with
  | case1 r xs hcut =>
      rw [headers_of_free r (cutAt_eq_none_iff.mp hcut)] at h
      cases h
  | case2 r xs cut hcut hcolon ih =>
      rw [headers_of_cut r hcut, if_pos hcolon] at h
      rw [headers_of_cut r (cutAt_append (by decide) hcut ys), if_pos hcolon]
      exact ih h
  | case3 r xs cut hcut hcolon =>
      rw [headers_of_cut r hcut, if_neg hcolon] at h
      cases h
      rw [headers_of_cut _ (cutAt_append (by decide) hcut ys), if_neg hcolon]

/-- The receive time rides along. -/
theorem headers_receiveTime (r : HttpRequest) (xs : Bytes) (t : Timestamp) :
    headers { r with receiveTime_ := t } xs =
      ({ (headers r xs).1 with receiveTime_ := t }, (headers r xs).2) := by
  induction r, xs using headers.induct with
  | case1 r xs hcut =>
      have hfree := cutAt_eq_none_iff.mp hcut
      rw [headers_of_free _ hfree, headers_of_free _ hfree]
  | case2 r xs cut hcut hcolon ih =>
      rw [headers_of_cut r hcut, headers_of_cut _ hcut, if_pos hcolon, if_pos hcolon]
      exact ih
  | case3 r xs cut hcut hcolon =>
      rw [headers_of_cut r hcut, headers_of_cut _ hcut, if_neg hcolon, if_neg hcolon]

/-! ## One call in pieces -/

/-- A call on a new context whose request line is complete and accepted. -/
theorem parse_accepted {xs line rest : Bytes} (hcut : takeLine xs = some (line, rest))
    (hline : (parseRequestLine {} line).result = .ok true) (t : Timestamp) :
    parse {} xs t = some
      (parseHeaders { (parseRequestLine {} line).request with receiveTime_ := t } rest) := by
  show some (parseFirst {} xs t) = _
  simp only [parseFirst, hcut, hline]

/-- A call that returned true has seen a complete, accepted request line. -/
theorem accepted_of_parse {xs : Bytes} {t : Timestamp} {p : Parsed}
    (h : parse {} xs t = some p) (hok : p.result = .ok true) :
    ∃ line rest, takeLine xs = some (line, rest) ∧
      (parseRequestLine {} line).result = .ok true := by
  have hp : parseFirst {} xs t = p := Option.some.inj h
  subst hp
  unfold parseFirst at hok
  cases hcut : takeLine xs with
  | none => simp [hcut] at hok
  | some cut =>
      obtain ⟨line, rest⟩ := cut
      refine ⟨line, rest, rfl, ?_⟩
      rcases hline : (parseRequestLine {} line).result with f | ok
      · simp [hcut, hline] at hok
      · cases ok with
        | true => rfl
        | false => simp [hcut, hline] at hok

/-- A finished call on a new context: the accepted line and the finished
header section behind it. -/
theorem finished_of_parse {xs : Bytes} {t : Timestamp} {p : Parsed}
    (h : parse {} xs t = some p) (hok : p.result = .ok true) (hgot : p.context.gotAll = true) :
    ∃ line rest r body, takeLine xs = some (line, rest) ∧
      (parseRequestLine {} line).result = .ok true ∧
      headers (parseRequestLine {} line).request rest = (r, .body body) ∧
      p = ⟨⟨{ r with receiveTime_ := t, body_ := body }, .kGotAll⟩, [], .ok true⟩ := by
  obtain ⟨line, rest, hcut, hline⟩ := accepted_of_parse h hok
  rw [parse_accepted hcut hline t] at h
  have hp := Option.some.inj h
  rw [parseHeaders, headers_receiveTime] at hp
  rcases hend : headers (parseRequestLine {} line).request rest with ⟨r, left | body⟩
  · rw [hend] at hp
    subst hp
    cases hgot
  · rw [hend] at hp
    exact ⟨line, rest, r, body, hcut, hline, hend, hp.symm⟩

/-- The state one call leaves is a state to go on from: a later call on more
bytes does what one call on all of them would have done at some time. -/
theorem parse_resume {xs : Bytes} {t : Timestamp} {p : Parsed} (h : parse {} xs t = some p)
    (hok : p.result = .ok (lineArrived xs)) (hgot : p.context.gotAll = false) (ys : Bytes)
    (u : Timestamp) :
    ∃ v, parse p.context (p.left ++ ys) u = parse {} (xs ++ ys) v := by
  cases hcut : takeLine xs with
  | none =>
      -- no line yet: nothing was consumed and the context is still new
      have hp : parseFirst {} xs t = p := Option.some.inj h
      rw [parseFirst, hcut] at hp
      subst hp
      exact ⟨u, rfl⟩
  | some cut =>
      have hok' : p.result = .ok true := by rw [hok, lineArrived, hcut]; rfl
      obtain ⟨line, rest, hcut', hline⟩ := accepted_of_parse h hok'
      rw [parse_accepted hcut' hline t] at h
      have hp := Option.some.inj h
      refine ⟨t, ?_⟩
      rw [parse_accepted (cutAt_append (by decide) hcut' ys) hline t]
      rw [parseHeaders] at hp
      rcases hend : headers { (parseRequestLine {} line).request with receiveTime_ := t } rest
        with ⟨r, left | body⟩
      · rw [hend] at hp
        subst hp
        rw [parseHeaders, headers_more_append _ _ hend ys]
        rfl
      · rw [hend] at hp
        subst hp
        cases hgot

/-- A proper part of a request without a body is never the whole of one. -/
theorem parse_part {xs ys : Bytes} {t : Timestamp} {p : Parsed}
    (h : parse {} (xs ++ ys) t = some p) (hok : p.result = .ok true)
    (hgot : p.context.gotAll = true) (hbody : p.context.request_.body_ = []) (hys : ys ≠ [])
    (u : Timestamp) :
    ∃ q, parse {} xs u = some q ∧ q.result = .ok (lineArrived xs) ∧
      q.context.gotAll = false := by
  obtain ⟨line, rest, r, body, hcut, hline, hend, rfl⟩ := finished_of_parse h hok hgot
  cases hpart : takeLine xs with
  | none =>
      refine ⟨parseFirst {} xs u, rfl, ?_, ?_⟩ <;> simp [parseFirst, hpart, lineArrived, gotAll]
  | some cut =>
      obtain ⟨line', rest'⟩ := cut
      have hwhole : takeLine (xs ++ ys) = some (line', rest' ++ ys) :=
        cutAt_append (by decide) hpart ys
      rw [hcut] at hwhole
      cases hwhole
      refine ⟨_, parse_accepted hpart hline u, ?_⟩
      rw [parseHeaders, headers_receiveTime]
      rcases hrest : headers (parseRequestLine {} line).request rest' with ⟨r', left | body'⟩
      · exact ⟨by simp [lineArrived, hpart], rfl⟩
      · -- the section would have ended early, with `ys` in the body
        rw [headers_body_append _ _ hrest ys] at hend
        cases hend
        exact absurd (List.append_eq_nil_iff.mp hbody).2 hys

/-- At another time the same request comes out with another receive time. -/
theorem parse_time {xs : Bytes} {t : Timestamp} {p : Parsed} (h : parse {} xs t = some p)
    (hok : p.result = .ok true) (hgot : p.context.gotAll = true) (u : Timestamp) :
    ∃ q, parse {} xs u = some q ∧ q.result = .ok true ∧ q.context.gotAll = true ∧ q.left = [] ∧
      SameMessage q.context.request_ p.context.request_ := by
  obtain ⟨line, rest, r, body, hcut, hline, hend, rfl⟩ := finished_of_parse h hok hgot
  refine ⟨_, parse_accepted hcut hline u, ?_⟩
  rw [parseHeaders, headers_receiveTime, hend]
  exact ⟨rfl, rfl, rfl, rfl, rfl, rfl, rfl, rfl, rfl⟩

/-! ## All calls -/

/-- The calls on the chunks of a request, against the request one call on all
of it gives: `got` is what had arrived at each call. -/
structure Agrees (whole : HttpRequest) (got : List Bytes) (early : List ParseExit)
    (last : ParseExit) : Prop where
  results : (early ++ [last]).map (·.result) = got.map fun xs => .ok (lineArrived xs)
  early_gotAll : ∀ e ∈ early, e.context.gotAll = false
  last_result : last.result = .ok true
  last_gotAll : last.context.gotAll = true
  message : SameMessage last.context.request_ whole
  emptied : last.inputBuffer.readable = []

theorem Agrees.cons {whole : HttpRequest} {got : List Bytes} {early : List ParseExit}
    {last : ParseExit} (h : Agrees whole got early last) {e : ParseExit} {xs : Bytes}
    (hres : e.result = .ok (lineArrived xs)) (hgot : e.context.gotAll = false) :
    Agrees whole (xs :: got) (e :: early) last where
  results := by
    have := h.results
    simp only [List.cons_append, List.map_cons, hres, this]
  early_gotAll := by
    intro e' he'
    rcases List.mem_cons.mp he' with rfl | he'
    · exact hgot
    · exact h.early_gotAll e' he'
  last_result := h.last_result
  last_gotAll := h.last_gotAll
  message := h.message
  emptied := h.emptied

/-- The context and the buffer stand where one call on `got` leaves them. -/
def StandsAt (got : Bytes) (c : HttpContext) (b : Buffer) : Prop :=
  c.gotAll = false ∧
  ∃ t, parse {} got t = some ⟨c, b.readable, .ok (lineArrived got)⟩

theorem standsAt_new : StandsAt [] {} Buffer.new := by
  refine ⟨rfl, ⟨0⟩, ?_⟩
  rw [Buffer.readable_new]
  rfl

/-- One more chunk and one more call. -/
theorem StandsAt.call {got : Bytes} {c : HttpContext} {b : Buffer} (h : StandsAt got c b)
    (chunk : Bytes) (t : Timestamp) :
    ∃ v, ∀ p, parse {} (got ++ chunk) v = some p →
      ∃ b', parseRequest c (b.append chunk) t = some ⟨p.context, b', p.result⟩ ∧
        b'.readable = p.left := by
  obtain ⟨hgot, u, hparse⟩ := h
  obtain ⟨v, hresume⟩ := parse_resume hparse rfl hgot chunk t
  refine ⟨v, fun p hp => ?_⟩
  rw [← hresume] at hp
  exact parseRequest_of_parse t (by rw [Buffer.readable_append]; exact hp)

/-- From any standing point the remaining chunks finish the request. -/
theorem parseChunks_standsAt {R : Bytes} {t : Timestamp} {p : Parsed}
    (hR : parse {} R t = some p) (hok : p.result = .ok true) (hgot : p.context.gotAll = true)
    (hbody : p.context.request_.body_ = []) (chunks : List (Bytes × Timestamp))
    (hne : chunks ≠ []) (hparts : ∀ x ∈ chunks, x.1 ≠ []) {got : Bytes} {c : HttpContext}
    {b : Buffer} (hat : StandsAt got c b) (hsplit : got ++ chunks.flatMap (·.1) = R) :
    ∃ early last, parseChunks c b chunks = some (early ++ [last]) ∧
      Agrees p.context.request_ (arrivals got chunks) early last := by
  induction chunks generalizing got c b with
  | nil => exact absurd rfl hne
  | cons chunk chunks ih =>
      obtain ⟨v, hcall⟩ := hat.call chunk.1 chunk.2
      have hsplit' : got ++ chunk.1 ++ chunks.flatMap (·.1) = R := by
        rw [← hsplit, List.flatMap_cons, List.append_assoc]
      by_cases hlast : chunks = []
      · -- the last chunk: the call sees all of `R`
        subst hlast
        have hall : got ++ chunk.1 = R := by simpa using hsplit'
        obtain ⟨q, hq, hqok, hqgot, hqleft, hsame⟩ := parse_time hR hok hgot v
        rw [← hall] at hq
        obtain ⟨b', hrun, hread⟩ := hcall q hq
        obtain ⟨line, rest, hcut, -⟩ := accepted_of_parse hq hqok
        refine ⟨[], ⟨q.context, b', q.result⟩, ?_, ?_⟩
        · simp [parseChunks, hrun, hqok]
        · refine ⟨?_, by simp, hqok, hqgot, hsame, by rw [hread, hqleft]⟩
          simp [arrivals, hqok, lineArrived, hcut]
      · -- an earlier chunk: the call leaves the next standing point
        have hmore : chunks.flatMap (·.1) ≠ [] := by
          obtain ⟨x, xs, rfl⟩ := List.exists_cons_of_ne_nil hlast
          have hx := hparts x (by simp)
          simp [hx]
        obtain ⟨q, hq, hqok, hqgot⟩ :=
          parse_part (hsplit' ▸ hR) hok hgot hbody hmore v
        obtain ⟨b', hrun, hread⟩ := hcall q hq
        have hat' : StandsAt (got ++ chunk.1) q.context b' :=
          ⟨hqgot, v, by rw [hq, hread, ← hqok]⟩
        obtain ⟨early, last, hrest, hagrees⟩ :=
          ih hlast (fun x hx => hparts x (List.mem_cons_of_mem _ hx)) hat' hsplit'
        refine ⟨⟨q.context, b', q.result⟩ :: early, last, ?_, hagrees.cons hqok hqgot⟩
        simp [parseChunks, hrun, hqok, hrest]

/-- Incremental parsing agrees with one-shot parsing. That no shorter input
does as well as `b₀` need not be asked: it follows from the empty body. -/
theorem parseChunks_oneShot {b₀ : Buffer} {t₀ : Timestamp} {e : ParseExit}
    (hone : parseRequest {} b₀ t₀ = some e) (hok : e.result = .ok true)
    (hgot : e.context.gotAll = true) (hbody : e.context.request_.body_ = [])
    (chunks : List (Bytes × Timestamp)) (hparts : ∀ x ∈ chunks, x.1 ≠ [])
    (hsplit : chunks.flatMap (·.1) = b₀.readable) :
    ∃ early last, parseChunks {} Buffer.new chunks = some (early ++ [last]) ∧
      Agrees e.context.request_ (arrivals [] chunks) early last := by
  have hR : parse {} b₀.readable t₀ = some e.view := by
    rw [← parseRequest_refines, hone]
    rfl
  have hne : chunks ≠ [] := by
    rintro rfl
    obtain ⟨line, rest, hcut, -⟩ := accepted_of_parse hR hok
    rw [← hsplit] at hcut
    cases hcut
  exact parseChunks_standsAt hR hok hgot hbody chunks hne hparts standsAt_new
    (by rw [List.nil_append, hsplit])

/-- `GET / HTTP/1.1` in three pieces, the first CRLF torn apart. -/
def rootPieces : List (Bytes × Timestamp) :=
  [(ascii ['G', 'E', 'T', ' ', '/', ' ', 'H'], ⟨0⟩),
   (ascii ['T', 'T', 'P', '/', '1', '.', '1', '\r'], ⟨1⟩), (ascii ['\n', '\r', '\n'], ⟨2⟩)]

theorem parseChunks_rootPieces :
    ∃ early last, parseChunks {} Buffer.new rootPieces = some (early ++ [last]) ∧
      (early ++ [last]).map (·.result) = [.ok false, .ok false, .ok true] ∧
      last.context.request_.path_ = ascii ['/'] := by
  have hread : (Buffer.new.append RequestText.root.print).readable = RequestText.root.print := by
    simp
  obtain ⟨b, hone, -⟩ := RequestText.root.parseRequest_eq hread ⟨0⟩
  obtain ⟨early, last, hcalls, hagrees⟩ := parseChunks_oneShot hone rfl rfl rfl rootPieces
    (by decide) (by rw [hread]; decide)
  exact ⟨early, last, hcalls, hagrees.results, hagrees.message.path⟩

end Ham.Net
