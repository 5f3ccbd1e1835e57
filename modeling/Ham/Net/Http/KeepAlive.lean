import Ham.Net.Http.HttpServer
import Ham.Net.Http.ParserSafety

/-!
# A connection that stays open

What one request leaves behind for the next.

* In the buffer: `parseRequest` takes everything behind the empty line as the
  body, so of the requests that arrive in one read the user sees the first,
  with the others for its body (`pipelined_first`).
* In the context: `reset()` swaps the request with a new one, but the swap
  leaves `query_` and `body_` out and nobody puts `parseState_` back. It leaves
  no trace exactly where there was little to wipe (`reset_traceless_iff`).
-/

namespace Ham.Net

open Ham.Lib HttpContext

/-! ## Several requests in one read -/

/-- A request a client may send ahead of another: HTTP/1.1, no body, and no
`Connection: close`. -/
structure PipelinedText extends RequestText where
  bodiless : body = []
  http11 : version = .kHttp11
  open_ : ∀ h ∈ headerLines, h.name = HttpResponse.connectionField →
    h.value ≠ ascii ['c', 'l', 'o', 's', 'e']

/-- The bytes of the requests, one behind the other. -/
def pipeline (Rs : List PipelinedText) : Bytes := Rs.flatMap fun R => R.print

/-- The user sees each of the requests, in order, with its own fields and an
empty body. -/
def AllAnswered (httpCallback_ : HttpRequest → HttpResponse → HttpResponse)
    (Rs : List PipelinedText) (t : Timestamp) : Prop :=
  ∃ m, HttpServer.deliver httpCallback_ HttpServer.newConnection [(pipeline Rs, t)] = some [m] ∧
    List.Forall₂ (fun r R => SameMessage r (R.request t)) m.requests Rs

/-- The request with other bytes behind its empty line. -/
def PipelinedText.followedBy (R : PipelinedText) (rest : Bytes) : RequestText :=
  { R.toRequestText with body := rest }

theorem PipelinedText.print_followedBy (R : PipelinedText) (rest : Bytes) :
    (R.followedBy rest).print = R.print ++ rest := by
  have hprint : R.print = R.requestLine ++ 13 :: 10 ::
      (R.headerLines.flatMap HeaderLine.print ++ [13, 10]) := by
    rw [RequestText.print, R.bodiless]
  rw [hprint]
  simp [RequestText.print, followedBy, RequestText.requestLine, RequestText.target,
    RequestText.versionText]

/-- Of the requests in one read the first is answered, and the others are its
body. -/
theorem pipelined_first (httpCallback_ : HttpRequest → HttpResponse → HttpResponse)
    (R : PipelinedText) (Rs : List PipelinedText) (t : Timestamp) :
    (∃ m r, HttpServer.deliver httpCallback_ HttpServer.newConnection [(pipeline (R :: Rs), t)] =
        some [m] ∧ m.result = .ok () ∧ m.requests = [r] ∧
      SameMessage r { R.request t with body_ := pipeline Rs }) ∧
    (AllAnswered httpCallback_ (R :: Rs) t ↔ Rs = []) := by
  obtain ⟨m, hm, hreq, hok, -⟩ :=
    HttpServer.deliver_one httpCallback_ (R.followedBy (pipeline Rs)) t
  have htext : (R.followedBy (pipeline Rs)).print = pipeline (R :: Rs) :=
    R.print_followedBy (pipeline Rs)
  have hsame : SameMessage ((R.followedBy (pipeline Rs)).request t)
      { R.request t with body_ := pipeline Rs } := ⟨rfl, rfl, rfl, rfl, rfl, rfl⟩
  rw [htext] at hm
  refine ⟨⟨m, _, hm, hok, hreq, hsame⟩, ?_⟩
  constructor
  · -- one callback for two requests would have to be two
    rintro ⟨m', hm', hall⟩
    rw [hm] at hm'
    cases hm'
    have hlength := hall.length_eq
    rw [hreq] at hlength
    simpa using hlength.symm
  · rintro rfl
    refine ⟨m, hm, ?_⟩
    rw [hreq]
    refine .cons ⟨rfl, rfl, rfl, rfl, rfl, ?_⟩ .nil
    exact R.bodiless.symm

/-- `GET / HTTP/1.1`, as `PipelinedText`. -/
def PipelinedText.root : PipelinedText where
  toRequestText := .root
  bodiless := BodilessText.root.bodiless
  http11 := rfl
  open_ := fun _ h => absurd h List.not_mem_nil

/-- Two of them in one read: the second is not answered. -/
theorem not_allAnswered_two :
    ¬ ∀ httpCallback_ Rs t, Rs ≠ [] → AllAnswered httpCallback_ Rs t := by
  intro h
  obtain ⟨m, hm, hall⟩ := h (fun _ response => response) [.root, .root] ⟨0⟩ (by simp)
  obtain ⟨m', hm', hreq, -⟩ := HttpServer.deliver_one (fun _ response => response)
    (PipelinedText.root.followedBy (pipeline [.root])) ⟨0⟩
  rw [PipelinedText.print_followedBy] at hm'
  cases hm.symm.trans hm'
  rw [hreq] at hall
  have hlength := hall.length_eq
  simp at hlength

/-! ## `reset()` -/

/-- What a caller can see of a call of `parseRequest`. -/
structure Seen where
  result : Except Fault Bool
  gotAll : Bool
  method : Method
  version : Version
  path : Bytes
  query : Bytes
  body : Bytes
  headers : HeaderMap

def ParseExit.seen (e : ParseExit) : Seen where
  result := e.result
  gotAll := e.context.gotAll
  method := e.context.request_.method_
  version := e.context.request_.version_
  path := e.context.request_.path_
  query := e.context.request_.query_
  body := e.context.request_.body_
  headers := e.context.request_.headers_

/-- What a caller sees of some calls on one context; `none` for a call that
never returns. -/
def observe (c : HttpContext) : List (Buffer × Timestamp) → List (Option Seen)
  | [] => []
  | (b, t) :: calls =>
      match parseRequest c b t with
      | none => [none]
      | some e => some e.seen :: if e.aborted then [] else observe e.context calls

/-- After `reset()` no calls tell the context from a new one. -/
def Traceless (c : HttpContext) : Prop :=
  ∀ calls, observe c.reset calls = observe {} calls

theorem setMethod_body {r r' : HttpRequest} {m : Bytes} {ok : Bool}
    (h : r.setMethod m = .ok (ok, r')) : r'.body_ = r.body_ := by
  obtain ⟨-, -, h⟩ := bind_eq_ok.mp h
  cases h
  rfl

/-- `parseRequestLine` does not touch the body. -/
theorem parseRequestLine_body (r : HttpRequest) (line : Bytes) :
    (parseRequestLine r line).request.body_ = r.body_ := by
  have hversion : ∀ (r : HttpRequest) (start : Nat) (ranges : List (Nat × Nat)),
      (setVersion r line start ranges).request.body_ = r.body_ := by
    intro r start ranges
    dsimp only [setVersion]
    split_ifs <;> rfl
  have htarget : ∀ (r : HttpRequest) (start space : Nat),
      (setTarget r line start space).1.body_ = r.body_ := by
    intro r start space
    dsimp only [setTarget]
    split_ifs <;> rfl
  dsimp only [parseRequestLine]
  by_cases hspace : findByte line 0 line.length 32 = line.length
  · rw [if_pos hspace]
  · rw [if_neg hspace]
    cases hmethod : r.setMethod (slice line 0 (findByte line 0 line.length 32)) with
    | error f => rfl
    | ok set =>
        obtain ⟨ok, r'⟩ := set
        have hbody := setMethod_body hmethod
        cases ok with
        | false => exact hbody
        | true =>
            dsimp only
            split_ifs
            · rw [hversion, htarget, hbody]
            · rw [hversion, hbody]

theorem headers_body (r : HttpRequest) (xs : Bytes) : (headers r xs).1.body_ = r.body_ := by
  induction r, xs using headers.induct with
  | case1 r xs hcut => rw [headers_of_free r (cutAt_eq_none_iff.mp hcut)]
  | case2 r xs cut hcut hcolon ih =>
      rw [headers_of_cut r hcut, if_pos hcolon]
      exact ih
  | case3 r xs cut hcut hcolon => rw [headers_of_cut r hcut, if_neg hcolon]

/-- Before the end of a request there is no body. -/
def Bodiless (c : HttpContext) : Prop := c.parseState_ ≠ .kGotAll → c.request_.body_ = []

theorem parseHeaders_bodiless {r : HttpRequest} (h : r.body_ = []) (xs : Bytes) :
    Bodiless (parseHeaders r xs).context := by
  have hbody := headers_body r xs
  unfold parseHeaders
  split
  · rename_i r' left heq
    rw [heq, h] at hbody
    exact fun _ => hbody
  · exact fun hstate => absurd rfl hstate

theorem parse_bodiless {c : HttpContext} {xs : Bytes} {t : Timestamp} {p : Parsed}
    (h : Bodiless c) (hrun : parse c xs t = some p) : Bodiless p.context := by
  obtain ⟨r, state⟩ := c
  cases state with
  | kGotAll => cases hrun
  | kExpectBody =>
      cases hrun
      exact fun hstate => absurd rfl hstate
  | kExpectHeaders =>
      cases hrun
      exact parseHeaders_bodiless (h (by simp)) xs
  | kExpectRequestLine =>
      cases hrun
      have hbody : r.body_ = [] := h (by simp)
      unfold parseFirst
      cases takeLine xs with
      | none => exact fun _ => hbody
      | some cut =>
          have hline := (parseRequestLine_body r cut.1).trans hbody
          rcases hres : (parseRequestLine r cut.1).result with f | ok
          · simp only [hres]
            exact fun _ => hline
          · cases ok with
            | false =>
                simp only [hres]
                exact fun _ => hline
            | true =>
                simp only [hres]
                exact parseHeaders_bodiless (by exact hline) cut.2

theorem Reachable.bodiless {c : HttpContext} (h : Reachable c) : Bodiless c := by
  induction h with
  | new => exact fun _ => rfl
  | @parse c b t e _ hrun ih =>
      have hparse : Ham.Net.parse c b.readable t = some e.view := by
        rw [← parseRequest_refines, hrun]
        rfl
      exact parse_bodiless ih hparse
  | reset _ ih => exact ih

/-- A call on an empty buffer, while a request line is expected: it returns
`false` and changes nothing. -/
theorem observe_nothing (r : HttpRequest) :
    observe ⟨r, .kExpectRequestLine⟩ [(Buffer.new, ⟨0⟩)] =
      [some ⟨.ok false, false, r.method_, r.version_, r.path_, r.query_, r.body_, r.headers_⟩] :=
  rfl

/-- `reset()` wipes a context exactly when no request line has been accepted
and none of the refused ones has left its query. -/
theorem reset_traceless_iff {c : HttpContext} (h : Reachable c) :
    Traceless c ↔ c.parseState_ = .kExpectRequestLine ∧ c.request_.query_ = [] := by
  obtain ⟨r, state⟩ := c
  constructor
  · intro htrace
    -- one call on an empty buffer tells the others from a new context
    have hone := htrace [(Buffer.new, ⟨0⟩)]
    rw [observe_nothing] at hone
    cases state with
    | kExpectRequestLine =>
        rw [reset, observe_nothing] at hone
        simp only [List.cons.injEq, Option.some.injEq, Seen.mk.injEq] at hone
        exact ⟨rfl, hone.1.2.2.2.2.2.1⟩
    | kExpectHeaders => cases hone -- it returns `true`: nothing more to read
    | kExpectBody => cases hone -- it returns `true`, with the empty body
    | kGotAll => cases hone -- it never returns
  · rintro ⟨hstate, hquery⟩
    have hstate : state = .kExpectRequestLine := hstate
    subst hstate
    have hbody : r.body_ = [] := h.bodiless (by simp)
    have hquery : r.query_ = [] := hquery
    have hnew : reset ⟨r, .kExpectRequestLine⟩ = {} := by
      simp [reset, HttpRequest.swap, hquery, hbody]
    intro calls
    rw [hnew]

/-- A request line with an unknown version: refused, but not before the method
and the path have been stored. -/
def refusedLine : Bytes :=
  ascii ['P', 'U', 'T', ' ', '/', ' ', 'H', 'T', 'T', 'P', '/', '2', '.', '0', '\r', '\n']

theorem reset_traceless_refused :
    ∃ b, parseRequest {} (Buffer.new.append refusedLine) ⟨0⟩ =
        some ⟨⟨{ method_ := .kPut, path_ := ascii ['/'] }, .kExpectRequestLine⟩, b, .ok false⟩ ∧
      Traceless ⟨{ method_ := .kPut, path_ := ascii ['/'] }, .kExpectRequestLine⟩ := by
  have hread : (Buffer.new.append refusedLine).readable = refusedLine := by simp
  have hparse : parse {} (Buffer.new.append refusedLine).readable ⟨0⟩ =
      some ⟨⟨{ method_ := .kPut, path_ := ascii ['/'] }, .kExpectRequestLine⟩, refusedLine,
        .ok false⟩ := by
    rw [hread]
    rfl
  obtain ⟨b, hrun, -⟩ := parseRequest_of_parse ⟨0⟩ hparse
  exact ⟨b, hrun, (reset_traceless_iff (.parse .new hrun)).mpr ⟨rfl, rfl⟩⟩

/-- After a complete request and `reset()` the next call never returns, where
a new context would answer. -/
theorem not_traceless_complete : ¬ ∀ c, Reachable c → Traceless c := by
  intro h
  have hread : (Buffer.new.append RequestText.root.print).readable = RequestText.root.print := by
    simp
  obtain ⟨b, hrun, -⟩ := RequestText.root.parseRequest_eq hread ⟨0⟩
  have hone := h _ (.parse .new hrun) [(Buffer.new, ⟨0⟩)]
  rw [observe_nothing] at hone
  cases hone

end Ham.Net
