import Ham.Net.Http.HttpResponse
import Ham.Net.Http.Incremental

/-!
# `HttpServer`

The callbacks `HttpServer` installs on a connection. `onMessage` works on a
copy of the parser context that lives in the connection's `boost::any`: the
copy advances, the bytes it consumed leave the input buffer, and the original
stays where `onConnection` put it. So a request survives segmentation exactly
when there is none (`segmentation_iff`).
-/

namespace Ham.Net

open Ham.Lib HttpContext

/-- What `HttpServer` makes happen while it handles one message, in order: the
user's callback, and calls on the connection. -/
inductive HttpCall where
  | httpCallback (request : HttpRequest)
  | send (message : Bytes)
  | shutdown
  deriving DecidableEq

/-- The members of a connection that `HttpServer` reads or writes. -/
structure HttpConnection where
  context_ : Option HttpContext
  inputBuffer_ : Buffer

/-- A message handled: the calls made, and the exception that ended it. -/
structure Handled where
  conn : HttpConnection
  calls : List HttpCall
  result : Except Fault Unit

namespace HttpServer

/-- `HTTP/1.1 400 Bad Request` and an empty line. -/
def badRequest : Bytes :=
  ascii ['H', 'T', 'T', 'P', '/', '1', '.', '1', ' ', '4', '0', '0', ' ', 'B', 'a', 'd', ' ',
    'R', 'e', 'q', 'u', 'e', 's', 't', '\r', '\n', '\r', '\n']

/-- `onConnection`, on whether the connection is up. -/
def onConnection (conn : HttpConnection) (isConnected : Bool) : HttpConnection :=
  if isConnected then { conn with context_ := some {} } else conn

variable (httpCallback_ : HttpRequest → HttpResponse → HttpResponse)

/-- The local `isShortConn` of `onRequest`. -/
def isShortConn (request : HttpRequest) : Bool :=
  let connType := request.getHeader
    (ascii ['C', 'o', 'n', 'n', 'e', 'c', 't', 'i', 'o', 'n'])
  connType = ascii ['c', 'l', 'o', 's', 'e'] ∨
    (request.version_ = .kHttp10 ∧
      connType ≠ ascii ['K', 'e', 'e', 'p', '-', 'A', 'l', 'i', 'v', 'e'])

def onRequest (request : HttpRequest) : List HttpCall :=
  let response := httpCallback_ request { closeConnection_ := isShortConn request }
  let buf := response.appendToBuffer Buffer.new
  [.httpCallback request, .send buf.readable] ++
    if response.closeConnection_ then [.shutdown] else []

/-- `onMessage`. `any_cast` copies the context, and neither the parse nor the
`reset()` of the copy reaches `context_`. No answer when the parser's loop
never ends. -/
def onMessage (conn : HttpConnection) (receiveTime : Timestamp) : Option Handled :=
  match conn.context_ with
  | none => some ⟨conn, [], .error .badAnyCast⟩
  | some context =>
      match parseRequest context conn.inputBuffer_ receiveTime with
      | none => none
      | some e =>
          let conn := { conn with inputBuffer_ := e.inputBuffer }
          match e.result with
          | .error f => some ⟨conn, [], .error f⟩
          | .ok ok =>
              some ⟨conn,
                (if ok then [] else [.send badRequest, .shutdown]) ++
                  (if e.context.gotAll then onRequest httpCallback_ e.context.request_ else []),
                .ok ()⟩

/-- Segments delivered one by one, each read into the input buffer by
`handleRead` and passed to `onMessage`. An exception ends the run. -/
def deliver (conn : HttpConnection) : List (Bytes × Timestamp) → Option (List Handled)
  | [] => some []
  | (segment, t) :: segments =>
      match onMessage httpCallback_ { conn with inputBuffer_ := conn.inputBuffer_.readFd segment } t
      with
      | none => none
      | some h =>
          match h.result with
          | .error _ => some [h]
          | .ok _ => (deliver h.conn segments).map (h :: ·)

/-- A connection as `HttpServer` finds it right after it was established. -/
def newConnection : HttpConnection := onConnection ⟨none, Buffer.new⟩ true

end HttpServer

/-- The requests the user saw among some calls. -/
def requestsSeen (calls : List HttpCall) : List HttpRequest :=
  calls.filterMap fun
    | .httpCallback request => some request
    | _ => none

def Handled.requests (h : Handled) : List HttpRequest := requestsSeen h.calls

/-- The user saw one request, with the last message and no other, and nobody
was told `400 Bad Request`. -/
def Answered (whole : HttpRequest) (hs : List Handled) : Prop :=
  ∃ early last r, hs = early ++ [last] ∧
    (∀ h ∈ hs, h.result = .ok () ∧ .send HttpServer.badRequest ∉ h.calls) ∧
    (∀ h ∈ early, h.requests = []) ∧ last.requests = [r] ∧ SameMessage r whole

/-- A request without a body whose header names hold no space. -/
structure BodilessText extends RequestText where
  bodiless : body = []
  names_space : ∀ h ∈ headerLines, 32 ∉ h.name

/-! ## What is left of a request is no request -/

/-- A header line is not a request line: what stands before its first space
holds a colon. -/
theorem parseRequestLine_header (h : HeaderLine) (hname : 32 ∉ h.name) :
    (parseRequestLine {} h.line).result = .ok false := by
  have hmethod : ∀ (m : Method) (tail : Bytes), h.line ≠ m.toBytes ++ 32 :: tail := by
    intro m tail heq
    rcases List.append_eq_append_iff.mp heq with ⟨a, hm, htail⟩ | ⟨a, hn, htail⟩
    · -- the name ends inside the method
      cases a with
      | nil => cases htail
      | cons c a =>
          have hcolon : 58 ∈ m.toBytes := by
            rw [hm, (List.cons.inj htail).1]
            simp
          exact absurd (Method.mem_toBytes hcolon).1 (by decide)
    · -- the method ends inside the name
      cases a with
      | nil => cases htail
      | cons c a =>
          rw [hn, (List.cons.inj htail).1] at hname
          simp at hname
  generalize hl : h.line = line at hmethod
  cases lineShape line with
  | noSpace hspace => rw [line_without_space _ hspace]
  | badMethod hm hbad => rw [line_bad_method rfl hm hbad]
  | oneSpace hm htarget => exact absurd rfl (hmethod _ _)
  | twoSpaces hm htarget => exact absurd rfl (hmethod _ _)

/-- The rest of a header section, from the start of a line to the empty line. -/
def sectionText (hs : List HeaderLine) : Bytes := hs.flatMap HeaderLine.print ++ [13, 10]

theorem takeLine_section_nil : takeLine (sectionText []) = some ([], []) := rfl

theorem takeLine_section_cons (h : HeaderLine) (hs : List HeaderLine) :
    takeLine (sectionText (h :: hs)) = some (h.line, sectionText hs) := by
  have hcut := cutAt_of_free (by decide) h.line_free (sectionText hs)
  simpa [sectionText, HeaderLine.print] using hcut

/-- Cut short anywhere, a header section stops at the start of a line. -/
theorem headers_part {hs : List HeaderLine} {xs ys : Bytes} (hsplit : xs ++ ys = sectionText hs)
    (hys : ys ≠ []) (r : HttpRequest) :
    ∃ r' left hs', headers r xs = (r', .more left) ∧ left ++ ys = sectionText hs' ∧ hs' ⊆ hs := by
  induction hs generalizing xs r with
  | nil =>
      cases hcut : takeLine xs with
      | none => exact ⟨r, xs, [], headers_of_free r (cutAt_eq_none_iff.mp hcut), hsplit, by simp⟩
      | some cut =>
          have hwhole : takeLine (xs ++ ys) = some (cut.1, cut.2 ++ ys) :=
            cutAt_append (by decide) hcut ys
          rw [hsplit, takeLine_section_nil] at hwhole
          simp [hys] at hwhole
  | cons h hs ih =>
      cases hcut : takeLine xs with
      | none =>
          exact ⟨r, xs, h :: hs, headers_of_free r (cutAt_eq_none_iff.mp hcut), hsplit,
            List.Subset.refl _⟩
      | some cut =>
          obtain ⟨line, rest⟩ := cut
          have hwhole : takeLine (xs ++ ys) = some (line, rest ++ ys) :=
            cutAt_append (by decide) hcut ys
          rw [hsplit, takeLine_section_cons] at hwhole
          simp only [Option.some.injEq, Prod.mk.injEq] at hwhole
          obtain ⟨rfl, hrest⟩ := hwhole
          have hcolon : 58 ∈ h.line := by simp [HeaderLine.line]
          obtain ⟨r', left, hs', hheaders, hleft, hsub⟩ :=
            ih hrest.symm (r.addHeader h.line (h.line.idxOf 58))
          refine ⟨r', left, hs', ?_, hleft, fun x hx => List.mem_cons_of_mem _ (hsub hx)⟩
          rw [headers_of_cut r hcut, if_pos hcolon, hheaders]

/-- A new context refuses every part of a header section. -/
theorem parse_section {hs : List HeaderLine} (hnames : ∀ h ∈ hs, 32 ∉ h.name) {xs ys : Bytes}
    (hsplit : xs ++ ys = sectionText hs) (t : Timestamp) :
    ∃ p, parse {} xs t = some p ∧ p.result = .ok false := by
  refine ⟨parseFirst {} xs t, rfl, ?_⟩
  cases hcut : takeLine xs with
  | none => simp [parseFirst, hcut]
  | some cut =>
      obtain ⟨line, rest⟩ := cut
      have hwhole : takeLine (xs ++ ys) = some (line, rest ++ ys) :=
        cutAt_append (by decide) hcut ys
      have hline : (parseRequestLine {} line).result = .ok false := by
        cases hs with
        | nil =>
            rw [hsplit, takeLine_section_nil] at hwhole
            simp only [Option.some.injEq, Prod.mk.injEq] at hwhole
            rw [← hwhole.1]
            rfl
        | cons h hs =>
            rw [hsplit, takeLine_section_cons] at hwhole
            simp only [Option.some.injEq, Prod.mk.injEq] at hwhole
            rw [← hwhole.1]
            exact parseRequestLine_header h (hnames h (by simp))
      simp [parseFirst, hcut, hline]

namespace BodilessText

theorem print_eq (R : BodilessText) :
    R.print = R.requestLine ++ 13 :: 10 :: sectionText R.headerLines := by
  rw [RequestText.print, R.bodiless]
  rfl

/-- The first part of a request: no line yet, or the request line and a
header section cut short. -/
theorem parse_part (R : BodilessText) {xs ys : Bytes} (hsplit : xs ++ ys = R.print)
    (hys : ys ≠ []) (t : Timestamp) :
    (∃ p, parse {} xs t = some p ∧ p.result = .ok false) ∨
    ∃ r left hs, parse {} xs t = some ⟨⟨r, .kExpectHeaders⟩, left, .ok true⟩ ∧
      left ++ ys = sectionText hs ∧ hs ⊆ R.headerLines := by
  cases hcut : takeLine xs with
  | none => exact .inl ⟨parseFirst {} xs t, rfl, by simp [parseFirst, hcut]⟩
  | some cut =>
      obtain ⟨line, rest⟩ := cut
      have hwhole : takeLine (xs ++ ys) = some (line, rest ++ ys) :=
        cutAt_append (by decide) hcut ys
      have hfull : takeLine R.print = some (R.requestLine, sectionText R.headerLines) := by
        rw [R.print_eq]
        exact cutAt_of_free (by decide) R.requestLine_free _
      rw [hsplit, hfull] at hwhole
      simp only [Option.some.injEq, Prod.mk.injEq] at hwhole
      obtain ⟨rfl, hrest⟩ := hwhole
      obtain ⟨r, left, hs, hheaders, hleft, hsub⟩ := headers_part hrest.symm hys
        { (parseRequestLine {} R.requestLine).request with receiveTime_ := t }
      refine .inr ⟨r, left, hs, ?_, hleft, hsub⟩
      rw [parse_accepted hcut R.parseRequestLine_requestLine.2 t, parseHeaders, hheaders]

end BodilessText

namespace HttpServer

variable (httpCallback_ : HttpRequest → HttpResponse → HttpResponse)

/-- The answer to a request is never `400 Bad Request`: its text begins with
`Http`. -/
theorem onRequest_calls (request : HttpRequest) :
    .send badRequest ∉ onRequest httpCallback_ request ∧
    requestsSeen (onRequest httpCallback_ request) = [request] := by
  have htext : ∀ r : HttpResponse, badRequest ≠ r.text := by
    intro r h
    have hsecond := congrArg (·[1]?) h
    simp [badRequest, HttpResponse.text, HttpResponse.pieces, HttpResponse.statusPieces,
      ascii] at hsecond
    exact absurd hsecond (by decide)
  dsimp only [onRequest]
  split
  · exact ⟨by simp [htext], rfl⟩
  · exact ⟨by simp [htext], rfl⟩

/-- A message the parser refuses is answered with `400 Bad Request`. -/
theorem onMessage_refused {b : Buffer} {t : Timestamp} {p : Parsed}
    (h : parse {} b.readable t = some p) (hres : p.result = .ok false) :
    ∃ m, onMessage httpCallback_ ⟨some {}, b⟩ t = some m ∧ .send badRequest ∈ m.calls := by
  obtain ⟨b', hrun, -⟩ := parseRequest_of_parse t h
  simp [onMessage, hrun, hres]

/-- A message that ends inside the header section goes unanswered, and the
context of the connection stays new. -/
theorem onMessage_headers {b : Buffer} {t : Timestamp} {r : HttpRequest} {left : Bytes}
    (h : parse {} b.readable t = some ⟨⟨r, .kExpectHeaders⟩, left, .ok true⟩) :
    ∃ b', onMessage httpCallback_ ⟨some {}, b⟩ t = some ⟨⟨some {}, b'⟩, [], .ok ()⟩ ∧
      b'.readable = left := by
  obtain ⟨b', hrun, hleft⟩ := parseRequest_of_parse t h
  refine ⟨b', ?_, hleft⟩
  simp [onMessage, hrun, gotAll]

/-- The whole request in one message. -/
theorem onMessage_whole (R : RequestText) {b : Buffer} (h : b.readable = R.print)
    (t : Timestamp) :
    ∃ b', onMessage httpCallback_ ⟨some {}, b⟩ t =
      some ⟨⟨some {}, b'⟩, onRequest httpCallback_ (R.request t), .ok ()⟩ := by
  obtain ⟨b', hrun, -⟩ := R.parseRequest_eq h t
  refine ⟨b', ?_⟩
  simp [onMessage, hrun, gotAll]

/-- A refused message is in every record of the run. -/
theorem deliver_refused {b : Buffer} {t : Timestamp} {segment : Bytes}
    {segments : List (Bytes × Timestamp)} {p : Parsed}
    (h : parse {} (b.readable ++ segment) t = some p) (hres : p.result = .ok false)
    {hs : List Handled}
    (hrun : deliver httpCallback_ ⟨some {}, b⟩ ((segment, t) :: segments) = some hs) :
    ∃ m ∈ hs, .send badRequest ∈ m.calls := by
  rw [← Buffer.readable_readFd] at h
  obtain ⟨m, hm, hbad⟩ := onMessage_refused httpCallback_ h hres
  simp only [deliver, hm] at hrun
  split at hrun
  · exact ⟨m, by simp [← Option.some.inj hrun], hbad⟩
  · obtain ⟨ms, -, rfl⟩ := Option.map_eq_some_iff.mp hrun
    exact ⟨m, by simp, hbad⟩

/-- Two segments are one too many: the first is refused for lack of a line,
or the second is parsed as if the first had never come. -/
theorem deliver_two (R : BodilessText) {s₁ s₂ : Bytes} {t₁ t₂ : Timestamp}
    {segments : List (Bytes × Timestamp)} (hs₂ : s₂ ≠ [])
    (hsplit : s₁ ++ (s₂ ++ segments.flatMap (·.1)) = R.print) {hs : List Handled}
    (hrun : deliver httpCallback_ newConnection ((s₁, t₁) :: (s₂, t₂) :: segments) = some hs) :
    ∃ m ∈ hs, .send badRequest ∈ m.calls := by
  rcases R.parse_part hsplit (by simp [hs₂]) t₁ with ⟨p, hp, hres⟩ | ⟨r, left, hs', hp, hleft, hsub⟩
  · exact deliver_refused httpCallback_ (by simpa using hp) hres hrun
  · obtain ⟨b', hm, hb'⟩ := onMessage_headers httpCallback_ (b := Buffer.new.readFd s₁)
      (by simpa using hp)
    have hconn : deliver httpCallback_ newConnection ((s₁, t₁) :: (s₂, t₂) :: segments) =
        (deliver httpCallback_ ⟨some {}, b'⟩ ((s₂, t₂) :: segments)).map
          (⟨⟨some {}, b'⟩, [], .ok ()⟩ :: ·) := by
      rw [deliver, newConnection, onConnection]
      simp only [if_true, hm]
    rw [hconn] at hrun
    obtain ⟨ms, hms, rfl⟩ := Option.map_eq_some_iff.mp hrun
    rw [← List.append_assoc] at hleft
    obtain ⟨p, hq, hres⟩ := parse_section (fun h hh => R.names_space h (hsub hh)) hleft t₂
    obtain ⟨m, hmem, hbad⟩ :=
      deliver_refused httpCallback_ (by rw [hb']; exact hq) hres hms
    exact ⟨m, List.mem_cons_of_mem _ hmem, hbad⟩

end HttpServer

/-- The request cut into `segments` is served like the request in one segment
at time `t`. -/
def SegmentationIndependent (httpCallback_ : HttpRequest → HttpResponse → HttpResponse)
    (R : BodilessText) (t : Timestamp) (segments : List (Bytes × Timestamp)) : Prop :=
  ∃ one whole hs,
    HttpServer.deliver httpCallback_ HttpServer.newConnection [(R.print, t)] = some [one] ∧
    one.requests = [whole] ∧
    HttpServer.deliver httpCallback_ HttpServer.newConnection segments = some hs ∧
    Answered whole hs

theorem HttpServer.deliver_one (httpCallback_ : HttpRequest → HttpResponse → HttpResponse)
    (R : RequestText) (t : Timestamp) :
    ∃ m, deliver httpCallback_ newConnection [(R.print, t)] = some [m] ∧
      m.requests = [R.request t] ∧ m.result = .ok () ∧ .send badRequest ∉ m.calls := by
  obtain ⟨b', hm⟩ := onMessage_whole httpCallback_ R (b := Buffer.new.readFd R.print) (by simp) t
  obtain ⟨hbad, hreq⟩ := onRequest_calls httpCallback_ (R.request t)
  refine ⟨⟨⟨some {}, b'⟩, onRequest httpCallback_ (R.request t), .ok ()⟩, ?_, hreq, rfl, hbad⟩
  rw [deliver, newConnection, onConnection]
  simp only [if_true, hm]
  rfl

theorem segmentation_iff (httpCallback_ : HttpRequest → HttpResponse → HttpResponse)
    (R : BodilessText) (t : Timestamp) (segments : List (Bytes × Timestamp))
    (hparts : ∀ x ∈ segments, x.1 ≠ []) (hsplit : segments.flatMap (·.1) = R.print) :
    SegmentationIndependent httpCallback_ R t segments ↔ segments.length = 1 := by
  match segments with
  | [] =>
      rw [R.print_eq] at hsplit
      simp at hsplit
  | [(s, u)] =>
      have hs : s = R.print := by simpa using hsplit
      subst hs
      obtain ⟨one, hone, hwhole, -, -⟩ := HttpServer.deliver_one httpCallback_ R.toRequestText t
      obtain ⟨m, hm, hreq, hok, hbad⟩ := HttpServer.deliver_one httpCallback_ R.toRequestText u
      refine iff_of_true ?_ rfl
      refine ⟨one, _, [m], hone, hwhole, hm, [], m, _, rfl, ?_, by simp, hreq, ?_⟩
      · simpa using ⟨hok, hbad⟩
      · exact ⟨rfl, rfl, rfl, rfl, rfl, rfl⟩
  | (s₁, t₁) :: (s₂, t₂) :: rest =>
      refine iff_of_false ?_ (by simp)
      rintro ⟨one, whole, hs, -, -, hrun, early, last, r, -, hgood, -⟩
      have hs₂ : s₂ ≠ [] := hparts (s₂, t₂) (by simp)
      obtain ⟨m, hmem, hbad⟩ := HttpServer.deliver_two httpCallback_ R hs₂
        (by simpa using hsplit) hrun
      exact (hgood m hmem).2 hbad

/-- The smallest request, as `BodilessText`. -/
def BodilessText.root : BodilessText where
  toRequestText := .root
  bodiless := rfl
  names_space := by simp [RequestText.root]

theorem segmentation_root_whole :
    SegmentationIndependent (fun _ response => response) .root ⟨0⟩
      [(RequestText.root.print, ⟨0⟩)] :=
  (segmentation_iff _ .root ⟨0⟩ [(RequestText.root.print, ⟨0⟩)] (by decide) (by simp; rfl)).mpr rfl

theorem not_segmentation_root_torn :
    ¬ ∀ httpCallback_ R t segments, (∀ x ∈ segments, x.1 ≠ []) →
      segments.flatMap (·.1) = R.print → SegmentationIndependent httpCallback_ R t segments := by
  intro h
  -- the first byte of the request alone
  have hroot := h (fun _ response => response) .root ⟨0⟩
    [(RequestText.root.print.take 1, ⟨0⟩), (RequestText.root.print.drop 1, ⟨0⟩)]
    (by decide) (by simp; rfl)
  obtain ⟨one, whole, hs, -, -, hrun, early, last, r, -, hgood, -⟩ := hroot
  obtain ⟨m, hmem, hbad⟩ := HttpServer.deliver_two _ .root (by decide)
    (by simp; rfl) hrun
  exact (hgood m hmem).2 hbad

end Ham.Net
