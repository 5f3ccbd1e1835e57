import Ham.Lib.Run
import Ham.Net.Http.LineGrammar
import Ham.Net.Http.ParserSafety

/-!
# Calls of `parseRequest` that return false

False means that the request line is incomplete or wrong, and a caller may come
back with more bytes. `parseRequestLine` writes the method, the path and the
query before it looks at the version. A line with a known method and an unknown
version is refused and leaves them behind, and so does a line that is cut short
and makes the call throw; in both cases the next line trips the assertion of
`setMethod`. `failed_parse_unchanged` says that these lines are the only ones,
over any calls on a context, caught exceptions, and resets.
-/

namespace Ham.Net

open Ham.Lib HttpContext

/-- A known method, a target, and a version text that names no version. -/
structure WrongVersion (m : Method) (target v line : Bytes) : Prop where
  method : m ≠ .kInvalid
  no_space : 32 ∉ target
  version : v ≠ [] ∧ Version.ofBytes v = .kUnknown
  eq : line = m.toBytes ++ 32 :: (target ++ 32 :: v)

/-- What a call that returns false is expected to leave. -/
def FailsUnchanged (c : HttpContext) (b : Buffer) (t : Timestamp) : Prop :=
  ∀ e, parseRequest c b t = some e → e.result = .ok false → e.context = c ∧ e.inputBuffer = b

namespace HttpContext

variable {r : HttpRequest} {b : Buffer} {line rest : Bytes}

/-! ## One call at the request line -/

/-- Without a complete line. -/
theorem parseRequest_uncut (h : takeLine b.readable = none) (t : Timestamp) :
    parseRequest ⟨r, .kExpectRequestLine⟩ b t =
      some ⟨⟨r, .kExpectRequestLine⟩, b, .ok false⟩ := by
  simp [parseRequest, parseLoop, parseIteration, buffer_uncut h]

/-- A line that is not accepted: the buffer is as before, and the request holds
what the line wrote. -/
theorem parseRequest_refused (h : takeLine b.readable = some (line, rest))
    (hresult : (parseRequestLine r line).result ≠ .ok true) (t : Timestamp) :
    parseRequest ⟨r, .kExpectRequestLine⟩ b t =
      some ⟨⟨(parseRequestLine r line).request, .kExpectRequestLine⟩, b,
        (parseRequestLine r line).result⟩ := by
  obtain ⟨hfind, hline, -⟩ := buffer_cut h
  rcases hres : (parseRequestLine r line).result with f | ok
  · simp [parseRequest, parseLoop, parseIteration, hfind, hline, hres]
  · cases ok with
    | true => exact absurd hres hresult
    | false => simp [parseRequest, parseLoop, parseIteration, hfind, hline, hres]

/-- An accepted line: the call returns true. -/
theorem parseRequest_accepted (h : takeLine b.readable = some (line, rest))
    (hresult : (parseRequestLine r line).result = .ok true) (t : Timestamp) :
    ∃ b', parseRequest ⟨r, .kExpectRequestLine⟩ b t = some
        ⟨(parseHeaders { (parseRequestLine r line).request with receiveTime_ := t } rest).context,
          b', .ok true⟩ ∧
      b'.readable =
        (parseHeaders { (parseRequestLine r line).request with receiveTime_ := t } rest).left := by
  have hparse : parse ⟨r, .kExpectRequestLine⟩ b.readable t = some
      (parseHeaders { (parseRequestLine r line).request with receiveTime_ := t } rest) := by
    show some (parseFirst r b.readable t) = _
    simp only [parseFirst, h, hresult]
  obtain ⟨b', hrun, hread⟩ := parseRequest_of_parse t hparse
  rw [parseHeaders_result] at hrun
  exact ⟨b', hrun, hread⟩

theorem parseHeaders_state (r : HttpRequest) (xs : Bytes) :
    (parseHeaders r xs).context.parseState_ ≠ .kExpectRequestLine := by
  unfold parseHeaders
  split
  · simp
  · simp

/-- What a call at the request line can do: nothing, for want of a line; refuse
the line; or go on behind it. -/
theorem parseRequest_cases {t : Timestamp} {e : ParseExit}
    (h : parseRequest ⟨r, .kExpectRequestLine⟩ b t = some e) :
    e = ⟨⟨r, .kExpectRequestLine⟩, b, .ok false⟩ ∨
    (∃ line rest, takeLine b.readable = some (line, rest) ∧
      (parseRequestLine r line).result ≠ .ok true ∧
      e = ⟨⟨(parseRequestLine r line).request, .kExpectRequestLine⟩, b,
        (parseRequestLine r line).result⟩) ∨
    (e.result = .ok true ∧ e.context.parseState_ ≠ .kExpectRequestLine) := by
  cases hcut : takeLine b.readable with
  | none =>
      rw [parseRequest_uncut hcut] at h
      cases h
      exact .inl rfl
  | some cut =>
      obtain ⟨line, rest⟩ := cut
      by_cases hresult : (parseRequestLine r line).result = .ok true
      · obtain ⟨b', haccepted, -⟩ := parseRequest_accepted hcut hresult t
        rw [haccepted] at h
        cases h
        exact .inr (.inr ⟨rfl, parseHeaders_state _ _⟩)
      · rw [parseRequest_refused hcut hresult] at h
        cases h
        exact .inr (.inl ⟨line, rest, rfl, hresult, rfl⟩)

/-- A refused line that leaves the request alone, or one with a wrong version. -/
theorem refused_cases (hr : r.method_ = .kInvalid)
    (h : (parseRequestLine r line).result = .ok false) :
    (parseRequestLine r line).request = r ∨ ∃ m target v, WrongVersion m target v line := by
  cases lineShape line with
  | noSpace hspace => exact .inl (by rw [line_without_space r hspace])
  | badMethod hm hbad => exact .inl (by rw [line_bad_method hr hm hbad])
  | oneSpace hm htarget =>
      rw [(line_one_space hr hm htarget).2] at h
      cases h
  | @twoSpaces m target v hm htarget =>
      by_cases hv : v = []
      · subst hv
        rw [(line_trailing_space hr hm htarget).2] at h
        cases h
      · rw [(line_two_spaces hr hm htarget hv).2] at h
        have hunknown : Version.ofBytes v = .kUnknown := by
          simpa using of_decide_eq_false (Except.ok.inj h)
        exact .inr ⟨m, target, v, hm, htarget, ⟨hv, hunknown⟩, rfl⟩

/-- A wrong version is refused, with the method already set. -/
theorem wrongVersion_run (hr : r.method_ = .kInvalid) {m : Method} {target v : Bytes}
    (h : WrongVersion m target v line) :
    (parseRequestLine r line).result = .ok false ∧
    (parseRequestLine r line).request.method_ ≠ .kInvalid := by
  obtain ⟨hm, htarget, ⟨hv, hunknown⟩, rfl⟩ := h
  obtain ⟨hrequest, hresult⟩ := line_two_spaces hr hm htarget hv
  refine ⟨by rw [hresult]; simp [hunknown], ?_⟩
  rw [hrequest, versioned, if_pos hunknown, targeted_eq]
  exact hm

/-- With the method still unset, no line trips an assertion. -/
theorem line_no_assertion (hr : r.method_ = .kInvalid) (line : Bytes) (site : Assertion) :
    (parseRequestLine r line).result ≠ .error (.assertion site) := by
  intro h
  obtain ⟨m, target, hm, htarget, rfl | rfl⟩ := (cutShort_iff_error hr line).mpr ⟨_, h⟩
  · rw [(line_one_space hr hm htarget).2] at h
    cases h
  · rw [(line_trailing_space hr hm htarget).2] at h
    cases h

/-- With a method set, every line with a space trips that of `setMethod`, which
comes before anything is written. -/
theorem line_method_set (hr : r.method_ ≠ .kInvalid) (hspace : 32 ∈ line) :
    (parseRequestLine r line).request = r ∧
    (parseRequestLine r line).result = .error (.assertion .setMethodInvalid) := by
  have hne : line.idxOf 32 ≠ line.length := (List.idxOf_lt_length_of_mem hspace).ne
  have hset : ∀ m, r.setMethod m = .error (.assertion .setMethodInvalid) := by
    intro m
    simp [HttpRequest.setMethod, assert, hr]
  unfold parseRequestLine
  simp only [findByte_whole, if_neg hne, hset]
  exact ⟨trivial, trivial⟩

/-- A line that trips an assertion leaves the request alone. -/
theorem line_assertion {site : Assertion}
    (h : (parseRequestLine r line).result = .error (.assertion site)) :
    (parseRequestLine r line).request = r := by
  by_cases hr : r.method_ = .kInvalid
  · exact absurd h (line_no_assertion hr line site)
  · by_cases hspace : 32 ∈ line
    · exact (line_method_set hr hspace).1
    · rw [line_without_space r hspace]

end HttpContext

/-! ## Calls and resets -/

inductive ParserCall where
  | parseRequest (inputBuffer : Buffer) (receiveTime : Timestamp)
  | reset

/-- A context under calls on any buffers. A call in state `kGotAll` does not
return; a call that throws leaves a context behind, and a failed assertion ends
the process. -/
def parserCalls : System HttpContext ParserCall Fault where
  enabled := fun c l => match l with
    | .parseRequest _ _ => c.gotAll = false
    | .reset => True
  step := fun c l => match l with
    | .parseRequest b t =>
        match parseRequest c b t with
        | none => .ok c
        | some e => if e.aborted then e.result.map fun _ => e.context else .ok e.context
    | .reset => .ok c.reset

/-- A line that writes the method and is not accepted: a wrong version, which
is refused, or none, which throws. -/
def LeavesMethod (line : Bytes) : Prop := CutShort line ∨ ∃ m target v, WrongVersion m target v line

/-- The call does not meet a wrong version in the request line. -/
def NoWrongVersion (c : HttpContext) : ParserCall → Prop
  | .parseRequest b _ => c.parseState_ = .kExpectRequestLine →
      ∀ line rest, takeLine b.readable = some (line, rest) →
        ¬ ∃ m target v, WrongVersion m target v line
  | .reset => True

/-- The call does not meet a request line that leaves its method behind. -/
def Harmless (c : HttpContext) : ParserCall → Prop
  | .parseRequest b _ => c.parseState_ = .kExpectRequestLine →
      ∀ line rest, takeLine b.readable = some (line, rest) → ¬ LeavesMethod line
  | .reset => True

/-- No call at the request line trips the assertion of `setMethod`. -/
def NeverAsserts (c : HttpContext) : Prop :=
  c.parseState_ = .kExpectRequestLine → ∀ b t e, parseRequest c b t = some e →
    e.result ≠ .error (.assertion .setMethodInvalid)

/-! ## The contexts that are reached -/

/-- Behind the request line no call fails. -/
theorem parse_result {c : HttpContext} {xs : Bytes} {t : Timestamp} {p : Parsed}
    (hstate : c.parseState_ ≠ .kExpectRequestLine) (h : parse c xs t = some p) :
    p.result = .ok true := by
  unfold parse at h
  split at h
  · rename_i hline
    exact absurd hline hstate
  · cases h
    exact parseHeaders_result _ _
  · cases h
    rfl
  · cases h

/-- A call that trips an assertion leaves the context alone. -/
theorem ParseExit.aborted_context {c : HttpContext} {b : Buffer} {t : Timestamp} {e : ParseExit}
    (h : parseRequest c b t = some e) (habort : e.aborted = true) : e.context = c := by
  obtain ⟨site, hresult⟩ : ∃ site, e.result = .error (.assertion site) := by
    unfold ParseExit.aborted at habort
    split at habort
    · exact ⟨_, by assumption⟩
    · cases habort
  by_cases hstate : c.parseState_ = .kExpectRequestLine
  · obtain ⟨r, state⟩ := c
    subst hstate
    rcases parseRequest_cases h with rfl | ⟨line, rest, -, -, rfl⟩ | ⟨htrue, -⟩
    · rfl
    · rw [line_assertion hresult]
    · rw [htrue] at hresult
      cases hresult
  · have href := parseRequest_refines t c b
    rw [h] at href
    have hok : e.result = .ok true := parse_result hstate href.symm
    rw [hok] at hresult
    cases hresult

/-- A call that goes on: it has returned, or has thrown. -/
theorem parserCalls_step {c c' : HttpContext} {b : Buffer} {t : Timestamp} :
    parserCalls.Step c (.parseRequest b t) c' ↔
      ∃ e, HttpContext.parseRequest c b t = some e ∧ e.aborted = false ∧ e.context = c' := by
  have hterm : c.gotAll = false ↔ ∃ e, HttpContext.parseRequest c b t = some e := by
    rw [← Option.isSome_iff_exists, ← Option.isSome_map (f := ParseExit.view), parseRequest_refines]
    obtain ⟨r, state⟩ := c
    cases state <;> simp [gotAll, Ham.Net.parse]
  constructor
  · rintro ⟨hen, hstep⟩
    obtain ⟨e, hrun⟩ := hterm.mp hen
    simp only [parserCalls, hrun] at hstep
    cases habort : e.aborted with
    | false =>
        rw [if_neg (by simp [habort])] at hstep
        exact ⟨e, hrun, habort, Except.ok.inj hstep⟩
    | true =>
        rw [if_pos habort] at hstep
        unfold ParseExit.aborted at habort
        split at habort
        · rename_i site hresult
          rw [hresult] at hstep
          cases hstep
        · cases habort
  · rintro ⟨e, hrun, habort, rfl⟩
    refine ⟨hterm.mpr ⟨e, hrun⟩, ?_⟩
    simp [parserCalls, hrun, habort]

/-- The runs reach what a caller can hold. -/
theorem reachable_iff_run {c : HttpContext} : Reachable c ↔ ∃ ls, parserCalls.Run {} ls c := by
  constructor
  · intro h
    induction h with
    | new => exact ⟨[], .nil _⟩
    | @parse c b t e _ hrun ih =>
        obtain ⟨ls, hls⟩ := ih
        cases habort : e.aborted with
        | true =>
            rw [ParseExit.aborted_context hrun habort]
            exact ⟨ls, hls⟩
        | false =>
            have hstep := parserCalls_step.mpr ⟨e, hrun, habort, rfl⟩
            exact ⟨ls ++ [.parseRequest b t], hls.append (.cons hstep (.nil _))⟩
    | @reset c _ ih =>
        obtain ⟨ls, hls⟩ := ih
        have hstep : parserCalls.Step c .reset c.reset := ⟨trivial, rfl⟩
        exact ⟨ls ++ [.reset], hls.append (.cons hstep (.nil _))⟩
  · rintro ⟨ls, hls⟩
    refine hls.invariant .new ?_
    intro c l c' h hstep
    cases l with
    | parseRequest b t =>
        obtain ⟨e, hrun, -, rfl⟩ := parserCalls_step.mp hstep
        exact .parse h hrun
    | reset =>
        cases hstep.2
        exact .reset h

/-- While the request line is expected, no method has been set. -/
def Unset (c : HttpContext) : Prop :=
  c.parseState_ = .kExpectRequestLine → c.request_.method_ = .kInvalid

/-- Behind the request line a call stays behind it. -/
theorem parse_state {c : HttpContext} {xs : Bytes} {t : Timestamp} {p : Parsed}
    (hstate : c.parseState_ ≠ .kExpectRequestLine) (h : parse c xs t = some p) :
    p.context.parseState_ ≠ .kExpectRequestLine := by
  unfold parse at h
  split at h
  · rename_i hline
    exact absurd hline hstate
  · cases h
    exact parseHeaders_state _ _
  · cases h
    simp
  · cases h

/-- The line leaves its method behind if it is not accepted and the method is
set afterwards. -/
theorem leavesMethod_iff {r : HttpRequest} (hr : r.method_ = .kInvalid) {line : Bytes}
    (hresult : (parseRequestLine r line).result ≠ .ok true) :
    LeavesMethod line ↔ (parseRequestLine r line).request.method_ ≠ .kInvalid := by
  constructor
  · rintro (⟨m, target, hm, htarget, rfl | rfl⟩ | ⟨m, target, v, hwrong⟩)
    · rw [(line_one_space hr hm htarget).1]
      exact hm
    · rw [(line_trailing_space hr hm htarget).1, targeted_eq]
      exact hm
    · exact (wrongVersion_run hr hwrong).2
  · intro hmethod
    cases lineShape line with
    | noSpace hspace =>
        rw [line_without_space r hspace] at hmethod
        exact absurd hr hmethod
    | badMethod hm hbad =>
        rw [line_bad_method hr hm hbad] at hmethod
        exact absurd hr hmethod
    | oneSpace hm htarget => exact .inl ⟨_, _, hm, htarget, .inl rfl⟩
    | @twoSpaces m target v hm htarget =>
        by_cases hv : v = []
        · subst hv
          exact .inl ⟨m, target, hm, htarget, .inr rfl⟩
        · rw [(line_two_spaces hr hm htarget hv).2] at hresult
          have hunknown : Version.ofBytes v = .kUnknown := by simpa using hresult
          exact .inr ⟨m, target, v, hm, htarget, ⟨hv, hunknown⟩, rfl⟩

/-- An accepted line leaves nothing behind for the next one. -/
theorem accepted_not_leavesMethod {r : HttpRequest} (hr : r.method_ = .kInvalid) {line : Bytes}
    (h : (parseRequestLine r line).result = .ok true) : ¬ LeavesMethod line := by
  rintro (hshort | ⟨m, target, v, hwrong⟩)
  · obtain ⟨f, hf⟩ := (cutShort_iff_error hr line).mp hshort
    rw [h] at hf
    cases hf
  · rw [(wrongVersion_run hr hwrong).1] at h
    cases h

/-- Where the method is unset at the request line, it is so behind a call if and
only if the call was harmless. -/
theorem Unset.parseRequest_iff {c : HttpContext} (h : Unset c) {b : Buffer} {t : Timestamp}
    {e : ParseExit} (hrun : HttpContext.parseRequest c b t = some e) :
    Harmless c (.parseRequest b t) ↔ Unset e.context := by
  by_cases hstate : c.parseState_ = .kExpectRequestLine
  · have hr := h hstate
    obtain ⟨r, state⟩ := c
    subst hstate
    cases hcut : takeLine b.readable with
    | none =>
        rw [parseRequest_uncut hcut] at hrun
        cases hrun
        refine iff_of_true ?_ h
        rintro - line rest hline
        rw [hcut] at hline
        cases hline
    | some cut =>
        obtain ⟨line, rest⟩ := cut
        have hharmless : Harmless ⟨r, .kExpectRequestLine⟩ (.parseRequest b t) ↔
            ¬ LeavesMethod line := by
          constructor
          · exact fun hgood => hgood rfl line rest hcut
          · rintro hline - line' rest' hcut'
            cases hcut.symm.trans hcut'
            exact hline
        by_cases hresult : (parseRequestLine r line).result = .ok true
        · obtain ⟨b', haccepted, -⟩ := parseRequest_accepted hcut hresult t
          rw [haccepted] at hrun
          cases hrun
          refine iff_of_true (hharmless.mpr (accepted_not_leavesMethod hr hresult)) ?_
          exact fun hline => absurd hline (parseHeaders_state _ _)
        · rw [parseRequest_refused hcut hresult] at hrun
          cases hrun
          rw [hharmless, leavesMethod_iff hr hresult, not_not]
          exact ⟨fun hmethod _ => hmethod, fun hunset => hunset rfl⟩
  · have href := parseRequest_refines t c b
    rw [hrun] at href
    refine iff_of_true (fun hline => absurd hline hstate) ?_
    exact fun hline => absurd hline (parse_state hstate href.symm)

theorem Unset.step_iff {c c' : HttpContext} {l : ParserCall} (h : Unset c)
    (hstep : parserCalls.Step c l c') : Harmless c l ↔ Unset c' := by
  cases l with
  | parseRequest b t =>
      obtain ⟨e, hrun, -, rfl⟩ := parserCalls_step.mp hstep
      exact h.parseRequest_iff hrun
  | reset =>
      cases hstep.2
      exact iff_of_true trivial fun _ => rfl

/-- With the method unset no line trips the assertion, and with the method set
one does: a space. -/
theorem neverAsserts_iff (c : HttpContext) : NeverAsserts c ↔ Unset c := by
  obtain ⟨r, state⟩ := c
  constructor
  · rintro hnever hstate
    obtain rfl : state = .kExpectRequestLine := hstate
    by_contra hr
    have hcut : takeLine (Buffer.new.append [32, 13, 10]).readable = some ([32], []) := by
      rw [Buffer.readable_append, Buffer.readable_new]
      decide
    have hspace : (32 : Byte) ∈ [32] := List.mem_singleton_self _
    have hassert := (line_method_set hr hspace).2
    have hrun := parseRequest_refused hcut (by rw [hassert]; simp) ⟨0⟩
    exact hnever rfl _ _ _ hrun hassert
  · rintro hunset hstate b t e hrun herr
    obtain rfl : state = .kExpectRequestLine := hstate
    rcases parseRequest_cases hrun with rfl | ⟨line, rest, -, -, rfl⟩ | ⟨htrue, -⟩
    · cases herr
    · exact line_no_assertion (hunset rfl) line _ herr
    · rw [htrue] at herr
      cases herr

/-- A call at the request line with the method unset leaves everything as it
was if it returns false, unless it meets a wrong version. -/
theorem failsUnchanged_iff {r : HttpRequest} (hr : r.method_ = .kInvalid) (b : Buffer)
    (t : Timestamp) :
    FailsUnchanged ⟨r, .kExpectRequestLine⟩ b t ↔
      NoWrongVersion ⟨r, .kExpectRequestLine⟩ (.parseRequest b t) := by
  constructor
  · rintro hsame - line rest hcut ⟨m, target, v, hwrong⟩
    obtain ⟨hresult, hmethod⟩ := wrongVersion_run hr hwrong
    have hrun := parseRequest_refused hcut (by rw [hresult]; simp) t
    obtain ⟨hcontext, -⟩ := hsame _ hrun hresult
    have hrequest : (parseRequestLine r line).request = r := congrArg HttpContext.request_ hcontext
    rw [hrequest] at hmethod
    exact hmethod hr
  · intro hgood e hrun hfalse
    rcases parseRequest_cases hrun with rfl | ⟨line, rest, hcut, -, rfl⟩ | ⟨htrue, -⟩
    · exact ⟨rfl, rfl⟩
    · rcases refused_cases hr hfalse with hsame | hwrong
      · exact ⟨by rw [hsame], rfl⟩
      · exact absurd hwrong (hgood rfl line rest hcut)
    · rw [htrue] at hfalse
      cases hfalse

/-- Over any calls, returning or throwing, and any resets. At no point of the run
does any buffer trip the assertion of `setMethod` if and only if none of its
calls met a line that leaves its method behind; and then a call at the request
line that returns false has changed neither the context nor the buffer, whatever
the buffer, if and only if it meets no wrong version itself. -/
theorem failed_parse_unchanged {ls : List ParserCall} {c : HttpContext}
    (hrun : parserCalls.Run {} ls c) :
    ((∀ pre post d, ls = pre ++ post → parserCalls.Run {} pre d → NeverAsserts d) ↔
      (parserCalls.restrict Harmless).Run {} ls c) ∧
    ((parserCalls.restrict Harmless).Run {} ls c → c.parseState_ = .kExpectRequestLine →
      ∀ b t, FailsUnchanged c b t ↔ NoWrongVersion c (.parseRequest b t)) := by
  have hnew : Unset {} := fun _ => rfl
  constructor
  · simp only [neverAsserts_iff]
    refine (hrun.restrict_iff (I := fun _ => True) trivial hnew (fun _ _ _ _ _ => trivial) ?_).symm
    exact fun _ _ _ _ h hstep => h.step_iff hstep
  · intro hharmless hstate b t
    have hunset : Unset c := hharmless.invariant hnew fun _ _ _ h hst =>
      (h.step_iff (System.restrict_step.mp hst).1).mp (System.restrict_step.mp hst).2
    obtain ⟨r, state⟩ := c
    subst hstate
    exact failsUnchanged_iff (hunset rfl) b t

/-- A line without a space, refused twice. -/
theorem failed_parse_unchanged_twice :
    parserCalls.Run {} [.parseRequest (Buffer.new.append (ascii ['x', '\r', '\n'])) ⟨0⟩] {} ∧
    NeverAsserts {} ∧ FailsUnchanged {} (Buffer.new.append (ascii ['x', '\r', '\n'])) ⟨1⟩ := by
  have hcut : takeLine (Buffer.new.append (ascii ['x', '\r', '\n'])).readable =
      some (ascii ['x'], []) := by
    rw [Buffer.readable_append, Buffer.readable_new]
    decide
  have hspace : (32 : Byte) ∉ ascii ['x'] := by decide
  have hgood : ¬ LeavesMethod (ascii ['x']) := by
    rintro (⟨m, target, -, -, heq | heq⟩ | ⟨m, target, v, hwrong⟩)
    · exact hspace (by simp [heq])
    · exact hspace (by simp [heq])
    · exact hspace (by simp [hwrong.eq])
  have hcall := parseRequest_refused (r := {}) hcut (by decide) ⟨0⟩
  have hstep : parserCalls.Step {}
      (.parseRequest (Buffer.new.append (ascii ['x', '\r', '\n'])) ⟨0⟩) {} :=
    parserCalls_step.mpr ⟨_, hcall, rfl, rfl⟩
  have hrun := System.Run.cons hstep (.nil _)
  have hharmless : (parserCalls.restrict Harmless).Run {}
      [.parseRequest (Buffer.new.append (ascii ['x', '\r', '\n'])) ⟨0⟩] {} := by
    refine .cons (System.restrict_step.mpr ⟨hstep, ?_⟩) (.nil _)
    rintro - line rest hline
    cases hcut.symm.trans hline
    exact hgood
  obtain ⟨hsafe, hsame⟩ := failed_parse_unchanged hrun
  refine ⟨hrun, hsafe.mpr hharmless _ [] {} (List.append_nil _).symm hrun, ?_⟩
  refine (hsame hharmless rfl _ _).mpr ?_
  rintro - line rest hline hwrong
  cases hcut.symm.trans hline
  exact hgood (.inr hwrong)

/-- `GET / HTTP/2.0` and a line end. -/
def http20Line : Bytes :=
  ascii ['G', 'E', 'T', ' ', '/', ' ', 'H', 'T', 'T', 'P', '/', '2', '.', '0', '\r', '\n']

/-- The first call returns false with the method set, the second one aborts. -/
theorem failed_parse_sets_method :
    ¬ FailsUnchanged {} (Buffer.new.append http20Line) ⟨0⟩ ∧
    ∃ c, parserCalls.Run {} [.parseRequest (Buffer.new.append http20Line) ⟨0⟩] c ∧
      c.parseState_ = .kExpectRequestLine ∧ c.request_.method_ = .kGet ∧
      parserCalls.step c
          (.parseRequest ((Buffer.new.append http20Line).append (ascii ['x'])) ⟨1⟩) =
        .error (.assertion .setMethodInvalid) := by
  have hcut : takeLine (Buffer.new.append http20Line).readable =
      some (http20Line.take 14, []) := by
    rw [Buffer.readable_append, Buffer.readable_new]
    decide
  have hcut' : takeLine ((Buffer.new.append http20Line).append (ascii ['x'])).readable =
      some (http20Line.take 14, ascii ['x']) := by
    rw [Buffer.readable_append, Buffer.readable_append, Buffer.readable_new]
    decide
  have hfalse : (parseRequestLine {} (http20Line.take 14)).result = .ok false := by decide
  have hmethod : (parseRequestLine {} (http20Line.take 14)).request.method_ = .kGet := by decide
  have hcall := parseRequest_refused (r := {}) hcut (by rw [hfalse]; simp) ⟨0⟩
  refine ⟨?_, ⟨(parseRequestLine {} (http20Line.take 14)).request, .kExpectRequestLine⟩,
    .cons ⟨rfl, ?_⟩ (.nil _), rfl, hmethod, ?_⟩
  · intro hsame
    obtain ⟨hcontext, -⟩ := hsame _ hcall hfalse
    have hrequest := congrArg (fun c => c.request_.method_) hcontext
    rw [hmethod] at hrequest
    cases hrequest
  · simp only [parserCalls, hcall, hfalse]
    rfl
  · have hassert : (parseRequestLine (parseRequestLine {} (http20Line.take 14)).request
        (http20Line.take 14)).result = .error (.assertion .setMethodInvalid) := by rfl
    have hagain := parseRequest_refused hcut' (by rw [hassert]; simp) ⟨1⟩
    simp only [parserCalls, hagain, hassert]
    rfl

end Ham.Net
