import Ham.Net.Http.RequestLine

/-!
# The grammar of request lines

A request line is a method, a target without spaces and `HTTP/1.0` or
`HTTP/1.1`, with a space between each two. `parseRequestLine` accepts these
lines (`requestLine_run`) and no others (`isRequestLine_of_accepted`), and what
it stores are the parts of the line.
-/

namespace Ham.Net

open Ham.Lib HttpContext

/-- `M SP target SP HTTP/1.d`. -/
def requestLine (m : Method) (target : Bytes) (d : Byte) : Bytes :=
  m.toBytes ++ 32 :: (target ++ 32 :: (ascii ['H', 'T', 'T', 'P', '/', '1', '.'] ++ [d]))

/-- The line is the request line of these parts. -/
structure IsRequestLine (m : Method) (target : Bytes) (d : Byte) (line : Bytes) : Prop where
  method : m ≠ .kInvalid
  no_space : 32 ∉ target
  digit : d = 48 ∨ d = 49
  eq : line = requestLine m target d

/-- The version a digit names. -/
def Version.ofDigit (d : Byte) : Version := if d = 48 then .kHttp10 else .kHttp11

/-- The version texts are `HTTP/1.` and a digit. -/
theorem version_known_iff {v : Bytes} :
    Version.ofBytes v ≠ .kUnknown ↔
      ∃ d, (d = 48 ∨ d = 49) ∧ v = ascii ['H', 'T', 'T', 'P', '/', '1', '.'] ++ [d] := by
  constructor
  · intro hknown
    cases hver : Version.ofBytes v with
    | kUnknown => exact absurd hver hknown
    | kHttp10 => exact ⟨48, .inl rfl, ofBytes_eq_kHttp10.mp hver⟩
    | kHttp11 => exact ⟨49, .inr rfl, ofBytes_eq_kHttp11.mp hver⟩
  · rintro ⟨d, rfl | rfl, rfl⟩
    · decide
    · decide

theorem ofBytes_digit {d : Byte} (h : d = 48 ∨ d = 49) :
    Version.ofBytes (ascii ['H', 'T', 'T', 'P', '/', '1', '.'] ++ [d]) = Version.ofDigit d := by
  rcases h with rfl | rfl
  · decide
  · decide

/-- The path is the target up to its first `?`, the query what follows; without
a `?` the old query stays. -/
theorem targeted_eq (r : HttpRequest) (target : Bytes) :
    targeted r target = { r with
      path_ := target.takeWhile (· ≠ 63)
      query_ := if 63 ∈ target then (target.dropWhile (· ≠ 63)).tail else r.query_ } := by
  by_cases hq : 63 ∈ target
  · obtain ⟨hsplit, hpath⟩ := eq_take_idxOf_append hq
    generalize target.take (target.idxOf 63) = path at hsplit hpath
    generalize target.drop (target.idxOf 63 + 1) = query at hsplit
    subst hsplit
    rw [targeted_query r hpath, if_pos hq, takeWhile_ne hpath, dropWhile_ne hpath, List.tail_cons]
  · have hall : ∀ c ∈ target, decide (c ≠ 63) = true := by
      intro c hc
      exact decide_eq_true fun h => hq (h ▸ hc)
    rw [targeted_path r hq, if_neg hq, List.takeWhile_eq_self_iff.mpr hall]

section

variable {r : HttpRequest} (hr : r.method_ = .kInvalid)
include hr

/-- A request line is accepted, and its parts are stored. -/
theorem requestLine_run {m : Method} {target line : Bytes} {d : Byte}
    (h : IsRequestLine m target d line) :
    (parseRequestLine r line).result = .ok true ∧
    (parseRequestLine r line).request = { r with
      method_ := m
      path_ := target.takeWhile (· ≠ 63)
      query_ := if 63 ∈ target then (target.dropWhile (· ≠ 63)).tail else r.query_
      version_ := Version.ofDigit d } := by
  obtain ⟨hm, htarget, hd, rfl⟩ := h
  obtain ⟨hrequest, hresult⟩ := line_two_spaces hr hm htarget
    (v := ascii ['H', 'T', 'T', 'P', '/', '1', '.'] ++ [d]) (by simp)
  have hknown := version_known_iff.mpr ⟨d, hd, rfl⟩
  refine ⟨?_, ?_⟩
  · rw [requestLine, hresult, decide_eq_true hknown]
  · rw [requestLine, hrequest, versioned, if_neg hknown, targeted_eq, ofBytes_digit hd]

/-- What is accepted is a request line. -/
theorem isRequestLine_of_accepted {line : Bytes}
    (h : (parseRequestLine r line).result = .ok true) :
    ∃ m target d, IsRequestLine m target d line := by
  cases lineShape line with
  | noSpace hspace =>
      rw [line_without_space r hspace] at h
      cases h
  | badMethod hm hbad =>
      rw [line_bad_method hr hm hbad] at h
      cases h
  | oneSpace hm htarget =>
      rw [(line_one_space hr hm htarget).2] at h
      cases h
  | @twoSpaces m target v hm htarget =>
      by_cases hv : v = []
      · subst hv
        rw [(line_trailing_space hr hm htarget).2] at h
        cases h
      · rw [(line_two_spaces hr hm htarget hv).2] at h
        have hknown := of_decide_eq_true (Except.ok.inj h)
        obtain ⟨d, hd, rfl⟩ := version_known_iff.mp hknown
        exact ⟨m, target, d, hm, htarget, hd, rfl⟩

/-- `parseRequestLine` returns true exactly on the request lines, and then the
request has the method, the path, the query and the version of the line. -/
theorem requestLine_grammar (line : Bytes) :
    ((parseRequestLine r line).result = .ok true ↔
      ∃ m target d, IsRequestLine m target d line) ∧
    ∀ m target d, IsRequestLine m target d line →
      (parseRequestLine r line).request = { r with
        method_ := m
        path_ := target.takeWhile (· ≠ 63)
        query_ := if 63 ∈ target then (target.dropWhile (· ≠ 63)).tail else r.query_
        version_ := Version.ofDigit d } := by
  refine ⟨⟨isRequestLine_of_accepted hr, ?_⟩, ?_⟩
  · rintro ⟨m, target, d, h⟩
    exact (requestLine_run hr h).1
  · intro m target d h
    exact (requestLine_run hr h).2

end

/-- `GET /a?b?c HTTP/1.0` on a new request. -/
theorem requestLine_grammar_get :
    (parseRequestLine {} (requestLine .kGet (ascii ['/', 'a', '?', 'b', '?', 'c']) 48)).request =
      { method_ := .kGet, path_ := ascii ['/', 'a'], query_ := ascii ['b', '?', 'c'],
        version_ := .kHttp10 } := by
  have hline : IsRequestLine .kGet (ascii ['/', 'a', '?', 'b', '?', 'c']) 48
      (requestLine .kGet (ascii ['/', 'a', '?', 'b', '?', 'c']) 48) :=
    ⟨by decide, by decide, .inl rfl, rfl⟩
  exact (requestLine_grammar rfl _).2 _ _ _ hline

end Ham.Net
