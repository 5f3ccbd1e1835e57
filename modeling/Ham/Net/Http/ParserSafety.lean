import Ham.Net.Http.RoundTrip

/-!
# The parser on arbitrary input

Two questions about a call of `parseRequest` on bytes nobody vouches for.

* Does it return? On a new context it does unless the request line is cut
  short (`survives_iff`): `GET /` before the first CRLF is enough to make
  `std::string s(start, end - 1)` throw `std::length_error` out of the event
  loop.
* Does its loop end? In every state but `kGotAll` (`terminates_iff`). A caller
  reaches `kGotAll` with the first complete request, and `reset()` does not
  leave it.
-/

namespace Ham.Net

open Ham.Lib HttpContext

/-- A call on a new context returns a boolean, and every range
`parseRequestLine` builds or compares lies in the request line. -/
def Survives (b : Buffer) (t : Timestamp) : Prop :=
  (∃ e ok, parseRequest {} b t = some e ∧ e.result = .ok ok) ∧
  ∀ line rest, takeLine b.readable = some (line, rest) →
    InLine line (parseRequestLine {} line).ranges

/-- The loop of `parseRequest` ends after finitely many passes. -/
def Terminates (c : HttpContext) (b : Buffer) (t : Timestamp) : Prop :=
  ∃ n, (parseLoop t n ⟨c, b, true, true⟩).isSome

/-- A failed `assert` ended the process; an exception can be caught. -/
def ParseExit.aborted (e : ParseExit) : Bool :=
  match e.result with
  | .error (.assertion _) => true
  | _ => false

/-- The contexts a caller can hold. -/
inductive Reachable : HttpContext → Prop
  | new : Reachable {}
  | parse {c : HttpContext} {b : Buffer} {t : Timestamp} {e : ParseExit} :
      Reachable c → parseRequest c b t = some e → Reachable e.context
  | reset {c : HttpContext} : Reachable c → Reachable c.reset

/-! ## Returning -/

theorem parseHeaders_result (r : HttpRequest) (xs : Bytes) :
    (parseHeaders r xs).result = .ok true := by
  unfold parseHeaders
  split <;> rfl

/-- A new context faults on its first line or not at all. -/
theorem parseFirst_result (xs : Bytes) (t : Timestamp) :
    (∃ f, (parseFirst {} xs t).result = .error f) ↔
      ∃ line rest, takeLine xs = some (line, rest) ∧ CutShort line := by
  unfold parseFirst
  cases hcut : takeLine xs with
  | none => simp
  | some cut =>
      obtain ⟨line, rest⟩ := cut
      have hshort := cutShort_iff_error (r := {}) rfl line
      simp only [Option.some.injEq, Prod.mk.injEq]
      constructor
      · rintro ⟨f, hf⟩
        refine ⟨line, rest, ⟨rfl, rfl⟩, hshort.mpr ?_⟩
        rcases hres : (parseRequestLine {} line).result with g | ok
        · exact ⟨g, rfl⟩
        · cases ok <;> simp [hres, parseHeaders_result] at hf
      · rintro ⟨line', rest', ⟨rfl, rfl⟩, hcut'⟩
        obtain ⟨f, hf⟩ := hshort.mp hcut'
        exact ⟨f, by simp [hf]⟩

theorem Survives.not_cutShort {b : Buffer} {t : Timestamp} (h : Survives b t)
    {line rest : Bytes} (hcut : takeLine b.readable = some (line, rest)) : ¬ CutShort line :=
  (ranges_inLine rfl line).mp (h.2 line rest hcut)

theorem survives_iff (b : Buffer) (t : Timestamp) :
    Survives b t ↔ ∀ line rest, takeLine b.readable = some (line, rest) → ¬ CutShort line := by
  obtain ⟨b', hrun, -⟩ := parseRequest_of_parse t (c := {}) (b := b)
    (p := parseFirst {} b.readable t) rfl
  constructor
  · intro h line rest hcut
    exact h.not_cutShort hcut
  · intro hok
    refine ⟨?_, fun line rest hcut => (ranges_inLine rfl line).mpr (hok line rest hcut)⟩
    rcases hres : (parseFirst {} b.readable t).result with f | ok
    · obtain ⟨line, rest, hcut, hshort⟩ := (parseFirst_result b.readable t).mp ⟨f, hres⟩
      exact absurd hshort (hok line rest hcut)
    · exact ⟨_, ok, hrun, hres⟩

/-- `GET /` and a line end. -/
def noVersionLine : Bytes := ascii ['G', 'E', 'T', ' ', '/', '\r', '\n']

theorem not_survives_noVersionLine : ¬ Survives (Buffer.new.append noVersionLine) ⟨0⟩ := by
  intro h
  have hcut : takeLine (Buffer.new.append noVersionLine).readable =
      some (ascii ['G', 'E', 'T', ' ', '/'], []) := by
    rw [Buffer.readable_append, Buffer.readable_new]
    decide
  exact h.not_cutShort hcut ⟨.kGet, ascii ['/'], by decide, by decide, .inl rfl⟩

/-! ## Ending the loop -/

theorem not_terminates_gotAll (r : HttpRequest) (b : Buffer) (t : Timestamp) :
    ¬ Terminates ⟨r, .kGotAll⟩ b t := by
  rintro ⟨n, hn⟩
  rw [parseLoop_gotAll] at hn
  cases hn

theorem terminates_iff (c : HttpContext) (b : Buffer) (t : Timestamp) :
    Terminates c b t ↔ c.gotAll = false := by
  obtain ⟨r, state⟩ := c
  constructor
  · intro hterm
    by_contra hgot
    have hstate : state = .kGotAll := by simpa [gotAll] using hgot
    subst hstate
    exact not_terminates_gotAll r b t hterm
  · intro hgot
    have hstate : state ≠ .kGotAll := by simpa [gotAll] using hgot
    have href := parseLoop_refines t ⟨r, state⟩ b _ (Nat.le_refl _) hstate
    refine ⟨b.readable.length + 3, ?_⟩
    rw [← Option.isSome_map (f := ParseExit.view), href]
    cases state with
    | kGotAll => exact absurd rfl hstate
    | _ => rfl

/-- Some reachable context makes the loop run forever: the one that holds a
complete request, `reset()` or not. -/
theorem not_terminates_after_request :
    ¬ ∀ c, Reachable c → ∀ b t, Terminates c b t := by
  intro h
  have hread : (Buffer.new.append RequestText.root.print).readable = RequestText.root.print := by
    simp
  obtain ⟨b', hrun, -⟩ := RequestText.root.parseRequest_eq hread ⟨0⟩
  have hreach : Reachable (HttpContext.reset ⟨RequestText.root.request ⟨0⟩, .kGotAll⟩) :=
    .reset (.parse .new hrun)
  exact not_terminates_gotAll _ _ _ (h _ hreach Buffer.new ⟨0⟩)

end Ham.Net
