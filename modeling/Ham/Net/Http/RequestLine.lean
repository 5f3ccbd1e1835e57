import Ham.Net.Http.Parse

/-!
# What `parseRequestLine` does to a line

A line is read from the left: a method up to the first space, a target up to
the second, a version behind it. One lemma for each shape the searches can
meet (`line_without_space`, `line_bad_method`, `line_one_space`,
`line_two_spaces`), with `versioned` and `targeted` naming the fields the last
shape sets.

The line is *cut short* when it names a method but has no byte behind a second
space. Exactly then the code builds a reversed range and throws
(`cutShort_iff_error`); on every other line all its ranges lie in the line
(`ranges_inLine`).
-/

namespace Ham.Net

open Ham.Lib

def http10 : Bytes := ascii ['H', 'T', 'T', 'P', '/', '1', '.', '0']

def http11 : Bytes := ascii ['H', 'T', 'T', 'P', '/', '1', '.', '1']

/-- The version a version text names. -/
def Version.ofBytes (v : Bytes) : Version :=
  if v = http10 then .kHttp10 else if v = http11 then .kHttp11 else .kUnknown

/-- The request with the path and, when the target has a `?`, the query of the
target. -/
def targeted (r : HttpRequest) (target : Bytes) : HttpRequest :=
  if 63 ∈ target then
    { r with path_ := target.take (target.idxOf 63), query_ := target.drop (target.idxOf 63 + 1) }
  else { r with path_ := target }

/-- The request with the version of a version text, if it names one. -/
def versioned (r : HttpRequest) (v : Bytes) : HttpRequest :=
  if Version.ofBytes v = .kUnknown then r else { r with version_ := Version.ofBytes v }

/-- Every range is ordered and ends inside the line. -/
def InLine (line : Bytes) (ranges : List (Nat × Nat)) : Prop :=
  ∀ range ∈ ranges, range.1 ≤ range.2 ∧ range.2 ≤ line.length

theorem InLine.append {line : Bytes} {xs ys : List (Nat × Nat)} (hx : InLine line xs)
    (hy : InLine line ys) : InLine line (xs ++ ys) := by
  intro range hmem
  rcases List.mem_append.mp hmem with h | h
  · exact hx range h
  · exact hy range h

/-- A method and a space, and then no byte behind a second space. -/
def CutShort (line : Bytes) : Prop :=
  ∃ (m : Method) (target : Bytes), m ≠ .kInvalid ∧ 32 ∉ target ∧
    (line = m.toBytes ++ 32 :: target ∨ line = m.toBytes ++ 32 :: (target ++ [32]))

namespace HttpContext

/-! ## Positions -/

theorem findByte_bounds {line : Bytes} {first last : Nat} (c : Byte) (hle : first ≤ last)
    (hlast : last ≤ line.length) :
    first ≤ findByte line first last c ∧ findByte line first last c ≤ last := by
  have hidx := List.idxOf_le_length (a := c) (l := slice line first last)
  rw [length_slice hlast] at hidx
  unfold findByte
  omega

/-- The search of a whole line. -/
theorem findByte_whole (line : Bytes) (c : Byte) :
    findByte line 0 line.length c = line.idxOf c := by
  simp [findByte, slice]

/-- The search of the part behind `front`. -/
theorem findByte_behind (front rest : Bytes) (c : Byte) :
    findByte (front ++ rest) front.length (front ++ rest).length c =
      front.length + rest.idxOf c := by
  simp [findByte, slice]

/-- The search of the middle part. -/
theorem findByte_middle (front mid tail : Bytes) (c : Byte) :
    findByte (front ++ mid ++ tail) front.length (front.length + mid.length) c =
      front.length + mid.idxOf c := by
  rw [findByte, slice_middle]

theorem slice_front (front rest : Bytes) : slice (front ++ rest) 0 front.length = front := by
  simp [slice]

/-! ## The version -/

theorem ofBytes_eq_kHttp10 {v : Bytes} : Version.ofBytes v = .kHttp10 ↔ v = http10 := by
  unfold Version.ofBytes
  split_ifs <;> simp_all

theorem ofBytes_eq_kHttp11 {v : Bytes} : Version.ofBytes v = .kHttp11 ↔ v = http11 := by
  unfold Version.ofBytes
  split_ifs with h₁ h₂
  · simp only [h₁, false_iff]
    decide
  · simp [h₂]
  · simp [h₂]

/-- A text of eight bytes is `HTTP/1.` and its last byte, or no version. -/
theorem version_split {v : Bytes} (hlen : v.length = 8) (last : Byte) :
    v.take 7 = ascii ['H', 'T', 'T', 'P', '/', '1', '.'] ∧ v.getD 7 0 = last ↔
      v = ascii ['H', 'T', 'T', 'P', '/', '1', '.'] ++ [last] := by
  constructor
  · rintro ⟨htake, hlast⟩
    have hdrop : v.drop 7 = [last] := by
      rw [List.drop_eq_getElem_cons (by omega), List.drop_of_length_le (by omega)]
      rw [List.getD_eq_getElem _ _ (by omega)] at hlast
      rw [hlast]
    rw [← List.take_append_drop 7 v, htake, hdrop]
  · rintro rfl
    exact ⟨rfl, rfl⟩

/-- Behind a non-empty version text nothing throws: the text decides. -/
theorem setVersion_text (r : HttpRequest) (front : Bytes) {v : Bytes} (hv : v ≠ [])
    (ranges : List (Nat × Nat)) :
    (setVersion r (front ++ v) front.length ranges).request = versioned r v ∧
    (setVersion r (front ++ v) front.length ranges).result =
      .ok (decide (Version.ofBytes v ≠ .kUnknown)) := by
  have hpos : 0 < v.length := List.length_pos_iff.mpr hv
  have hstop : (front ++ v).length = front.length + v.length := List.length_append
  have hord : ¬ (front ++ v).length - 1 < front.length := by omega
  unfold setVersion
  simp only [if_neg hord]
  by_cases hlen : v.length = 8
  · have height : (front ++ v).length - front.length = 8 := by omega
    have hslice : slice (front ++ v) front.length ((front ++ v).length - 1) = v.take 7 := by
      simp [slice, hlen]
    have hget : (front ++ v).getD ((front ++ v).length - 1) 0 = v.getD 7 0 := by
      rw [hstop, show front.length + v.length - 1 = front.length + 7 by omega,
        List.getD_append_right _ _ _ _ (by omega)]
      simp
    rw [if_pos height, hslice, hget]
    have h10 := version_split hlen 48
    have h11 := version_split hlen 49
    rw [show ascii ['H', 'T', 'T', 'P', '/', '1', '.'] ++ [48] = http10 from rfl] at h10
    rw [show ascii ['H', 'T', 'T', 'P', '/', '1', '.'] ++ [49] = http11 from rfl] at h11
    unfold versioned
    by_cases hfront : v.take 7 = ascii ['H', 'T', 'T', 'P', '/', '1', '.']
    · simp only [hfront, true_and] at h10 h11
      rw [if_pos hfront]
      by_cases hz : v.getD 7 0 = 48
      · have hver := ofBytes_eq_kHttp10.mpr (h10.mp hz)
        simp only [if_pos hz]
        simp [hver]
      · by_cases ho : v.getD 7 0 = 49
        · have hver := ofBytes_eq_kHttp11.mpr (h11.mp ho)
          simp only [if_neg hz, if_pos ho]
          simp [hver]
        · have hver : Version.ofBytes v = .kUnknown := by
            unfold Version.ofBytes
            rw [if_neg (fun h => hz (h10.mpr h)), if_neg (fun h => ho (h11.mpr h))]
          simp only [if_neg hz, if_neg ho]
          simp [hver]
    · simp only [hfront, false_and, false_iff] at h10 h11
      have hver : Version.ofBytes v = .kUnknown := by
        unfold Version.ofBytes
        rw [if_neg h10, if_neg h11]
      simp [hfront, hver]
  · -- any other length is no version
    have hne : (front ++ v).length - front.length ≠ 8 := by omega
    have hver : Version.ofBytes v = .kUnknown := by
      unfold Version.ofBytes
      rw [if_neg (fun h => hlen (by rw [h]; rfl)), if_neg (fun h => hlen (by rw [h]; rfl))]
    simp only [if_neg hne]
    simp [versioned, hver]

/-! ## The target -/

theorem targeted_query (r : HttpRequest) {path : Bytes} (h : 63 ∉ path) (query : Bytes) :
    targeted r (path ++ 63 :: query) = { r with path_ := path, query_ := query } := by
  rw [targeted, if_pos (by simp), idxOf_append_cons h]
  simp

theorem targeted_path (r : HttpRequest) {path : Bytes} (h : 63 ∉ path) :
    targeted r path = { r with path_ := path } := if_neg h

/-- The target between two other parts of the line. -/
theorem setTarget_eq (r : HttpRequest) (front target tail : Bytes) :
    (setTarget r (front ++ target ++ tail) front.length (front.length + target.length)).1 =
      targeted r target := by
  unfold setTarget
  simp only [findByte_middle]
  by_cases hq : 63 ∈ target
  · obtain ⟨hsplit, hpath⟩ := eq_take_idxOf_append hq
    generalize target.take (target.idxOf 63) = path at hsplit hpath
    generalize target.drop (target.idxOf 63 + 1) = query at hsplit
    subst hsplit
    rw [targeted_query r hpath, idxOf_append_cons hpath]
    have hne : front.length + path.length ≠ front.length + (path ++ 63 :: query).length := by
      simp
    have hp := slice_middle front path (63 :: query ++ tail)
    have hs := slice_middle (front ++ path ++ [63]) query tail
    have hsum : front.length + (path ++ 63 :: query).length =
        (front ++ path ++ [63]).length + query.length := by
      simp only [List.length_append, List.length_cons, List.length_nil]
      omega
    rw [if_pos hne, hsum]
    simp only [List.length_append, List.length_singleton, List.append_assoc, List.cons_append,
      List.nil_append] at hp hs ⊢
    rw [hp, Nat.add_assoc front.length path.length 1, hs]
  · rw [List.idxOf_eq_length hq, if_neg (by simp), targeted_path r hq, slice_middle]

/-! ## The four shapes of a line -/

theorem line_without_space (r : HttpRequest) {line : Bytes} (h : 32 ∉ line) :
    parseRequestLine r line = ⟨r, [(0, line.length)], .ok false⟩ := by
  unfold parseRequestLine
  simp only [findByte_whole, List.idxOf_eq_length h, if_true]

section

variable {r : HttpRequest} (hr : r.method_ = .kInvalid)
include hr

theorem line_bad_method {m : Bytes} (hm : 32 ∉ m) (hbad : Method.ofBytes m = .kInvalid)
    (tail : Bytes) :
    parseRequestLine r (m ++ 32 :: tail) =
      ⟨r, [(0, (m ++ 32 :: tail).length), (0, m.length)], .ok false⟩ := by
  have hne : m.length ≠ (m ++ 32 :: tail).length := by simp
  have hsame : { r with method_ := Method.kInvalid } = r := by rw [← hr]
  unfold parseRequestLine
  simp only [findByte_whole, idxOf_append_cons hm, if_neg hne, slice_front]
  rw [HttpRequest.setMethod_of_invalid hr]
  simp [hbad, hsame]

/-- Behind a good method the call goes on with the part after the space. -/
theorem parseRequestLine_method {m : Method} (hm : m ≠ .kInvalid) (tail : Bytes) :
    parseRequestLine r (m.toBytes ++ 32 :: tail) =
      let line := m.toBytes ++ 32 :: tail
      let start := m.toBytes.length + 1
      let ranges := [(0, line.length), (0, m.toBytes.length), (start, line.length)]
      let space := start + tail.idxOf 32
      if space ≠ line.length then
        let target := setTarget { r with method_ := m } line start space
        setVersion target.1 line (space + 1) (ranges ++ target.2)
      else setVersion { r with method_ := m } line (space + 1) ranges := by
  have hspace : 32 ∉ m.toBytes := fun h => absurd (Method.mem_toBytes h).1 (by decide)
  have hne : m.toBytes.length ≠ (m.toBytes ++ 32 :: tail).length := by simp
  have hrest := findByte_behind (m.toBytes ++ [32]) tail 32
  simp only [List.append_assoc, List.singleton_append, List.length_append,
    List.length_singleton] at hrest
  conv_lhs => unfold parseRequestLine
  simp only [findByte_whole, idxOf_append_cons hspace, if_neg hne, slice_front]
  rw [HttpRequest.setMethod_of_invalid hr, Method.ofBytes_toBytes hm]
  simp only [List.length_append, List.length_cons] at hrest ⊢
  simp only [hm, ne_eq, not_false_eq_true, decide_true, hrest]

/-- The method is written before the throw. -/
theorem line_one_space {m : Method} (hm : m ≠ .kInvalid) {target : Bytes} (h : 32 ∉ target) :
    (parseRequestLine r (m.toBytes ++ 32 :: target)).request = { r with method_ := m } ∧
    (parseRequestLine r (m.toBytes ++ 32 :: target)).result = .error .lengthError := by
  rw [parseRequestLine_method hr hm, List.idxOf_eq_length h]
  have hstop : m.toBytes.length + 1 + target.length = (m.toBytes ++ 32 :: target).length := by
    simp only [List.length_append, List.length_cons]
    omega
  simp only [hstop, ne_eq, not_true_eq_false, if_false, setVersion]
  rw [if_pos (by omega)]
  exact ⟨rfl, rfl⟩

/-- Method, target, and everything behind the second space. -/
theorem parseRequestLine_target {m : Method} (hm : m ≠ .kInvalid) {target : Bytes}
    (h : 32 ∉ target) (v : Bytes) :
    ∃ ranges, parseRequestLine r (m.toBytes ++ 32 :: (target ++ 32 :: v)) =
      setVersion (targeted { r with method_ := m } target)
        ((m.toBytes ++ 32 :: (target ++ [32])) ++ v)
        (m.toBytes ++ 32 :: (target ++ [32])).length ranges := by
  rw [parseRequestLine_method hr hm, idxOf_append_cons h]
  have hne : m.toBytes.length + 1 + target.length ≠
      (m.toBytes ++ 32 :: (target ++ 32 :: v)).length := by
    simp only [List.length_append, List.length_cons]
    omega
  have htarget := setTarget_eq { r with method_ := m } (m.toBytes ++ [32]) target (32 :: v)
  have hfront : (m.toBytes ++ 32 :: (target ++ [32])).length =
      m.toBytes.length + 1 + target.length + 1 := by
    simp only [List.length_append, List.length_cons, List.length_nil]
    omega
  simp only [List.length_append, List.length_singleton, List.append_assoc, List.cons_append,
    List.nil_append] at htarget
  simp only [if_pos hne, htarget, hfront, List.append_assoc, List.cons_append, List.nil_append]
  exact ⟨_, rfl⟩

/-- And so is the target. -/
theorem line_trailing_space {m : Method} (hm : m ≠ .kInvalid) {target : Bytes}
    (h : 32 ∉ target) :
    (parseRequestLine r (m.toBytes ++ 32 :: (target ++ [32]))).request =
      targeted { r with method_ := m } target ∧
    (parseRequestLine r (m.toBytes ++ 32 :: (target ++ [32]))).result = .error .lengthError := by
  obtain ⟨ranges, hrun⟩ := parseRequestLine_target hr hm h []
  rw [hrun, List.append_nil, setVersion, if_pos (by simp)]
  exact ⟨rfl, rfl⟩

theorem line_two_spaces {m : Method} (hm : m ≠ .kInvalid) {target : Bytes} (h : 32 ∉ target)
    {v : Bytes} (hv : v ≠ []) :
    (parseRequestLine r (m.toBytes ++ 32 :: (target ++ 32 :: v))).request =
      versioned (targeted { r with method_ := m } target) v ∧
    (parseRequestLine r (m.toBytes ++ 32 :: (target ++ 32 :: v))).result =
      .ok (decide (Version.ofBytes v ≠ .kUnknown)) := by
  obtain ⟨ranges, hrun⟩ := parseRequestLine_target hr hm h v
  rw [hrun]
  exact setVersion_text _ _ hv ranges

end

/-- Every line has one of the four shapes. -/
inductive LineShape : Bytes → Prop
  | noSpace {line : Bytes} : 32 ∉ line → LineShape line
  | badMethod {m tail : Bytes} : 32 ∉ m → Method.ofBytes m = .kInvalid →
      LineShape (m ++ 32 :: tail)
  | oneSpace {m : Method} {target : Bytes} : m ≠ .kInvalid → 32 ∉ target →
      LineShape (m.toBytes ++ 32 :: target)
  | twoSpaces {m : Method} {target v : Bytes} : m ≠ .kInvalid → 32 ∉ target →
      LineShape (m.toBytes ++ 32 :: (target ++ 32 :: v))

theorem lineShape (line : Bytes) : LineShape line := by
  by_cases hspace : 32 ∈ line
  · obtain ⟨hsplit, hfirst⟩ := eq_take_idxOf_append hspace
    rw [hsplit]
    by_cases hbad : Method.ofBytes (line.take (line.idxOf 32)) = .kInvalid
    · exact .badMethod hfirst hbad
    · rw [← Method.toBytes_ofBytes hbad]
      by_cases hsecond : 32 ∈ line.drop (line.idxOf 32 + 1)
      · obtain ⟨hsplit', htarget⟩ := eq_take_idxOf_append hsecond
        rw [hsplit']
        exact .twoSpaces hbad htarget
      · exact .oneSpace hbad hsecond
  · exact .noSpace hspace

/-- The call throws exactly on the lines that are cut short. -/
theorem cutShort_iff_error {r : HttpRequest} (hr : r.method_ = .kInvalid) (line : Bytes) :
    CutShort line ↔ ∃ f, (parseRequestLine r line).result = .error f := by
  constructor
  · rintro ⟨m, target, hm, htarget, rfl | rfl⟩
    · exact ⟨_, (line_one_space hr hm htarget).2⟩
    · exact ⟨_, (line_trailing_space hr hm htarget).2⟩
  · rintro ⟨f, hf⟩
    cases lineShape line with
    | noSpace h =>
        rw [line_without_space r h] at hf
        cases hf
    | badMethod hm hbad =>
        rw [line_bad_method hr hm hbad] at hf
        cases hf
    | oneSpace hm htarget => exact ⟨_, _, hm, htarget, .inl rfl⟩
    | @twoSpaces m target v hm htarget =>
        by_cases hv : v = []
        · subst hv
          exact ⟨m, target, hm, htarget, .inr rfl⟩
        · rw [(line_two_spaces hr hm htarget hv).2] at hf
          cases hf

/-! ## The ranges -/

theorem setTarget_inLine (r : HttpRequest) {line : Bytes} {start space : Nat}
    (hle : start ≤ space) (hspace : space ≤ line.length) :
    InLine line (setTarget r line start space).2 := by
  have hq := findByte_bounds (63 : Byte) hle hspace
  unfold setTarget
  by_cases hne : findByte line start space 63 ≠ space
  · simp only [if_pos hne]
    intro range hmem
    simp only [List.mem_cons, List.not_mem_nil, or_false] at hmem
    rcases hmem with rfl | rfl | rfl <;> dsimp only <;> omega
  · simp only [if_neg hne]
    intro range hmem
    simp only [List.mem_cons, List.not_mem_nil, or_false] at hmem
    rcases hmem with rfl | rfl <;> dsimp only <;> omega

/-- The version part keeps the ranges in the line exactly when it does not
throw. -/
theorem setVersion_inLine (r : HttpRequest) {line : Bytes} (start : Nat)
    {ranges : List (Nat × Nat)} (hranges : InLine line ranges) :
    InLine line (setVersion r line start ranges).ranges ↔
      ∀ f, (setVersion r line start ranges).result ≠ .error f := by
  unfold setVersion
  by_cases hrev : line.length - 1 < start
  · -- the reversed range is on record
    simp only [if_pos hrev]
    refine ⟨fun h => absurd (h (start, line.length - 1) (by simp)).1 ?_, fun h => absurd rfl (h _)⟩
    exact Nat.not_le_of_lt hrev
  · have hok : InLine line [(start, line.length - 1)] := by
      intro range hmem
      rw [List.mem_singleton.mp hmem]
      dsimp only
      omega
    have htwice : InLine line (ranges ++ [(start, line.length - 1), (start, line.length - 1)]) :=
      hranges.append (InLine.append hok hok)
    simp only [if_neg hrev]
    split_ifs <;> simp [htwice, hranges.append hok]

/-- On a new request all ranges lie in the line exactly when the call does not
throw. -/
theorem ranges_inLine {r : HttpRequest} (hr : r.method_ = .kInvalid) (line : Bytes) :
    InLine line (parseRequestLine r line).ranges ↔ ¬ CutShort line := by
  have hspace := findByte_bounds 32 (Nat.zero_le _) (Nat.le_refl line.length)
  rw [cutShort_iff_error hr, not_exists]
  unfold parseRequestLine
  by_cases hnone : findByte line 0 line.length 32 = line.length
  · simp [hnone, InLine]
  · simp only [if_neg hnone, HttpRequest.setMethod_of_invalid hr]
    have hsecond := findByte_bounds 32
      (show findByte line 0 line.length 32 + 1 ≤ line.length by omega) (Nat.le_refl line.length)
    have hfirst : InLine line [(0, line.length), (0, findByte line 0 line.length 32),
        (findByte line 0 line.length 32 + 1, line.length)] := by
      intro range hmem
      simp only [List.mem_cons, List.not_mem_nil, or_false] at hmem
      rcases hmem with rfl | rfl | rfl <;> dsimp only <;> omega
    by_cases hbad : Method.ofBytes (slice line 0 (findByte line 0 line.length 32)) = .kInvalid
    · simp only [hbad, ne_eq, not_true_eq_false, decide_false]
      refine iff_of_true ?_ (by simp)
      intro range hmem
      exact hfirst range (by simp only [List.mem_cons, List.not_mem_nil, or_false] at hmem ⊢; tauto)
    · simp only [hbad, ne_eq, not_false_eq_true, decide_true]
      split_ifs with hend
      · exact setVersion_inLine _ _ hfirst
      · exact setVersion_inLine _ _ (hfirst.append (setTarget_inLine _ hsecond.1 hsecond.2))

end HttpContext

end Ham.Net
