import Ham.Base.Types
import Ham.Lib.Memory
import Ham.Lib.Scan

/-!
# `HttpRequest`

The request record the parser fills in. A `std::string(first, last)` argument
pair is a `slice` of the line it points into.
-/

namespace Ham.Net

open Ham.Lib

inductive Method where
  | kInvalid | kGet | kPost | kHead | kPut | kDelete
  deriving DecidableEq, Repr

inductive Version where
  | kUnknown | kHttp10 | kHttp11
  deriving DecidableEq, Repr

/-- `std::map<std::string, std::string>`. -/
abbrev HeaderMap := Std.ExtTreeMap Bytes Bytes compare

structure HttpRequest where
  method_ : Method := .kInvalid
  version_ : Version := .kUnknown
  receiveTime_ : Timestamp := ⟨0⟩
  path_ : Bytes := []
  query_ : Bytes := []
  body_ : Bytes := []
  headers_ : HeaderMap := ∅
  deriving DecidableEq

/-- `isspace` in the "C" locale. -/
def isspace (c : Byte) : Bool := c = 32 ∨ (9 ≤ c ∧ c ≤ 13)

/-- The text of a method on the wire (`methodToString`). -/
def Method.toBytes : Method → Bytes
  | .kGet => ascii ['G', 'E', 'T']
  | .kPost => ascii ['P', 'O', 'S', 'T']
  | .kHead => ascii ['H', 'E', 'A', 'D']
  | .kPut => ascii ['P', 'U', 'T']
  | .kDelete => ascii ['D', 'E', 'L', 'E', 'T', 'E']
  | .kInvalid => ascii ['U', 'N', 'K', 'N', 'O', 'W', 'N']

/-- The comparison chain of `setMethod`. -/
def Method.ofBytes (m : Bytes) : Method :=
  if m = ascii ['G', 'E', 'T'] then .kGet
  else if m = ascii ['P', 'O', 'S', 'T'] then .kPost
  else if m = ascii ['H', 'E', 'A', 'D'] then .kHead
  else if m = ascii ['P', 'U', 'T'] then .kPut
  else if m = ascii ['D', 'E', 'L', 'E', 'T', 'E'] then .kDelete
  else .kInvalid

theorem Method.ofBytes_toBytes {m : Method} (h : m ≠ .kInvalid) : ofBytes m.toBytes = m := by
  cases m with
  | kInvalid => exact absurd rfl h
  | _ => decide

theorem Method.toBytes_ofBytes {text : Bytes} (h : ofBytes text ≠ .kInvalid) :
    (ofBytes text).toBytes = text := by
  unfold ofBytes at h ⊢
  split_ifs at h ⊢ with h₁ h₂ h₃ h₄ h₅
  · exact h₁.symm
  · exact h₂.symm
  · exact h₃.symm
  · exact h₄.symm
  · exact h₅.symm
  · exact absurd rfl h

/-- No method name contains a byte that is not an upper-case letter. -/
theorem Method.mem_toBytes {m : Method} {c : Byte} (h : c ∈ m.toBytes) : 65 ≤ c ∧ c ≤ 90 := by
  have hall : m.toBytes.all (fun c => 65 ≤ c ∧ c ≤ 90) = true := by
    cases m <;> decide
  simpa using List.all_eq_true.mp hall c h

namespace HttpRequest

/-- `setMethod(start, end)` on the text of the range. -/
def setMethod (r : HttpRequest) (m : Bytes) : Except Fault (Bool × HttpRequest) := do
  assert (r.method_ = .kInvalid) .setMethodInvalid
  let r := { r with method_ := Method.ofBytes m }
  return (decide (r.method_ ≠ .kInvalid), r)

/-- `addHeader(start, colon, end)` on the line of the range; `colon` is the
position of the first colon. -/
def addHeader (r : HttpRequest) (line : Bytes) (colon : Nat) : HttpRequest :=
  let field := slice line 0 colon
  let value := trim isspace (slice line (colon + 1) line.length)
  { r with headers_ := r.headers_.insert field value }

def getHeader (r : HttpRequest) (field : Bytes) : Bytes := (r.headers_[field]?).getD []

/-- `swap`: method, version, path, receive time and headers change places;
`query_` and `body_` stay. -/
def swap (r that : HttpRequest) : HttpRequest × HttpRequest :=
  ({ that with query_ := r.query_, body_ := r.body_ },
   { r with query_ := that.query_, body_ := that.body_ })

theorem setMethod_of_invalid {r : HttpRequest} (h : r.method_ = .kInvalid) (m : Bytes) :
    r.setMethod m = .ok (decide (Method.ofBytes m ≠ .kInvalid),
      { r with method_ := Method.ofBytes m }) := by
  rw [setMethod, assert_pos h]
  rfl

/-- A header line `name ':' padding value padding` stores exactly the value. -/
theorem addHeader_padded (r : HttpRequest) {name left value right : Bytes}
    (hname : 58 ∉ name) (hleft : ∀ c ∈ left, isspace c = true)
    (hright : ∀ c ∈ right, isspace c = true)
    (hhead : ∀ c ∈ value.head?, isspace c = false)
    (hlast : ∀ c ∈ value.getLast?, isspace c = false) :
    r.addHeader (name ++ 58 :: (left ++ value ++ right))
        ((name ++ 58 :: (left ++ value ++ right)).idxOf 58) =
      { r with headers_ := r.headers_.insert name value } := by
  have hvalue := slice_middle (name ++ [(58 : Byte)]) (left ++ value ++ right) []
  have hfield := slice_middle [] name (58 :: (left ++ value ++ right))
  simp only [List.append_nil, List.nil_append, List.length_nil, Nat.zero_add,
    List.length_append, List.length_singleton, List.append_assoc, List.singleton_append]
    at hvalue hfield
  have hstop : (name ++ 58 :: (left ++ (value ++ right))).length =
      name.length + 1 + (left.length + (value.length + right.length)) := by
    simp only [List.length_append, List.length_cons]
    omega
  have htrim := trim_padded isspace hleft hright hhead hlast
  simp only [List.append_assoc] at htrim ⊢
  rw [idxOf_append_cons hname, addHeader, hstop, hvalue, hfield, htrim]

end HttpRequest

end Ham.Net
