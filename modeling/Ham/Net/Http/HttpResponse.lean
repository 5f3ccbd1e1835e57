import Ham.Net.Buffer
import Ham.Net.Http.HttpRequest

/-!
# `HttpResponse`

The response record the user's callback fills in and its text on the wire.
`readable_appendToBuffer` names the bytes it adds, whatever the buffer held.
-/

namespace Ham.Net

open Ham.Lib

namespace HttpResponse

inductive Version where
  | kUnknownVersion | kHttp10 | kHttp11
  deriving DecidableEq, Repr

inductive StateCode where
  | kUnknown | k200_Ok | k301_MovedPermanently | k400_BadRequest | k404_NotFound
  deriving DecidableEq, Repr

/-- The value of the enumerator. -/
def StateCode.value : StateCode → Nat
  | .kUnknown => 0
  | .k200_Ok => 200
  | .k301_MovedPermanently => 301
  | .k400_BadRequest => 400
  | .k404_NotFound => 404

end HttpResponse

/-- The response, as its constructor leaves it but for `closeConnection_`. No
member function sets `version_`. -/
structure HttpResponse where
  version_ : HttpResponse.Version := .kUnknownVersion
  stateCode_ : HttpResponse.StateCode := .kUnknown
  stateMessage_ : Bytes := []
  body_ : Bytes := []
  closeConnection_ : Bool
  headers_ : HeaderMap := ∅

namespace HttpResponse

def crlf : Bytes := ascii ['\r', '\n']

def contentLengthField : Bytes :=
  ascii ['C', 'o', 'n', 't', 'e', 'n', 't', '-', 'L', 'e', 'n', 'g', 't', 'h']

def connectionField : Bytes := ascii ['C', 'o', 'n', 'n', 'e', 'c', 't', 'i', 'o', 'n']

/-- `snprintf(buf, 32, "Content-Length: %zd\r\n", body_.size())`: at most 31
characters of the text. -/
def contentLength (r : HttpResponse) : Bytes :=
  (ascii ['C', 'o', 'n', 't', 'e', 'n', 't', '-', 'L', 'e', 'n', 'g', 't', 'h', ':', ' '] ++
    decimal r.body_.length ++ crlf).take 31

/-- The status line. Nothing separates the code from the message. -/
def statusPieces (r : HttpResponse) : List Bytes :=
  [ascii ['H', 't', 't', 'p', '/', '1', '.'],
   if r.version_ = .kHttp10 then ascii ['0', ' '] else ascii ['1', ' '],
   decimal r.stateCode_.value, r.stateMessage_, crlf]

/-- The headers the response adds by itself. -/
def connectionPieces (r : HttpResponse) : List Bytes :=
  if r.closeConnection_ then
    [ascii ['C', 'o', 'n', 'n', 'e', 'c', 't', 'i', 'o', 'n', ':', ' ', 'c', 'l', 'o', 's', 'e',
      '\r', '\n']]
  else
    [r.contentLength,
     ascii ['C', 'o', 'n', 'n', 'e', 'c', 't', 'i', 'o', 'n', ':', ' ', 'K', 'e', 'e', 'p', '-',
      'A', 'l', 'i', 'v', 'e', '\r', '\n']]

def headerPieces (header : Bytes × Bytes) : List Bytes :=
  [header.1, ascii [':', ' '], header.2, crlf]

/-- The arguments of the `append` calls of `appendToBuffer`, in order. -/
def pieces (r : HttpResponse) : List Bytes :=
  r.statusPieces ++ r.connectionPieces ++ r.headers_.toList.flatMap headerPieces ++
    [crlf, r.body_]

def appendToBuffer (r : HttpResponse) (outputBuffer : Buffer) : Buffer :=
  r.pieces.foldl Buffer.append outputBuffer

/-- The text of the response. -/
def text (r : HttpResponse) : Bytes := r.pieces.flatten

theorem readable_foldl_append (xss : List Bytes) (b : Buffer) :
    (xss.foldl Buffer.append b).readable = b.readable ++ xss.flatten := by
  induction xss generalizing b with
  | nil => simp
  | cons xs xss ih =>
      rw [List.foldl_cons, ih, Buffer.readable_append, List.flatten_cons, List.append_assoc]

@[simp] theorem readable_appendToBuffer (r : HttpResponse) (b : Buffer) :
    (r.appendToBuffer b).readable = b.readable ++ r.text := readable_foldl_append _ _

end HttpResponse

end Ham.Net
