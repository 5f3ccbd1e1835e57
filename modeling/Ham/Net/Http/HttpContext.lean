import Ham.Net.Buffer
import Ham.Net.Http.HttpRequest

/-!
# `HttpContext`

The incremental request parser. `parseRequestLine` is translated with every
character range it hands to the standard library on record, since a reversed
range is what makes `std::string` throw; `parseRequest` is its `while(hasMore)`
loop, one `parseIteration` per pass, under a bound on the number of passes
that `Ham.Net.Http.Parse` shows to be no restriction.
-/

namespace Ham.Net

open Ham.Lib

inductive ParseState where
  | kExpectRequestLine | kExpectHeaders | kExpectBody | kGotAll
  deriving DecidableEq, Repr

/-- `HttpContext`, with the values of its constructor. -/
structure HttpContext where
  request_ : HttpRequest := {}
  parseState_ : ParseState := .kExpectRequestLine
  deriving DecidableEq

/-- What a call of `parseRequestLine` leaves behind: the request with the
fields written before it stopped, the ranges `[first, last)` it handed to the
standard library, as offsets into the line, and how it ended. -/
structure LineRun where
  request : HttpRequest
  ranges : List (Nat × Nat)
  result : Except Fault Bool

/-- Where a call of `parseRequest` ends. -/
structure ParseExit where
  context : HttpContext
  inputBuffer : Buffer
  result : Except Fault Bool

/-- The objects and local variables of `parseRequest` between two passes. -/
structure ParseVars where
  context : HttpContext
  inputBuffer : Buffer
  hasMore : Bool
  okWithRequestLine : Bool

/-- `std::find(first, last, c)`: `last` when `c` does not occur. -/
def findByte (line : Bytes) (first last : Nat) (c : Byte) : Nat :=
  first + (slice line first last).idxOf c

namespace HttpContext

def gotAll (c : HttpContext) : Bool := c.parseState_ = .kGotAll

/-- `reset()`: the request is swapped with a new one, the parse state is left
alone. -/
def reset (c : HttpContext) : HttpContext := { c with request_ := (c.request_.swap {}).1 }

/-- The query and path part of `parseRequestLine`, for a target between
`start` and the second space. -/
def setTarget (r : HttpRequest) (line : Bytes) (start space : Nat) :
    HttpRequest × List (Nat × Nat) :=
  let question := findByte line start space 63
  if question ≠ space then
    ({ r with query_ := slice line (question + 1) space, path_ := slice line start question },
     [(start, space), (question + 1, space), (start, question)])
  else
    ({ r with path_ := slice line start question }, [(start, space), (start, question)])

/-- The version part of `parseRequestLine`, from behind the second space on.
`std::string s(start, end - 1)` comes first and throws on a reversed range. -/
def setVersion (r : HttpRequest) (line : Bytes) (start : Nat) (ranges : List (Nat × Nat)) :
    LineRun :=
  let stop := line.length
  if stop - 1 < start then ⟨r, ranges ++ [(start, stop - 1)], .error .lengthError⟩
  else if stop - start = 8 then
    let ranges := ranges ++ [(start, stop - 1), (start, stop - 1)]
    if slice line start (stop - 1) = ascii ['H', 'T', 'T', 'P', '/', '1', '.'] then
      if line.getD (stop - 1) 0 = 48 then ⟨{ r with version_ := .kHttp10 }, ranges, .ok true⟩
      else if line.getD (stop - 1) 0 = 49 then ⟨{ r with version_ := .kHttp11 }, ranges, .ok true⟩
      else ⟨r, ranges, .ok false⟩
    else ⟨r, ranges, .ok false⟩
  else ⟨r, ranges ++ [(start, stop - 1)], .ok false⟩

/-- `parseRequestLine(begin, end)` on the line between the two pointers. When
there is no second space, `start` still moves to `end + 1`. -/
def parseRequestLine (r : HttpRequest) (line : Bytes) : LineRun :=
  let stop := line.length
  let space := findByte line 0 stop 32
  if space = stop then ⟨r, [(0, stop)], .ok false⟩
  else
    match r.setMethod (slice line 0 space) with
    | .error f => ⟨r, [(0, stop), (0, space)], .error f⟩
    | .ok (false, r) => ⟨r, [(0, stop), (0, space)], .ok false⟩
    | .ok (true, r) =>
        let start := space + 1
        let ranges := [(0, stop), (0, space), (start, stop)]
        let space := findByte line start stop 32
        if space ≠ stop then
          let target := setTarget r line start space
          setVersion target.1 line (space + 1) (ranges ++ target.2)
        else
          setVersion r line (space + 1) ranges

/-- One pass through the body of the loop: the next values of the variables,
or the exit taken from inside the body. -/
def parseIteration (receiveTime : Timestamp) (v : ParseVars) : ParseVars ⊕ ParseExit :=
  match v.context.parseState_ with
  | .kExpectRequestLine =>
      match v.inputBuffer.findCRLF with
      | none => .inr ⟨v.context, v.inputBuffer, .ok false⟩
      | some crlf =>
          let run := parseRequestLine v.context.request_
            (slice v.inputBuffer.buffer_ v.inputBuffer.peek crlf)
          let context := { v.context with request_ := run.request }
          match run.result with
          | .error f => .inr ⟨context, v.inputBuffer, .error f⟩
          | .ok false => .inl ⟨context, v.inputBuffer, false, false⟩
          | .ok true =>
              let request := { run.request with receiveTime_ := receiveTime }
              match v.inputBuffer.retrieveUtil (crlf + 2) with
              | .error f => .inr ⟨{ context with request_ := request }, v.inputBuffer, .error f⟩
              | .ok inputBuffer =>
                  .inl ⟨⟨request, .kExpectHeaders⟩, inputBuffer, v.hasMore, true⟩
  | .kExpectHeaders =>
      match v.inputBuffer.findCRLF with
      | none => .inl { v with hasMore := false }
      | some crlf =>
          let line := slice v.inputBuffer.buffer_ v.inputBuffer.peek crlf
          let colon := line.idxOf 58
          let context : HttpContext :=
            if colon ≠ line.length then
              { v.context with request_ := v.context.request_.addHeader line colon }
            else { v.context with parseState_ := .kExpectBody }
          match v.inputBuffer.retrieveUtil (crlf + 2) with
          | .error f => .inr ⟨context, v.inputBuffer, .error f⟩
          | .ok inputBuffer => .inl { v with context := context, inputBuffer := inputBuffer }
  | .kExpectBody =>
      let body := v.inputBuffer.retrieveAllAsString
      .inl { v with
        context := ⟨{ v.context.request_ with body_ := body.1 }, .kGotAll⟩
        inputBuffer := body.2
        hasMore := false }
  | .kGotAll => .inl v

/-- `while(hasMore)`, cut off after `n` evaluations of its condition: `none`
means that the loop is still running. -/
def parseLoop (receiveTime : Timestamp) : Nat → ParseVars → Option ParseExit
  | 0, _ => none
  | n + 1, v =>
      if v.hasMore then
        match parseIteration receiveTime v with
        | .inl v' => parseLoop receiveTime n v'
        | .inr e => some e
      else some ⟨v.context, v.inputBuffer, .ok v.okWithRequestLine⟩

/-- `parseRequest`. Each pass but the last two removes a line, so this bound
is never what ends the loop (`parseLoop_refines`). -/
def parseRequest (c : HttpContext) (inputBuffer : Buffer) (receiveTime : Timestamp) :
    Option ParseExit :=
  parseLoop receiveTime (inputBuffer.readableBytes + 3) ⟨c, inputBuffer, true, true⟩

end HttpContext

end Ham.Net
