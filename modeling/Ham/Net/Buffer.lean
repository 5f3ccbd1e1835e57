import Ham.Base.Types
import Ham.Lib.Memory
import Ham.Lib.Scan

/-!
# `Buffer`

`RawBuffer` is the class as the source has it: a vector and two indices, with
every operation translated line by line, assertions included. Pointers into
the vector are offsets from `begin()`.

The abstract view of a buffer is the byte list between the two indices
(`readable`). `Wf` is the representation invariant; under it no operation
faults outside its documented precondition, `append` adds at the back,
`prepend` at the front, `retrieve` drops from the front, and the reserve
operations change nothing a reader can see. `Buffer` packages a `RawBuffer`
with its invariant, which is the type the rest of the development holds.
-/

namespace Ham.Net

open Ham.Lib

/-- The private data of class `Buffer`. -/
structure RawBuffer where
  buffer_ : Bytes
  readIndex_ : Nat
  writeIndex_ : Nat
  deriving DecidableEq, Repr

namespace RawBuffer

def kInitialSize : Nat := 1024

def kCheapPrepend : Nat := 8

/-- `"\r\n"`. -/
def kCRLF : Bytes := [13, 10]

/-- `Buffer::Buffer()`. -/
def new : RawBuffer where
  buffer_ := List.replicate (kInitialSize + kCheapPrepend) 0
  readIndex_ := kCheapPrepend
  writeIndex_ := kCheapPrepend

def readableBytes (b : RawBuffer) : Nat := b.writeIndex_ - b.readIndex_

def writableBytes (b : RawBuffer) : Nat := b.buffer_.length - b.writeIndex_

def prependableBytes (b : RawBuffer) : Nat := b.readIndex_

def peek (b : RawBuffer) : Nat := b.readIndex_

def beginWrite (b : RawBuffer) : Nat := b.writeIndex_

/-- `findCRLF(start)`; `none` is `nullptr`. -/
def findCRLFFrom (b : RawBuffer) (start : Nat) : Except Fault (Option Nat) := do
  assert (b.peek ≤ start ∧ start ≤ b.beginWrite) .findCRLFRange
  let crlf := start + search kCRLF (slice b.buffer_ start b.beginWrite)
  return if crlf = b.beginWrite then none else some crlf

/-- `findCRLF()`. -/
def findCRLF (b : RawBuffer) : Except Fault (Option Nat) := b.findCRLFFrom b.peek

def retrieveAll (b : RawBuffer) : RawBuffer :=
  { b with readIndex_ := kCheapPrepend, writeIndex_ := kCheapPrepend }

def retrieve (b : RawBuffer) (len : Nat) : Except Fault RawBuffer := do
  assert (len ≤ b.readableBytes) .retrieveLength
  return if len < b.readableBytes then { b with readIndex_ := b.readIndex_ + len }
    else b.retrieveAll

def retrieveUtil (b : RawBuffer) (stop : Nat) : Except Fault RawBuffer := do
  assert (b.peek ≤ stop ∧ stop ≤ b.beginWrite) .retrieveUtilRange
  b.retrieve (stop - b.peek)

def retrieveAsString (b : RawBuffer) (len : Nat) : Except Fault (Bytes × RawBuffer) := do
  assert (len ≤ b.readableBytes) .retrieveLength
  let res := slice b.buffer_ b.peek (b.peek + len)
  let b ← b.retrieve len
  return (res, b)

def retrieveAllAsString (b : RawBuffer) : Except Fault (Bytes × RawBuffer) :=
  b.retrieveAsString b.readableBytes

/-- Grow the vector, or slide the readable bytes down to the headroom. The
ranges of the slide overlap; `std::copy` runs forward and the target lies
below the source, so it copies the old contents. -/
def makeSpace (b : RawBuffer) (len : Nat) : Except Fault RawBuffer := do
  if b.writableBytes + b.prependableBytes < len + kCheapPrepend then
    return { b with buffer_ := resize 0 b.buffer_ (b.writeIndex_ + len) }
  else
    assert (kCheapPrepend < b.readIndex_) .makeSpaceHeadroom
    let readable := b.readableBytes
    let moved : RawBuffer :=
      { buffer_ := overwrite b.buffer_ kCheapPrepend
          (slice b.buffer_ b.readIndex_ b.writeIndex_)
        readIndex_ := kCheapPrepend
        writeIndex_ := kCheapPrepend + readable }
    assert (readable = moved.readableBytes) .makeSpaceReadable
    return moved

def ensureWritableBytes (b : RawBuffer) (len : Nat) : Except Fault RawBuffer := do
  let b ← if b.writableBytes < len then b.makeSpace len else .ok b
  assert (len ≤ b.writableBytes) .ensureWritable
  return b

/-- `append(data, len)`: all three overloads end here. -/
def append (b : RawBuffer) (data : Bytes) : Except Fault RawBuffer := do
  let b ← b.ensureWritableBytes data.length
  return { b with
    buffer_ := overwrite b.buffer_ b.beginWrite data
    writeIndex_ := b.writeIndex_ + data.length }

def prepend (b : RawBuffer) (data : Bytes) : Except Fault RawBuffer := do
  assert (data.length ≤ b.prependableBytes) .prependLength
  let readIndex := b.readIndex_ - data.length
  return { b with
    buffer_ := overwrite b.buffer_ readIndex data
    readIndex_ := readIndex }

/-- `shrink(reserve)`, ending in `swap(other)`. -/
def shrink (b : RawBuffer) (reserve : Nat) : Except Fault RawBuffer := do
  let curReadableBytes := b.readableBytes
  let other ← new.ensureWritableBytes (curReadableBytes + reserve)
  other.append (slice b.buffer_ b.peek (b.peek + curReadableBytes))

/-- `readFd` when `readv` delivers the stream bytes `data`: the writable tail
is filled first, what is left over sits in `extraBuf` and is appended. -/
def readFd (b : RawBuffer) (data : Bytes) : Except Fault RawBuffer :=
  let writable := b.writableBytes
  if data.length ≤ writable then
    .ok { b with
      buffer_ := overwrite b.buffer_ b.beginWrite data
      writeIndex_ := b.writeIndex_ + data.length }
  else
    let filled : RawBuffer := { b with
      buffer_ := overwrite b.buffer_ b.beginWrite (data.take writable)
      writeIndex_ := b.buffer_.length }
    filled.append (data.drop writable)

/-! ## The representation invariant and the abstract view -/

/-- `readIndex_ <= writeIndex_ <= buffer_.size()`, and a vector that still has
room for the headroom `retrieveAll` goes back to. -/
structure Wf (b : RawBuffer) : Prop where
  ordered : b.readIndex_ ≤ b.writeIndex_
  bounded : b.writeIndex_ ≤ b.buffer_.length
  headroom : kCheapPrepend ≤ b.buffer_.length

instance (b : RawBuffer) : Decidable b.Wf :=
  decidable_of_iff (b.readIndex_ ≤ b.writeIndex_ ∧ b.writeIndex_ ≤ b.buffer_.length ∧
    kCheapPrepend ≤ b.buffer_.length) ⟨fun h => ⟨h.1, h.2.1, h.2.2⟩, fun h => ⟨h.1, h.2, h.3⟩⟩

/-- The bytes a reader can see. -/
def readable (b : RawBuffer) : Bytes := slice b.buffer_ b.readIndex_ b.writeIndex_

theorem Wf.length_readable {b : RawBuffer} (h : b.Wf) :
    b.readable.length = b.readableBytes := length_slice h.bounded

/-- The vector is headroom, readable bytes, writable tail. -/
theorem Wf.split {b : RawBuffer} (h : b.Wf) :
    ∃ front tail, b.buffer_ = front ++ b.readable ++ tail ∧ front.length = b.readIndex_ ∧
      front.length + b.readable.length = b.writeIndex_ := by
  obtain ⟨front, tail, hsplit, hfront⟩ := exists_split h.ordered h.bounded
  refine ⟨front, tail, hsplit, hfront, ?_⟩
  have hord := h.ordered
  rw [hfront, h.length_readable, readableBytes]
  omega

/-- A buffer given by its three parts. -/
theorem of_split {b : RawBuffer} {front data tail : Bytes}
    (hbuf : b.buffer_ = front ++ data ++ tail) (hread : b.readIndex_ = front.length)
    (hwrite : b.writeIndex_ = front.length + data.length)
    (hroom : kCheapPrepend ≤ b.buffer_.length) : b.Wf ∧ b.readable = data := by
  refine ⟨⟨by omega, ?_, hroom⟩, ?_⟩
  · rw [hbuf, hwrite]
    simp
  · rw [readable, hbuf, hread, hwrite]
    exact slice_middle front data tail

theorem new_wf : new.Wf := by
  have hlen : new.buffer_.length = kInitialSize + kCheapPrepend := List.length_replicate
  constructor
  · exact Nat.le_refl _
  · rw [hlen]
    exact Nat.le_add_left kCheapPrepend kInitialSize
  · rw [hlen]
    exact Nat.le_add_left kCheapPrepend kInitialSize

theorem new_readable : new.readable = [] := by
  simp [readable, new, slice]

/-! ## What each operation does -/

/-- `findCRLF` is the cut of the readable bytes at their first CRLF. -/
theorem findCRLF_eq {b : RawBuffer} (h : b.Wf) :
    b.findCRLF = .ok ((cutAt 13 10 b.readable).map fun cut => b.peek + cut.1.length) := by
  have hlen := h.length_readable
  have hord := h.ordered
  have hsearch := search_eq_cutAt (13 : Byte) 10 b.readable
  have hfind : b.findCRLF = .ok (if b.readIndex_ + search [13, 10] b.readable = b.writeIndex_
      then none else some (b.readIndex_ + search [13, 10] b.readable)) := by
    rw [findCRLF, findCRLFFrom, assert_pos ⟨Nat.le_refl _, hord⟩]
    rfl
  rw [hfind, hsearch]
  simp only [readableBytes] at hlen
  cases hcut : cutAt 13 10 b.readable with
  | none =>
      have : b.readIndex_ + b.readable.length = b.writeIndex_ := by omega
      simp [this]
  | some cut =>
      obtain ⟨hsplit, -⟩ : b.readable = cut.1 ++ 13 :: 10 :: cut.2 ∧ Free 13 10 cut.1 :=
        cutAt_eq_some hcut
      have hline : cut.1.length + 2 ≤ b.readable.length := by
        rw [hsplit]
        simp
      have : b.readIndex_ + cut.1.length ≠ b.writeIndex_ := by omega
      simp [this, peek]

theorem retrieveAll_spec {b : RawBuffer} (h : b.Wf) :
    b.retrieveAll.Wf ∧ b.retrieveAll.readable = [] := by
  refine ⟨⟨Nat.le_refl _, h.headroom, h.headroom⟩, ?_⟩
  simp [readable, retrieveAll, slice]

theorem retrieve_spec {b : RawBuffer} (h : b.Wf) {len : Nat}
    (hlen : len ≤ b.readable.length) :
    ∃ b', b.retrieve len = .ok b' ∧ b'.Wf ∧ b'.readable = b.readable.drop len := by
  rw [h.length_readable] at hlen
  rw [retrieve, assert_pos hlen]
  simp only [ok_bind, pure_eq_ok, Except.ok.injEq, exists_eq_left']
  have hord := h.ordered
  by_cases hlt : len < b.readableBytes
  · rw [if_pos hlt]
    simp only [readableBytes] at hlt
    refine ⟨⟨?_, h.bounded, h.headroom⟩, ?_⟩
    · show b.readIndex_ + len ≤ b.writeIndex_
      omega
    · simp only [readable, slice, List.drop_take, List.drop_drop]
      congr 1
      omega
  · rw [if_neg hlt]
    obtain ⟨hwf, hnil⟩ := retrieveAll_spec h
    refine ⟨hwf, ?_⟩
    rw [hnil, List.drop_of_length_le (by rw [h.length_readable]; omega)]

theorem retrieveUtil_spec {b : RawBuffer} (h : b.Wf) {len : Nat}
    (hlen : len ≤ b.readable.length) :
    ∃ b', b.retrieveUtil (b.peek + len) = .ok b' ∧ b'.Wf ∧
      b'.readable = b.readable.drop len := by
  have hle := hlen
  rw [h.length_readable, readableBytes] at hle
  have hord := h.ordered
  rw [retrieveUtil, assert_pos (by simp only [peek, beginWrite]; omega), ok_bind,
    Nat.add_sub_cancel_left]
  exact retrieve_spec h hlen

/-- The bytes from `peek()` on are the first readable bytes. -/
theorem Wf.slice_peek {b : RawBuffer} (h : b.Wf) {len : Nat} (hlen : len ≤ b.readableBytes) :
    slice b.buffer_ b.peek (b.peek + len) = b.readable.take len := by
  have hord := h.ordered
  simp only [readableBytes] at hlen
  simp only [readable, peek, slice, List.take_take]
  congr 1
  omega

theorem retrieveAsString_spec {b : RawBuffer} (h : b.Wf) {len : Nat}
    (hlen : len ≤ b.readable.length) :
    ∃ b', b.retrieveAsString len = .ok (b.readable.take len, b') ∧ b'.Wf ∧
      b'.readable = b.readable.drop len := by
  obtain ⟨b', hret, hwf, hread⟩ := retrieve_spec h hlen
  refine ⟨b', ?_, hwf, hread⟩
  rw [h.length_readable] at hlen
  rw [retrieveAsString, assert_pos hlen, hret, h.slice_peek hlen]
  rfl

theorem retrieveAllAsString_spec {b : RawBuffer} (h : b.Wf) :
    ∃ b', b.retrieveAllAsString = .ok (b.readable, b') ∧ b'.Wf ∧ b'.readable = [] := by
  obtain ⟨b', hret, hwf, hread⟩ := retrieveAsString_spec h (Nat.le_refl _)
  rw [List.take_length] at hret
  refine ⟨b', ?_, hwf, by rw [hread, List.drop_length]⟩
  rw [retrieveAllAsString, ← h.length_readable]
  exact hret

theorem makeSpace_spec {b : RawBuffer} (h : b.Wf) {len : Nat} (hshort : b.writableBytes < len) :
    ∃ b', b.makeSpace len = .ok b' ∧ b'.Wf ∧ b'.readable = b.readable ∧
      len ≤ b'.writableBytes := by
  obtain ⟨front, tail, hsplit, hfront, hwrite⟩ := h.split
  have hbound := h.bounded
  have hroom := h.headroom
  have hbuf : b.buffer_.length = front.length + b.readable.length + tail.length := by
    conv_lhs => rw [hsplit]
    simp [Nat.add_assoc]
  unfold writableBytes at hshort
  by_cases hgrow : b.writableBytes + b.prependableBytes < len + kCheapPrepend
  · -- grow: filler behind the old cells
    rw [makeSpace, if_pos hgrow]
    refine ⟨_, rfl, ?_⟩
    have hres : resize 0 b.buffer_ (b.writeIndex_ + len) =
        front ++ b.readable ++
          (tail ++ List.replicate (b.writeIndex_ + len - b.buffer_.length) 0) := by
      rw [resize_of_le 0 (by omega), ← List.append_assoc, ← hsplit]
    have hreslen : (resize 0 b.buffer_ (b.writeIndex_ + len)).length = b.writeIndex_ + len := by
      rw [resize_of_le 0 (by omega)]
      simp only [List.length_append, List.length_replicate]
      omega
    obtain ⟨hwf, hread⟩ := of_split (b := { b with
        buffer_ := resize 0 b.buffer_ (b.writeIndex_ + len) }) hres hfront.symm hwrite.symm
      (by simp only [hreslen]; omega)
    exact ⟨hwf, hread, by simp only [writableBytes, hreslen]; omega⟩
  · -- slide: the readable bytes move down to the headroom
    rw [makeSpace, if_neg hgrow]
    unfold writableBytes prependableBytes at hgrow
    have hhead : kCheapPrepend < b.readIndex_ := by omega
    have hsame : b.readableBytes = RawBuffer.readableBytes
        { buffer_ := overwrite b.buffer_ kCheapPrepend b.readable
          readIndex_ := kCheapPrepend
          writeIndex_ := kCheapPrepend + b.readableBytes } := by simp [readableBytes]
    rw [assert_pos hhead, ok_bind]
    refine ⟨_, by exact congrArg (· >>= fun _ => _) (assert_pos hsame _), ?_⟩
    obtain ⟨head, rest, hcut⟩ :=
      exists_split (show kCheapPrepend ≤ kCheapPrepend + b.readable.length by omega)
        (show kCheapPrepend + b.readable.length ≤ b.buffer_.length by omega)
    have hmid : (slice b.buffer_ kCheapPrepend (kCheapPrepend + b.readable.length)).length =
        b.readable.length := by
      rw [length_slice (by omega)]
      omega
    have hover : overwrite b.buffer_ kCheapPrepend b.readable = head ++ b.readable ++ rest := by
      conv_lhs => rw [hcut.1, ← hcut.2]
      exact overwrite_middle head rest (by rw [hcut.2]; exact hmid)
    have hlen : (overwrite b.buffer_ kCheapPrepend b.readable).length = b.buffer_.length := by
      rw [hover]
      conv_rhs => rw [hcut.1]
      simp [hmid]
    have hrb : b.readableBytes = b.readable.length := h.length_readable.symm
    obtain ⟨hwf, hread⟩ := of_split (b :=
        { buffer_ := overwrite b.buffer_ kCheapPrepend b.readable
          readIndex_ := kCheapPrepend
          writeIndex_ := kCheapPrepend + b.readableBytes }) hover hcut.2.symm
      (by simp only [hrb, hcut.2]) (by simp only [hlen]; omega)
    refine ⟨hwf, hread, ?_⟩
    show len ≤ (overwrite b.buffer_ kCheapPrepend b.readable).length -
      (kCheapPrepend + b.readableBytes)
    omega

theorem ensureWritableBytes_spec {b : RawBuffer} (h : b.Wf) (len : Nat) :
    ∃ b', b.ensureWritableBytes len = .ok b' ∧ b'.Wf ∧ b'.readable = b.readable ∧
      len ≤ b'.writableBytes := by
  by_cases hshort : b.writableBytes < len
  · obtain ⟨b', hmake, hwf, hread, hroom⟩ := makeSpace_spec h hshort
    refine ⟨b', ?_, hwf, hread, hroom⟩
    simp only [ensureWritableBytes, if_pos hshort, hmake, ok_bind, assert_pos hroom]
    rfl
  · have hroom : len ≤ b.writableBytes := Nat.le_of_not_lt hshort
    refine ⟨b, ?_, h, rfl, hroom⟩
    simp only [ensureWritableBytes, if_neg hshort, ok_bind, assert_pos hroom]
    rfl

/-- Writing `data` into the writable tail: the common end of `append` and
`readFd`. -/
theorem write_tail {b : RawBuffer} (h : b.Wf) {data : Bytes}
    (hroom : data.length ≤ b.writableBytes) :
    let b' : RawBuffer := { b with
      buffer_ := overwrite b.buffer_ b.beginWrite data
      writeIndex_ := b.writeIndex_ + data.length }
    b'.Wf ∧ b'.readable = b.readable ++ data ∧ b'.buffer_.length = b.buffer_.length := by
  intro b'
  obtain ⟨front, tail, hsplit, hfront, hwrite⟩ := h.split
  have hbuf : b.buffer_.length = front.length + b.readable.length + tail.length := by
    conv_lhs => rw [hsplit]
    simp [Nat.add_assoc]
  unfold writableBytes at hroom
  have htail : tail = tail.take data.length ++ tail.drop data.length :=
    (List.take_append_drop data.length tail).symm
  have hold : (tail.take data.length).length = data.length := by
    rw [List.length_take]
    omega
  have hover : b'.buffer_ = front ++ (b.readable ++ data) ++ tail.drop data.length := by
    show overwrite b.buffer_ b.writeIndex_ data = _
    have hparts : b.buffer_ =
        (front ++ b.readable) ++ tail.take data.length ++ tail.drop data.length := by
      conv_lhs => rw [hsplit, htail]
      simp
    conv_lhs => rw [hparts, ← hwrite, ← List.length_append]
    rw [overwrite_middle (front ++ b.readable) _ hold]
    simp
  have hlen : b'.buffer_.length = b.buffer_.length := by
    rw [hover, hbuf]
    simp only [List.length_append, List.length_drop]
    omega
  obtain ⟨hwf, hread⟩ := of_split (b := b') hover hfront.symm
    (by show b.writeIndex_ + data.length = _
        rw [List.length_append, ← hwrite, Nat.add_assoc]) (by rw [hlen]; exact h.headroom)
  exact ⟨hwf, hread, hlen⟩

/-- With room for `data` in the tail, `append` only writes. -/
theorem append_of_room {b : RawBuffer} {data : Bytes} (hroom : data.length ≤ b.writableBytes) :
    b.append data = .ok { b with
      buffer_ := overwrite b.buffer_ b.beginWrite data
      writeIndex_ := b.writeIndex_ + data.length } := by
  have hens : b.ensureWritableBytes data.length = .ok b := by
    simp only [ensureWritableBytes, if_neg (Nat.not_lt.mpr hroom), ok_bind, assert_pos hroom]
    rfl
  rw [append, hens]
  rfl

theorem append_spec {b : RawBuffer} (h : b.Wf) (data : Bytes) :
    ∃ b', b.append data = .ok b' ∧ b'.Wf ∧ b'.readable = b.readable ++ data := by
  obtain ⟨b₁, hens, hwf, hread, hroom⟩ := ensureWritableBytes_spec h data.length
  obtain ⟨hwf', hread', -⟩ := write_tail hwf hroom
  refine ⟨_, ?_, hwf', by rw [hread', hread]⟩
  rw [append, hens]
  rfl

theorem prepend_spec {b : RawBuffer} (h : b.Wf) {data : Bytes}
    (hlen : data.length ≤ b.prependableBytes) :
    ∃ b', b.prepend data = .ok b' ∧ b'.Wf ∧ b'.readable = data ++ b.readable := by
  rw [prepend, assert_pos hlen, ok_bind]
  refine ⟨_, rfl, ?_⟩
  obtain ⟨front, tail, hsplit, hfront, hwrite⟩ := h.split
  unfold prependableBytes at hlen
  have hkeep : (front.take (front.length - data.length)).length = b.readIndex_ - data.length := by
    rw [List.length_take]
    omega
  have hold : (front.drop (front.length - data.length)).length = data.length := by
    rw [List.length_drop]
    omega
  have hparts : b.buffer_ = front.take (front.length - data.length) ++
      front.drop (front.length - data.length) ++ (b.readable ++ tail) := by
    rw [List.take_append_drop]
    conv_lhs => rw [hsplit]
    simp
  have hover : overwrite b.buffer_ (b.readIndex_ - data.length) data =
      front.take (front.length - data.length) ++ (data ++ b.readable) ++ tail := by
    conv_lhs => rw [hparts, ← hkeep]
    rw [overwrite_middle _ _ hold]
    simp
  have hbuflen : (overwrite b.buffer_ (b.readIndex_ - data.length) data).length =
      b.buffer_.length := by
    rw [hover]
    conv_rhs => rw [hparts]
    simp only [List.length_append, hold]
    omega
  exact of_split hover hkeep.symm
    (by simp only [List.length_append, hkeep]; omega)
    (by simp only [hbuflen]; exact h.headroom)

theorem shrink_spec {b : RawBuffer} (h : b.Wf) (reserve : Nat) :
    ∃ b', b.shrink reserve = .ok b' ∧ b'.Wf ∧ b'.readable = b.readable ∧
      reserve ≤ b'.writableBytes := by
  obtain ⟨other, hens, hwf, hread, hroom⟩ :=
    ensureWritableBytes_spec new_wf (b.readableBytes + reserve)
  have hlen := h.length_readable
  -- there is room for the readable bytes, so the append does not make space again
  have hfits : b.readable.length ≤ other.writableBytes := by omega
  have happ := append_of_room hfits
  obtain ⟨hwf', hread', hsize⟩ := write_tail hwf hfits
  have hord := h.ordered
  have hstop : b.peek + b.readableBytes = b.writeIndex_ := by
    rw [peek, readableBytes]
    omega
  refine ⟨_, ?_, hwf', by rw [hread', hread, new_readable, List.nil_append], ?_⟩
  · rw [shrink, hens, ok_bind, hstop]
    exact happ
  · unfold writableBytes at hroom ⊢
    rw [hsize]
    show reserve ≤ other.buffer_.length - (other.writeIndex_ + b.readable.length)
    omega

/-- A scatter read appends exactly the bytes the kernel delivered. -/
theorem readFd_spec {b : RawBuffer} (h : b.Wf) (data : Bytes) :
    ∃ b', b.readFd data = .ok b' ∧ b'.Wf ∧ b'.readable = b.readable ++ data := by
  by_cases hfit : data.length ≤ b.writableBytes
  · obtain ⟨hwf, hread, -⟩ := write_tail h hfit
    exact ⟨_, if_pos hfit, hwf, hread⟩
  · have hbound := h.bounded
    have htake : (data.take b.writableBytes).length = b.writableBytes := by
      rw [List.length_take]
      omega
    obtain ⟨hwf, hread, -⟩ := write_tail h
      (show (data.take b.writableBytes).length ≤ b.writableBytes by omega)
    have hfull : b.writeIndex_ + (data.take b.writableBytes).length = b.buffer_.length := by
      rw [htake, writableBytes]
      omega
    rw [hfull] at hwf hread
    obtain ⟨b', happ, hwf', hread'⟩ := append_spec hwf (data.drop b.writableBytes)
    refine ⟨b', ?_, hwf', ?_⟩
    · rw [readFd, if_neg hfit]
      exact happ
    · rw [hread', hread, List.append_assoc, List.take_append_drop]

end RawBuffer

/-- A buffer with its representation invariant. -/
structure Buffer extends RawBuffer where
  wf : toRawBuffer.Wf

namespace Buffer

/-- Package a raw call that returns a well-formed buffer. -/
def ofRun (r : Except Fault RawBuffer) (h : ∃ b, r = .ok b ∧ b.Wf) : Buffer :=
  match r, h with
  | .ok b, h => ⟨b, by obtain ⟨_, heq, hwf⟩ := h; cases heq; exact hwf⟩
  | .error _, h => absurd h (by simp)

theorem ofRun_run (r : Except Fault RawBuffer) (h : ∃ b, r = .ok b ∧ b.Wf) :
    r = .ok (ofRun r h).toRawBuffer := by
  cases r with
  | ok b => rfl
  | error f => exact absurd h (by simp)

/-- What the raw call is specified to show is what the packaged buffer shows. -/
theorem readable_ofRun {r : Except Fault RawBuffer} {data : Bytes}
    (hspec : ∃ b, r = .ok b ∧ b.Wf ∧ b.readable = data) (h : ∃ b, r = .ok b ∧ b.Wf) :
    (ofRun r h).readable = data := by
  obtain ⟨b, rfl, -, hread⟩ := hspec
  exact hread

/-- Package a raw call that may fail but never returns an ill-formed buffer. -/
def package (r : Except Fault RawBuffer) (h : ∀ b, r = .ok b → b.Wf) : Except Fault Buffer :=
  match r, h with
  | .ok b, h => .ok ⟨b, h b rfl⟩
  | .error f, _ => .error f

theorem package_eq_ok {r : Except Fault RawBuffer} (h : ∀ b, r = .ok b → b.Wf) {b : RawBuffer}
    (hr : r = .ok b) : package r h = .ok ⟨b, h b hr⟩ := by
  subst hr
  rfl

theorem package_eq_error {r : Except Fault RawBuffer} (h : ∀ b, r = .ok b → b.Wf) {f : Fault}
    (hr : r = .error f) : package r h = .error f := by
  subst hr
  rfl

def new : Buffer := ⟨RawBuffer.new, RawBuffer.new_wf⟩

@[simp] theorem readable_new : new.readable = [] := RawBuffer.new_readable

@[simp] theorem length_readable (b : Buffer) : b.readable.length = b.readableBytes :=
  b.wf.length_readable

/-! ## The operations on packaged buffers -/

def append (b : Buffer) (data : Bytes) : Buffer :=
  ofRun (b.toRawBuffer.append data)
    ((RawBuffer.append_spec b.wf data).imp fun _ h => ⟨h.1, h.2.1⟩)

def readFd (b : Buffer) (data : Bytes) : Buffer :=
  ofRun (b.toRawBuffer.readFd data)
    ((RawBuffer.readFd_spec b.wf data).imp fun _ h => ⟨h.1, h.2.1⟩)

/-- The packaged call is the raw one. -/
theorem append_run (b : Buffer) (data : Bytes) :
    b.toRawBuffer.append data = .ok (b.append data).toRawBuffer := ofRun_run _ _

theorem readFd_run (b : Buffer) (data : Bytes) :
    b.toRawBuffer.readFd data = .ok (b.readFd data).toRawBuffer := ofRun_run _ _

theorem retrieve_wf (b : Buffer) (len : Nat) (b' : RawBuffer)
    (h : b.toRawBuffer.retrieve len = .ok b') : b'.Wf := by
  by_cases hlen : len ≤ b.readableBytes
  · obtain ⟨_, hret, hwf, -⟩ := RawBuffer.retrieve_spec b.wf
      (show len ≤ b.toRawBuffer.readable.length by simpa using hlen)
    rw [h] at hret
    cases hret
    exact hwf
  · rw [RawBuffer.retrieve, assert_neg hlen] at h
    cases h

def retrieve (b : Buffer) (len : Nat) : Except Fault Buffer :=
  package (b.toRawBuffer.retrieve len) (b.retrieve_wf len)

theorem retrieveUtil_wf (b : Buffer) (stop : Nat) (b' : RawBuffer)
    (h : b.toRawBuffer.retrieveUtil stop = .ok b') : b'.Wf := by
  rw [RawBuffer.retrieveUtil] at h
  by_cases hrange : b.peek ≤ stop ∧ stop ≤ b.beginWrite
  · rw [assert_pos hrange, ok_bind] at h
    exact b.retrieve_wf _ b' h
  · rw [assert_neg hrange] at h
    cases h

def retrieveUtil (b : Buffer) (stop : Nat) : Except Fault Buffer :=
  package (b.toRawBuffer.retrieveUtil stop) (b.retrieveUtil_wf stop)

/-- `findCRLF()`; its assertions hold on every well-formed buffer
(`findCRLF_run`). -/
def findCRLF (b : Buffer) : Option Nat :=
  match b.toRawBuffer.findCRLF with
  | .ok position => position
  | .error _ => none

theorem findCRLF_run (b : Buffer) : b.toRawBuffer.findCRLF = .ok b.findCRLF := by
  rw [findCRLF, RawBuffer.findCRLF_eq b.wf]

def retrieveAll (b : Buffer) : Buffer :=
  ⟨b.toRawBuffer.retrieveAll, (RawBuffer.retrieveAll_spec b.wf).1⟩

/-- `retrieveAllAsString()`; see `retrieveAllAsString_run`. -/
def retrieveAllAsString (b : Buffer) : Bytes × Buffer := (b.readable, b.retrieveAll)

theorem retrieveAllAsString_run (b : Buffer) : b.toRawBuffer.retrieveAllAsString =
    .ok (b.retrieveAllAsString.1, b.retrieveAllAsString.2.toRawBuffer) := by
  obtain ⟨b', hrun, -, -⟩ := RawBuffer.retrieveAllAsString_spec b.wf
  rw [hrun]
  have hret : b.toRawBuffer.retrieve b.readableBytes = .ok b.toRawBuffer.retrieveAll := by
    rw [RawBuffer.retrieve, assert_pos (Nat.le_refl _), ok_bind, if_neg (Nat.lt_irrefl _)]
    rfl
  rw [RawBuffer.retrieveAllAsString, RawBuffer.retrieveAsString, assert_pos (Nat.le_refl _),
    ok_bind] at hrun
  simp only [hret, ok_bind, pure_eq_ok, Except.ok.injEq, Prod.mk.injEq] at hrun
  rw [← hrun.2]
  rfl

@[simp] theorem readable_append (b : Buffer) (data : Bytes) :
    (b.append data).readable = b.readable ++ data :=
  readable_ofRun (RawBuffer.append_spec b.wf data) _

@[simp] theorem readable_readFd (b : Buffer) (data : Bytes) :
    (b.readFd data).readable = b.readable ++ data :=
  readable_ofRun (RawBuffer.readFd_spec b.wf data) _

@[simp] theorem readable_retrieveAll (b : Buffer) : b.retrieveAll.readable = [] :=
  (RawBuffer.retrieveAll_spec b.wf).2

theorem retrieve_spec (b : Buffer) {len : Nat} (h : len ≤ b.readable.length) :
    ∃ b', b.retrieve len = .ok b' ∧ b'.readable = b.readable.drop len := by
  obtain ⟨b', hret, hwf, hread⟩ := RawBuffer.retrieve_spec b.wf h
  exact ⟨⟨b', hwf⟩, package_eq_ok _ hret, hread⟩

/-- A `retrieve` that returns asked for no more than there was. -/
theorem retrieve_ok {b b' : Buffer} {len : Nat} (h : b.retrieve len = .ok b') :
    len ≤ b.readable.length ∧ b'.readable = b.readable.drop len := by
  have hlen : len ≤ b.readable.length := by
    by_contra hlong
    rw [length_readable] at hlong
    have hraw : b.toRawBuffer.retrieve len = .error (.assertion .retrieveLength) := by
      rw [RawBuffer.retrieve, assert_neg hlong]
      rfl
    rw [retrieve, package_eq_error _ hraw] at h
    cases h
  obtain ⟨out, hout, hread⟩ := b.retrieve_spec hlen
  rw [h] at hout
  cases hout
  exact ⟨hlen, hread⟩

theorem retrieveUtil_spec (b : Buffer) {len : Nat} (h : len ≤ b.readable.length) :
    ∃ b', b.retrieveUtil (b.peek + len) = .ok b' ∧ b'.readable = b.readable.drop len := by
  obtain ⟨b', hret, hwf, hread⟩ := RawBuffer.retrieveUtil_spec b.wf h
  exact ⟨⟨b', hwf⟩, package_eq_ok _ hret, hread⟩

theorem findCRLF_eq (b : Buffer) :
    b.findCRLF = (cutAt 13 10 b.readable).map fun cut => b.peek + cut.1.length := by
  rw [findCRLF, RawBuffer.findCRLF_eq b.wf]

end Buffer

end Ham.Net
