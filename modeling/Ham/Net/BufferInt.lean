import Ham.Lib.Endian
import Ham.Net.BufferRun

/-!
# Integers in a `Buffer`

`appendIntN` converts to network order and appends the memory of the result;
`peekIntN` copies memory and converts back. The order of the host is a
parameter. What lands in the buffer is the big-endian two's complement of the
value, whatever the host (`appendTagged_spec`), and mixed widths read back in
order out of any interleaving of appends, retrievals and reads (`int_codec`).
-/

namespace Ham.Net

open Ham.Lib

/-! ## `Endian.h` -/

/-- The byte order of the host. -/
inductive ByteOrder where
  | little | big
  deriving DecidableEq, Repr

/-- The bytes of an integer in memory. -/
def memory (order : ByteOrder) {n : Nat} (x : BitVec (8 * n)) : Bytes :=
  match order with
  | .little => (bigEndian n x.toNat).reverse
  | .big => bigEndian n x.toNat

/-- `memcpy` into an integer. -/
def ofMemory (order : ByteOrder) (n : Nat) (bytes : Bytes) : BitVec (8 * n) :=
  match order with
  | .little => BitVec.ofNat _ (ofBigEndian bytes.reverse)
  | .big => BitVec.ofNat _ (ofBigEndian bytes)

/-- The bytes of an integer, turned around. -/
def byteSwap {n : Nat} (x : BitVec (8 * n)) : BitVec (8 * n) := ofMemory .little n (memory .big x)

/-- `htobeN` and `beNtoh`: both swap on a little-endian host and do nothing on a
big-endian one. -/
def networkOrder (order : ByteOrder) {n : Nat} (x : BitVec (8 * n)) : BitVec (8 * n) :=
  match order with
  | .little => byteSwap x
  | .big => x

def hostToNetwork64 (order : ByteOrder) (host64 : BitVec 64) : BitVec 64 :=
  networkOrder order (n := 8) host64

def hostToNetwork32 (order : ByteOrder) (host32 : BitVec 32) : BitVec 32 :=
  networkOrder order (n := 4) host32

def hostToNetwork16 (order : ByteOrder) (host16 : BitVec 16) : BitVec 16 :=
  networkOrder order (n := 2) host16

def networkToHost64 (order : ByteOrder) (net64 : BitVec 64) : BitVec 64 :=
  networkOrder order (n := 8) net64

def networkToHost32 (order : ByteOrder) (net32 : BitVec 32) : BitVec 32 :=
  networkOrder order (n := 4) net32

def networkToHost16 (order : ByteOrder) (net16 : BitVec 16) : BitVec 16 :=
  networkOrder order (n := 2) net16

section

variable {n : Nat}

theorem two_pow_eq (n : Nat) : 2 ^ (8 * n) = 256 ^ n := by
  rw [Nat.pow_mul]

theorem toNat_ofBigEndian {bytes : Bytes} (h : bytes.length = n) :
    (BitVec.ofNat (8 * n) (ofBigEndian bytes)).toNat = ofBigEndian bytes := by
  have hlt := ofBigEndian_lt bytes
  rw [BitVec.toNat_ofNat, two_pow_eq]
  rw [h] at hlt
  exact Nat.mod_eq_of_lt hlt

theorem ofNat_ofBigEndian (x : BitVec (8 * n)) :
    BitVec.ofNat (8 * n) (ofBigEndian (bigEndian n x.toNat)) = x := by
  have hlt := x.isLt
  rw [two_pow_eq] at hlt
  rw [ofBigEndian_bigEndian, Nat.mod_eq_of_lt hlt, BitVec.ofNat_toNat, BitVec.setWidth_eq]

/-- In network order an integer has its bytes in big-endian order, on every
host. -/
theorem memory_networkOrder (order : ByteOrder) (x : BitVec (8 * n)) :
    memory order (networkOrder order x) = bigEndian n x.toInt := by
  rw [bigEndian_toInt]
  cases order with
  | big => rfl
  | little =>
      have hlen : (bigEndian n (x.toNat : Int)).reverse.length = n := by simp
      have hswap := bigEndian_ofBigEndian (bigEndian n (x.toNat : Int)).reverse
      rw [hlen] at hswap
      show (bigEndian n (((byteSwap x).toNat : Nat) : Int)).reverse = _
      rw [byteSwap, ofMemory, memory, toNat_ofBigEndian hlen, hswap, List.reverse_reverse]

/-- And comes back from them. -/
theorem networkOrder_ofMemory (order : ByteOrder) (x : BitVec (8 * n)) :
    networkOrder order (ofMemory order n (bigEndian n x.toInt)) = x := by
  rw [bigEndian_toInt]
  cases order with
  | big => exact ofNat_ofBigEndian x
  | little =>
      have hlen : (bigEndian n (x.toNat : Int)).reverse.length = n := by simp
      have hswap := bigEndian_ofBigEndian (bigEndian n (x.toNat : Int)).reverse
      rw [hlen] at hswap
      have hload : (ofMemory .little n (bigEndian n (x.toNat : Int))).toNat =
          ofBigEndian (bigEndian n (x.toNat : Int)).reverse := toNat_ofBigEndian hlen
      show BitVec.ofNat _ (ofBigEndian (bigEndian n
        ((ofMemory .little n (bigEndian n (x.toNat : Int))).toNat : Int)).reverse) = x
      rw [hload, hswap, List.reverse_reverse]
      exact ofNat_ofBigEndian x

end

/-! ## Appending, peeking and reading -/

namespace RawBuffer

variable (order : ByteOrder) (b : RawBuffer)

def appendInt64 (x : BitVec 64) : Except Fault RawBuffer :=
  b.append (memory order (n := 8) (hostToNetwork64 order x))

def appendInt32 (x : BitVec 32) : Except Fault RawBuffer :=
  b.append (memory order (n := 4) (hostToNetwork32 order x))

def appendInt16 (x : BitVec 16) : Except Fault RawBuffer :=
  b.append (memory order (n := 2) (hostToNetwork16 order x))

/-- One byte needs no conversion. -/
def appendInt8 (x : BitVec 8) : Except Fault RawBuffer := b.append (memory order (n := 1) x)

/-- `memcpy` of `n` bytes from `peek()`. -/
def copyInt (n : Nat) : Except Fault (BitVec (8 * n)) := do
  assert (n ≤ b.readableBytes) .peekIntLength
  return ofMemory order n (slice b.buffer_ b.peek (b.peek + n))

def peekInt64 : Except Fault (BitVec 64) := do
  let be64 ← b.copyInt order 8
  return networkToHost64 order be64

def peekInt32 : Except Fault (BitVec 32) := do
  let be32 ← b.copyInt order 4
  return networkToHost32 order be32

def peekInt16 : Except Fault (BitVec 16) := do
  let be16 ← b.copyInt order 2
  return networkToHost16 order be16

/-- `*peek()`. -/
def peekInt8 : Except Fault (BitVec 8) := b.copyInt order 1

def readInt64 : Except Fault (BitVec 64 × RawBuffer) := do
  let res ← b.peekInt64 order
  return (res, ← b.retrieve 8)

def readInt32 : Except Fault (BitVec 32 × RawBuffer) := do
  let res ← b.peekInt32 order
  return (res, ← b.retrieve 4)

def readInt16 : Except Fault (BitVec 16 × RawBuffer) := do
  let res ← b.peekInt16 order
  return (res, ← b.retrieve 2)

def readInt8 : Except Fault (BitVec 8 × RawBuffer) := do
  let res ← b.peekInt8 order
  return (res, ← b.retrieve 1)

end RawBuffer

/-- The widths of the codec. -/
inductive IntWidth where
  | int8 | int16 | int32 | int64
  deriving DecidableEq, Repr

namespace IntWidth

def bytes : IntWidth → Nat
  | .int8 => 1
  | .int16 => 2
  | .int32 => 4
  | .int64 => 8

end IntWidth

/-- A machine integer of one of the widths; its value is `value.toInt`. -/
structure TaggedInt where
  width : IntWidth
  value : BitVec (8 * width.bytes)

namespace TaggedInt

/-- The big-endian two's complement of the value. -/
def encode (v : TaggedInt) : Bytes := bigEndian v.width.bytes v.value.toInt

@[simp] theorem length_encode (v : TaggedInt) : v.encode.length = v.width.bytes :=
  length_bigEndian _ _

end TaggedInt

namespace RawBuffer

variable {order : ByteOrder} {b : RawBuffer}

/-- `appendIntN` for the width of the value. -/
def appendTagged (order : ByteOrder) (b : RawBuffer) : TaggedInt → Except Fault RawBuffer
  | ⟨.int8, x⟩ => b.appendInt8 order x
  | ⟨.int16, x⟩ => b.appendInt16 order x
  | ⟨.int32, x⟩ => b.appendInt32 order x
  | ⟨.int64, x⟩ => b.appendInt64 order x

/-- `readIntN` for a width. -/
def readTagged (order : ByteOrder) (b : RawBuffer) :
    IntWidth → Except Fault (TaggedInt × RawBuffer)
  | .int8 => do
      let (x, b) ← b.readInt8 order
      return (⟨.int8, x⟩, b)
  | .int16 => do
      let (x, b) ← b.readInt16 order
      return (⟨.int16, x⟩, b)
  | .int32 => do
      let (x, b) ← b.readInt32 order
      return (⟨.int32, x⟩, b)
  | .int64 => do
      let (x, b) ← b.readInt64 order
      return (⟨.int64, x⟩, b)

theorem memory_one (order : ByteOrder) (x : BitVec (8 * 1)) :
    memory order x = bigEndian 1 x.toInt := by
  rw [bigEndian_toInt]
  cases order with
  | big => rfl
  | little => rfl

theorem ofMemory_one (order : ByteOrder) (x : BitVec (8 * 1)) :
    ofMemory order 1 (bigEndian 1 x.toInt) = x := by
  rw [bigEndian_toInt]
  cases order with
  | big => exact ofNat_ofBigEndian x
  | little => exact ofNat_ofBigEndian x

theorem appendTagged_spec (h : b.Wf) (order : ByteOrder) (v : TaggedInt) :
    ∃ b', b.appendTagged order v = .ok b' ∧ b'.Wf ∧ b'.readable = b.readable ++ v.encode := by
  have happend : b.appendTagged order v = b.append v.encode := by
    obtain ⟨width, x⟩ := v
    cases width with
    | int8 => exact congrArg b.append (memory_one order x)
    | int16 => exact congrArg b.append (memory_networkOrder (n := 2) order x)
    | int32 => exact congrArg b.append (memory_networkOrder (n := 4) order x)
    | int64 => exact congrArg b.append (memory_networkOrder (n := 8) order x)
  rw [happend]
  exact append_spec h v.encode

theorem copyInt_spec (h : b.Wf) {n : Nat} {bytes rest : Bytes}
    (hread : b.readable = bytes ++ rest) (hlen : bytes.length = n) :
    b.copyInt order n = .ok (ofMemory order n bytes) := by
  have hsize := h.length_readable
  have hle : n ≤ b.readableBytes := by
    rw [← hsize, hread, List.length_append]
    omega
  have hslice : slice b.buffer_ b.peek (b.peek + n) = bytes := by
    have htake : slice b.buffer_ b.peek (b.peek + n) = b.readable.take n := by
      have hord := h.ordered
      simp only [readableBytes] at hle
      simp only [readable, slice, List.take_take, peek]
      congr 1
      omega
    rw [htake, hread, ← hlen, List.take_left]
  rw [copyInt, assert_pos hle, hslice]
  rfl

/-- A peek that converts what it copies. -/
theorem peek_networkOrder (h : b.Wf) {n : Nat} {x : BitVec (8 * n)} {rest : Bytes}
    (hread : b.readable = bigEndian n x.toInt ++ rest) :
    (do return networkOrder order (← b.copyInt order n)) = .ok x := by
  rw [copyInt_spec h hread (length_bigEndian _ _), ok_bind, networkOrder_ofMemory]
  rfl

/-- A read is a peek and a retrieval. -/
theorem read_eq {n : Nat} {x : BitVec (8 * n)} {b' : RawBuffer}
    {peeked : Except Fault (BitVec (8 * n))} (hpeek : peeked = .ok x)
    (hret : b.retrieve n = .ok b') :
    (do
      let res ← peeked
      return (res, ← b.retrieve n)) = .ok (x, b') := by
  rw [hpeek, hret]
  rfl

theorem readTagged_spec (h : b.Wf) (order : ByteOrder) {v : TaggedInt} {rest : Bytes}
    (hread : b.readable = v.encode ++ rest) :
    ∃ b', b.readTagged order v.width = .ok (v, b') ∧ b'.Wf ∧ b'.readable = rest := by
  have hlen := v.length_encode
  have hle : v.width.bytes ≤ b.readable.length := by
    rw [hread, List.length_append]
    omega
  obtain ⟨b', hret, hwf, hdrop⟩ := retrieve_spec h hle
  have hrest : b'.readable = rest := by
    rw [hdrop, hread, ← hlen, List.drop_left]
  refine ⟨b', ?_, hwf, hrest⟩
  obtain ⟨width, x⟩ := v
  cases width with
  | int8 =>
      have hpeek : b.peekInt8 order = .ok x := by
        have hcopy : b.copyInt order 1 = _ := copyInt_spec h hread (length_bigEndian _ _)
        exact hcopy.trans (congrArg Except.ok (ofMemory_one order x))
      have hr : b.readInt8 order = .ok (x, b') := read_eq (n := 1) hpeek hret
      rw [readTagged, hr]
      rfl
  | int16 =>
      have hpeek : b.peekInt16 order = .ok x := peek_networkOrder (n := 2) h hread
      have hr : b.readInt16 order = .ok (x, b') := read_eq (n := 2) hpeek hret
      rw [readTagged, hr]
      rfl
  | int32 =>
      have hpeek : b.peekInt32 order = .ok x := peek_networkOrder (n := 4) h hread
      have hr : b.readInt32 order = .ok (x, b') := read_eq (n := 4) hpeek hret
      rw [readTagged, hr]
      rfl
  | int64 =>
      have hpeek : b.peekInt64 order = .ok x := peek_networkOrder (n := 8) h hread
      have hr : b.readInt64 order = .ok (x, b') := read_eq (n := 8) hpeek hret
      rw [readTagged, hr]
      rfl

end RawBuffer

/-! ## Streams of integers -/

/-- How much a retrieval takes. -/
def BufferOp.taken (b : RawBuffer) : BufferOp → Option Nat
  | .retrieve len | .retrieveAsString len | .retrieveUtil len => some len
  | .retrieveAll | .retrieveAllAsString => some b.readableBytes
  | .append _ | .prepend _ | .ensureWritableBytes _ | .shrink _ => none

/-- A retrieval of no more than there is drops from the front. -/
theorem BufferOp.retrieval_spec {b : RawBuffer} (h : b.Wf) {op : BufferOp} {n : Nat}
    (htaken : op.taken b = some n) (hle : n ≤ b.readableBytes) :
    ∃ ret b', op.run b = .ok (ret, b') ∧ b'.Wf ∧ b'.readable = b.readable.drop n := by
  have hallowed : op.Allowed b ∧ (op.onBytes b.readable).2 = b.readable.drop n := by
    cases op with
    | retrieve len =>
        cases htaken
        exact ⟨hle, rfl⟩
    | retrieveAsString len =>
        cases htaken
        exact ⟨hle, rfl⟩
    | retrieveUtil len =>
        cases htaken
        exact ⟨hle, rfl⟩
    | retrieveAll =>
        cases htaken
        exact ⟨trivial, by rw [← h.length_readable, List.drop_length]; rfl⟩
    | retrieveAllAsString =>
        cases htaken
        exact ⟨trivial, by rw [← h.length_readable, List.drop_length]; rfl⟩
    | _ => cases htaken
  obtain ⟨b', hrun, hwf, hread, -⟩ := op.run_spec h hallowed.1
  exact ⟨_, b', hrun, hwf, hread.trans hallowed.2⟩

/-- A buffer through which integers go: how many bytes it held before are still
in it, how many integers have been appended, and what has been read. -/
structure IntStream where
  buffer : RawBuffer
  old : Nat
  appended : Nat := 0
  reads : List TaggedInt := []

inductive IntCall where
  /-- `appendIntN` of the next integer. -/
  | append
  /-- A retrieval of bytes the buffer held before. -/
  | retrieve (op : BufferOp)
  /-- `readIntN` of the width of the next integer to read. -/
  | read

namespace IntStream

/-- Old bytes go before any read, and a read waits for enough bytes. -/
def Enabled (vs : List TaggedInt) (w : IntStream) : IntCall → Prop
  | .append => w.appended < vs.length
  | .retrieve op => ∃ n, op.taken w.buffer = some n ∧ n ≤ w.old
  | .read => w.old = 0 ∧ ∃ v, vs[w.reads.length]? = some v ∧ v.width.bytes ≤ w.buffer.readableBytes

def step (order : ByteOrder) (vs : List TaggedInt) (w : IntStream) :
    IntCall → Except Fault IntStream
  | .append =>
      match vs[w.appended]? with
      | none => .ok w
      | some v => do
          let b ← w.buffer.appendTagged order v
          return { w with buffer := b, appended := w.appended + 1 }
  | .retrieve op => do
      let n := (op.taken w.buffer).getD 0
      let r ← op.run w.buffer
      return { w with buffer := r.2, old := w.old - n }
  | .read =>
      match vs[w.reads.length]? with
      | none => .ok w
      | some v => do
          let r ← w.buffer.readTagged order v.width
          return { w with buffer := r.2, reads := w.reads ++ [r.1] }

/-- A buffer with bytes in it, before the first integer. -/
def start (b : Buffer) : IntStream where
  buffer := b.toRawBuffer
  old := b.readable.length

end IntStream

/-- The integers `vs` on their way through a buffer. -/
def intStream (order : ByteOrder) (vs : List TaggedInt) : System IntStream IntCall Fault where
  enabled := IntStream.Enabled vs
  step := IntStream.step order vs

/-- The integers that are appended and not yet read. -/
def IntStream.unread (vs : List TaggedInt) (w : IntStream) : List TaggedInt :=
  (vs.take w.appended).drop w.reads.length

namespace IntStream

variable {vs : List TaggedInt} {s : Bytes} {w w' : IntStream}

/-- The buffer holds what is left of the old bytes and the codes of the unread
integers. -/
structure Coded (vs : List TaggedInt) (s : Bytes) (w : IntStream) : Prop where
  wf : w.buffer.Wf
  old : w.old ≤ s.length
  readable : w.buffer.readable =
    s.drop (s.length - w.old) ++ (w.unread vs).flatMap TaggedInt.encode
  reads : w.reads = vs.take w.reads.length
  order : w.reads.length ≤ w.appended
  appended : w.appended ≤ vs.length
  first : w.reads ≠ [] → w.old = 0

theorem coded_start (vs : List TaggedInt) (b : Buffer) : Coded vs b.readable (start b) where
  wf := b.wf
  old := Nat.le_refl _
  readable := by simp [start, unread]
  reads := rfl
  order := Nat.le_refl _
  appended := Nat.zero_le _
  first := fun h => absurd rfl h

theorem Coded.append (h : Coded vs s w) (order : ByteOrder) (hen : w.Enabled vs .append) :
    ∃ b', w.step order vs .append = .ok { w with buffer := b', appended := w.appended + 1 } ∧
      Coded vs s { w with buffer := b', appended := w.appended + 1 } := by
  have hlt : w.appended < vs.length := hen
  obtain ⟨b', happ, hwf, hread⟩ := w.buffer.appendTagged_spec h.wf order vs[w.appended]
  refine ⟨b', ?_, ?_⟩
  · simp only [step, List.getElem?_eq_getElem hlt, happ, ok_bind]
    rfl
  · have hunread : IntStream.unread vs { w with buffer := b', appended := w.appended + 1 } =
        w.unread vs ++ [vs[w.appended]] := by
      simp only [unread]
      rw [List.take_add_one, List.getElem?_eq_getElem hlt, List.drop_append_of_le_length]
      · rfl
      · rw [List.length_take, Nat.min_eq_left h.appended]
        exact h.order
    refine ⟨hwf, h.old, ?_, h.reads, Nat.le_succ_of_le h.order, hlt, h.first⟩
    rw [hunread, List.flatMap_append, ← List.append_assoc, ← h.readable]
    simpa using hread

theorem Coded.retrieve (h : Coded vs s w) (order : ByteOrder) {op : BufferOp} {n : Nat}
    (htaken : op.taken w.buffer = some n) (hn : n ≤ w.old) :
    ∃ b', w.step order vs (.retrieve op) = .ok { w with buffer := b', old := w.old - n } ∧
      Coded vs s { w with buffer := b', old := w.old - n } := by
  have hold := h.old
  have hlen : (s.drop (s.length - w.old)).length = w.old := by
    rw [List.length_drop]
    omega
  have hle : n ≤ w.buffer.readableBytes := by
    rw [← h.wf.length_readable, h.readable, List.length_append, hlen]
    omega
  obtain ⟨ret, b', hrun, hwf, hread⟩ := BufferOp.retrieval_spec h.wf htaken hle
  refine ⟨b', ?_, ?_⟩
  · simp only [step, htaken, hrun, ok_bind]
    rfl
  · refine ⟨hwf, Nat.le_trans (Nat.sub_le _ _) h.old, ?_, h.reads, h.order, h.appended, ?_⟩
    · show b'.readable = s.drop (s.length - (w.old - n)) ++ (w.unread vs).flatMap TaggedInt.encode
      rw [hread, h.readable, List.drop_append_of_le_length (by rw [hlen]; exact hn),
        List.drop_drop]
      congr 2
      omega
    · intro hreads
      show w.old - n = 0
      rw [h.first hreads]
      exact Nat.zero_sub n

theorem Coded.read (h : Coded vs s w) (order : ByteOrder) (hold : w.old = 0) {v : TaggedInt}
    (hv : vs[w.reads.length]? = some v) (hbytes : v.width.bytes ≤ w.buffer.readableBytes) :
    ∃ b', w.step order vs .read = .ok { w with buffer := b', reads := w.reads ++ [v] } ∧
      Coded vs s { w with buffer := b', reads := w.reads ++ [v] } := by
  obtain ⟨hlt, hget⟩ := List.getElem?_eq_some_iff.mp hv
  -- enough bytes are there only if the integer has been appended
  have hreadable := h.readable
  rw [hold, Nat.sub_zero, List.drop_length, List.nil_append] at hreadable
  have hthere : w.reads.length < w.appended := by
    by_contra hnot
    have hnone : w.unread vs = [] := by
      rw [unread, List.drop_eq_nil_iff, List.length_take]
      omega
    rw [hnone, List.flatMap_nil] at hreadable
    have hzero := h.wf.length_readable
    rw [hreadable, List.length_nil] at hzero
    have hpos : 0 < v.width.bytes := by cases v.width <;> decide
    omega
  have hunread : w.unread vs = v :: (vs.take w.appended).drop (w.reads.length + 1) := by
    have hlt' : w.reads.length < (vs.take w.appended).length := by
      rw [List.length_take]
      omega
    rw [unread, List.drop_eq_getElem_cons hlt', List.getElem_take, hget]
  rw [hunread, List.flatMap_cons] at hreadable
  obtain ⟨b', hrun, hwf, hrest⟩ := w.buffer.readTagged_spec h.wf order hreadable
  refine ⟨b', ?_, ?_⟩
  · simp only [step, hv, hrun, ok_bind]
    rfl
  · refine ⟨hwf, h.old, ?_, ?_, ?_, h.appended, fun _ => hold⟩
    · show b'.readable = s.drop (s.length - w.old) ++
        ((vs.take w.appended).drop (w.reads ++ [v]).length).flatMap TaggedInt.encode
      rw [hold, Nat.sub_zero, List.drop_length, List.nil_append, List.length_append]
      exact hrest
    · show w.reads ++ [v] = vs.take (w.reads ++ [v]).length
      rw [List.length_append, List.length_singleton, List.take_add_one, hv, ← h.reads]
      rfl
    · show (w.reads ++ [v]).length ≤ w.appended
      rw [List.length_append]
      exact hthere

theorem Coded.next (h : Coded vs s w) (order : ByteOrder) {l : IntCall}
    (hen : w.Enabled vs l) :
    ∃ w', w.step order vs l = .ok w' ∧ Coded vs s w' := by
  cases l with
  | append =>
      obtain ⟨b', hstep, hcoded⟩ := h.append order hen
      exact ⟨_, hstep, hcoded⟩
  | retrieve op =>
      obtain ⟨n, htaken, hn⟩ := hen
      obtain ⟨b', hstep, hcoded⟩ := h.retrieve order htaken hn
      exact ⟨_, hstep, hcoded⟩
  | read =>
      obtain ⟨hold, v, hv, hbytes⟩ := hen
      obtain ⟨b', hstep, hcoded⟩ := h.read order hold hv hbytes
      exact ⟨_, hstep, hcoded⟩

end IntStream

/-- Integers of mixed widths through a buffer that holds other bytes first: what
the reads return are the integers in order, what the buffer holds in addition
are their big-endian codes, every allowed call returns, and the last read
leaves the buffer empty. -/
theorem int_codec (order : ByteOrder) (vs : List TaggedInt) (b : Buffer) {ls : List IntCall}
    {w : IntStream} (hrun : (intStream order vs).Run (.start b) ls w) :
    w.reads = vs.take w.reads.length ∧
    w.buffer.readable = b.readable.drop (b.readable.length - w.old) ++
      (w.unread vs).flatMap TaggedInt.encode ∧
    (w.reads ≠ [] → w.reads.length = vs.length → w.buffer.readable = []) ∧
    ∀ l, (intStream order vs).enabled w l → ∃ w', (intStream order vs).step w l = .ok w' := by
  have h : IntStream.Coded vs b.readable w := by
    refine hrun.invariant (IntStream.coded_start vs b) ?_
    intro u l u' hu hstep
    obtain ⟨v, hv, hcoded⟩ := hu.next order hstep.1
    have heq : u.step order vs l = .ok u' := hstep.2
    rw [hv] at heq
    cases heq
    exact hcoded
  refine ⟨h.reads, h.readable, ?_, ?_⟩
  · intro hreads hall
    have hnone : w.unread vs = [] := by
      rw [IntStream.unread, List.drop_eq_nil_iff, List.length_take]
      omega
    rw [h.readable, h.first hreads, hnone]
    simp
  · intro l hen
    obtain ⟨w', hw', -⟩ := h.next order hen
    exact ⟨w', hw'⟩

/-- A byte and a negative 16-bit integer behind an old byte, which goes between
their appends. -/
theorem int_codec_mixed : ∃ (b : Buffer) (w : IntStream), b.readable = [7] ∧
    (intStream .little [⟨.int8, -1⟩, ⟨.int16, -2⟩]).Run (.start b)
      [.append, .retrieve (.retrieve 1), .append, .read, .read] w ∧
    w.reads = [⟨.int8, -1⟩, ⟨.int16, -2⟩] ∧ w.buffer.readable = [] := by
  obtain ⟨b, hs⟩ : ∃ b : Buffer, b.readable = [7] := ⟨Buffer.new.append [7], by simp⟩
  have hold : b.readable.length = 1 := by
    rw [hs]
    rfl
  have h₀ := IntStream.coded_start [⟨.int8, -1⟩, ⟨.int16, -2⟩] b
  obtain ⟨b₁, hstep₁, h₁⟩ := h₀.append .little Nat.zero_lt_two
  have htaken : (BufferOp.retrieve 1).taken b₁ = some 1 := rfl
  obtain ⟨b₂, hstep₂, h₂⟩ := h₁.retrieve .little htaken hold.ge
  obtain ⟨b₃, hstep₃, h₃⟩ := h₂.append .little Nat.one_lt_two
  have hold₃ : b.readable.length - 1 = 0 := by rw [hold]
  have hlen₃ : b₃.readableBytes = 3 := by
    have hread := h₃.readable
    rw [show IntStream.old _ = 0 from hold₃, hs] at hread
    rw [← h₃.wf.length_readable, hread]
    rfl
  obtain ⟨b₄, hstep₄, h₄⟩ := h₃.read .little (v := ⟨.int8, -1⟩) hold₃ rfl
    (hlen₃.symm ▸ Nat.le_add_left 1 2)
  have hlen₄ : b₄.readableBytes = 2 := by
    have hread := h₄.readable
    rw [show IntStream.old _ = 0 from hold₃, hs] at hread
    rw [← h₄.wf.length_readable, hread]
    rfl
  obtain ⟨b₅, hstep₅, h₅⟩ := h₄.read .little (v := ⟨.int16, -2⟩) hold₃ rfl hlen₄.ge
  obtain ⟨w, hrun, htwo⟩ : ∃ w, (intStream .little [⟨.int8, -1⟩, ⟨.int16, -2⟩]).Run (.start b)
      [.append, .retrieve (.retrieve 1), .append, .read, .read] w ∧ w.reads.length = 2 := by
    refine ⟨_, .cons ⟨?_, hstep₁⟩ (.cons ⟨?_, hstep₂⟩ (.cons ⟨?_, hstep₃⟩ (.cons ⟨?_, hstep₄⟩
      (.cons ⟨?_, hstep₅⟩ (.nil _))))), rfl⟩
    · exact Nat.zero_lt_two
    · exact ⟨1, rfl, hold.ge⟩
    · exact Nat.one_lt_two
    · exact ⟨hold₃, _, rfl, hlen₃.symm ▸ Nat.le_add_left 1 2⟩
    · exact ⟨hold₃, _, rfl, hlen₄.ge⟩
  obtain ⟨hreads, -, hempty, -⟩ := int_codec .little _ _ hrun
  have hnil : w.reads ≠ [] := by
    intro hnil
    rw [hnil] at htwo
    cases htwo
  refine ⟨b, w, hs, hrun, ?_, hempty hnil htwo⟩
  rw [hreads, htwo]
  rfl

end Ham.Net
