import Ham.Net.BufferRun

/-!
# `Buffer::readFd` with its two segments

`RawBuffer.readFd` says what a read of given stream bytes leaves behind. Here
is the whole function: the `iovec` of the writable tail and the stack area, the
number `readv` returns, `errno`. It is the short form on every read that
succeeds (`readFdVec_received`), so it appends the stream bytes
(`readFdVec_appends`); over any reads and retrievals the bytes taken out and
the bytes left are the stream (`transfer_conserves`).
-/

namespace Ham.Net

open Ham.Lib

/-- What `readv` comes back with: the next bytes of the stream, or `-1` and
`errno`. -/
inductive ReadvResult where
  | received (data : Bytes)
  | failed (errno : Int)
  deriving DecidableEq, Repr

/-- `sizeof(extraBuf)`. -/
def extraBufSize : Nat := 65536

namespace RawBuffer

/-- `readv` writes no more than the two segments hold. -/
def Fits (b : RawBuffer) : ReadvResult → Prop
  | .received data => data.length ≤ b.writableBytes + extraBufSize
  | .failed _ => True

instance (b : RawBuffer) (result : ReadvResult) : Decidable (b.Fits result) :=
  match result with
  | .received data =>
      inferInstanceAs (Decidable (data.length ≤ b.writableBytes + extraBufSize))
  | .failed _ => inferInstanceAs (Decidable True)

/-- What `readFd` hands back: `n`, `*savedErrno` and the buffer. -/
structure ReadFd where
  n : Int
  savedErrno : Int
  buffer : RawBuffer
  deriving DecidableEq, Repr

/-- `readFd(fd, &savedErrno)`. `vec[0]` is the writable tail of the vector,
`vec[1]` is `extraBuf`; `readv` fills them in this order. -/
def readFdVec (b : RawBuffer) (extraBuf : Bytes) (savedErrno : Int) :
    ReadvResult → Except Fault ReadFd
  | .failed errno => .ok { n := -1, savedErrno := errno, buffer := b }
  | .received data => do
      let n := data.length
      let writable := b.writableBytes
      -- the two segments behind `readv`
      let tail := overwrite b.buffer_ b.beginWrite (data.take writable)
      let extraBuf := overwrite extraBuf 0 (data.drop writable)
      if n ≤ writable then
        return { n, savedErrno
                 buffer := { b with buffer_ := tail, writeIndex_ := b.writeIndex_ + n } }
      else
        let full : RawBuffer := { b with buffer_ := tail, writeIndex_ := b.buffer_.length }
        let buffer ← full.append (extraBuf.take (n - writable))
        return { n, savedErrno, buffer }

variable {b : RawBuffer} {extraBuf : Bytes}

/-- The spill is found again at the start of the stack area. -/
theorem take_overwrite_zero (extraBuf data : Bytes) :
    (overwrite extraBuf 0 data).take data.length = data := by
  simp [overwrite]

/-- A read that succeeds. -/
theorem readFdVec_received (extraBuf : Bytes) (savedErrno : Int) (data : Bytes) :
    b.readFdVec extraBuf savedErrno (.received data) =
      (b.readFd data).map fun buffer => { n := data.length, savedErrno, buffer } := by
  by_cases hfit : data.length ≤ b.writableBytes
  · have hall : data.take b.writableBytes = data := List.take_of_length_le hfit
    simp only [readFdVec, readFd, if_pos hfit, hall]
    rfl
  · have hspill : (overwrite extraBuf 0 (data.drop b.writableBytes)).take
        (data.length - b.writableBytes) = data.drop b.writableBytes := by
      rw [← List.length_drop]
      exact take_overwrite_zero extraBuf _
    simp only [readFdVec, readFd, if_neg hfit, hspill]
    cases RawBuffer.append _ (data.drop b.writableBytes) <;> rfl

/-- The scatter read is an append of the stream bytes. -/
theorem readFdVec_appends (h : b.Wf) (extraBuf : Bytes) (savedErrno : Int) (data : Bytes) :
    ∃ b', b.readFdVec extraBuf savedErrno (.received data) =
        .ok { n := data.length, savedErrno, buffer := b' } ∧
      b'.Wf ∧ b'.readable = b.readable ++ data := by
  obtain ⟨b', hread, hwf, hbytes⟩ := readFd_spec h data
  refine ⟨b', ?_, hwf, hbytes⟩
  rw [readFdVec_received, hread]
  rfl

end RawBuffer

/-! ## Buffers that are read into -/

/-- A call on the buffers of a family, or a `readFd` into one of them. -/
inductive ReadCall (κ : Type) where
  | call (c : BufferCall κ)
  | readFd (i : κ) (extraBuf : Bytes) (savedErrno : Int) (result : ReadvResult)

section

variable {κ : Type} [DecidableEq κ]

/-- Every buffer of the family, under every sequence of allowed calls and
reads. The stack area starts with whatever was there. -/
def readBuffers (κ : Type) [DecidableEq κ] : System (κ → RawBuffer) (ReadCall κ) Fault where
  enabled := fun s l => match l with
    | .call c => (buffers κ).enabled s c
    | .readFd i extraBuf _ result => extraBuf.length = extraBufSize ∧ (s i).Fits result
  step := fun s l => match l with
    | .call c => (buffers κ).step s c
    | .readFd i extraBuf savedErrno result => do
        let r ← (s i).readFdVec extraBuf savedErrno result
        return Function.update s i r.buffer

/-- A read returns a well-formed buffer. -/
theorem readFdVec_wf {b : RawBuffer} (h : b.Wf) {extraBuf : Bytes} {savedErrno : Int}
    {result : ReadvResult} {r : RawBuffer.ReadFd}
    (hr : b.readFdVec extraBuf savedErrno result = .ok r) : r.buffer.Wf := by
  cases result with
  | received data =>
      obtain ⟨b', hread, hwf, -⟩ := RawBuffer.readFdVec_appends h extraBuf savedErrno data
      rw [hread] at hr
      cases hr
      exact hwf
  | failed errno =>
      cases hr
      exact h

/-- Every buffer that calls and reads lead to is well formed. -/
theorem readBuffers_wf {ls : List (ReadCall κ)} {s : κ → RawBuffer}
    (hrun : (readBuffers κ).Run (fun _ => .new) ls s) (i : κ) : (s i).Wf := by
  refine hrun.invariant (I := fun s => ∀ i, (s i).Wf) (fun _ => RawBuffer.new_wf) ?_ i
  intro s l s' hs hst
  cases l with
  | call c =>
      have hrep : Represents s fun i => (s i).readable := fun i => ⟨hs i, rfl⟩
      exact fun i => (hrep.step hst i).1
  | readFd j extraBuf savedErrno result =>
      obtain ⟨-, hstep⟩ := hst
      obtain ⟨r, hr, hupd⟩ := bind_eq_ok.mp hstep
      cases hupd
      intro k
      by_cases hk : k = j
      · subst hk
        simpa only [Function.update_self] using readFdVec_wf (hs k) hr
      · simpa only [Function.update_of_ne hk] using hs k

end

/-! ## A stream through one buffer -/

namespace BufferOp

/-- The call takes bytes out, or only moves them. -/
def Drains : BufferOp → Prop
  | .append _ | .prepend _ => False
  | _ => True

/-- How many bytes the call takes out. -/
def takes (b : RawBuffer) : BufferOp → Nat
  | .retrieve len | .retrieveAsString len | .retrieveUtil len => len
  | .retrieveAll | .retrieveAllAsString => b.readableBytes
  | _ => 0

/-- The bytes the call takes out: the string it returns, or else the bytes from
`peek()` on that it skips. -/
def out (b : RawBuffer) (returned : Bytes) : BufferOp → Bytes
  | .retrieveAsString _ | .retrieveAllAsString => returned
  | op => slice b.buffer_ b.peek (b.peek + op.takes b)

/-- What such a call leaves behind it. -/
theorem onBytes_drains {b : RawBuffer} (h : b.Wf) {op : BufferOp} (hop : op.Drains) :
    (op.onBytes b.readable).2 = b.readable.drop (op.takes b) := by
  have hall : b.readable.drop b.readableBytes = [] := by
    rw [← h.length_readable, List.drop_length]
  cases op with
  | append data => cases hop
  | prepend data => cases hop
  | retrieveAll => exact hall.symm
  | retrieveAllAsString => exact hall.symm
  | _ => rfl

/-- The caller may not take more than there is. -/
theorem takes_le {b : RawBuffer} {op : BufferOp} (hop : op.Allowed b) :
    op.takes b ≤ b.readableBytes := by
  cases op with
  | retrieve len => exact hop
  | retrieveAsString len => exact hop
  | retrieveUtil len => exact hop
  | retrieveAll => exact Nat.le_refl _
  | retrieveAllAsString => exact Nat.le_refl _
  | _ => exact Nat.zero_le _

/-- Either way the first readable bytes go out. -/
theorem out_eq {b : RawBuffer} (h : b.Wf) {op : BufferOp} (hop : op.Allowed b) :
    op.out b (op.onBytes b.readable).1 = b.readable.take (op.takes b) := by
  have hskip := h.slice_peek (takes_le hop)
  cases op with
  | retrieveAsString len => rfl
  | retrieveAllAsString =>
      show b.readable = b.readable.take b.readableBytes
      rw [← h.length_readable, List.take_length]
  | _ => exact hskip

end BufferOp

/-- A buffer, the bytes taken out of it so far and the bytes `readv` has
delivered to it. -/
structure Transfer where
  buffer : RawBuffer
  taken : Bytes
  received : Bytes
  deriving DecidableEq, Repr

inductive TransferCall where
  | readFd (extraBuf : Bytes) (savedErrno : Int) (result : ReadvResult)
  | drain (op : BufferOp)
  deriving DecidableEq, Repr

/-- The stream bytes of a result. -/
def ReadvResult.bytes : ReadvResult → Bytes
  | .received data => data
  | .failed _ => []

/-- Reads and retrievals in any order. -/
def transfers : System Transfer TransferCall Fault where
  enabled := fun x l => match l with
    | .readFd extraBuf _ result => extraBuf.length = extraBufSize ∧ x.buffer.Fits result
    | .drain op => op.Allowed x.buffer ∧ op.Drains
  step := fun x l => match l with
    | .readFd extraBuf savedErrno result => do
        let r ← x.buffer.readFdVec extraBuf savedErrno result
        return { x with buffer := r.buffer, received := x.received ++ result.bytes }
    | .drain op => do
        let r ← op.run x.buffer
        return { x with buffer := r.2, taken := x.taken ++ op.out x.buffer r.1 }

/-- What went in is what came out and what is still there. -/
structure Conserves (start : Bytes) (x : Transfer) : Prop where
  wf : x.buffer.Wf
  stream : x.taken ++ x.buffer.readable = start ++ x.received

/-- Every step returns and keeps the account. -/
theorem Conserves.next {start : Bytes} {x : Transfer} (h : Conserves start x)
    {l : TransferCall} (hen : transfers.enabled x l) :
    ∃ x', transfers.step x l = .ok x' ∧ Conserves start x' := by
  cases l with
  | readFd extraBuf savedErrno result =>
      cases result with
      | received data =>
          obtain ⟨b', hread, hwf, hbytes⟩ :=
            RawBuffer.readFdVec_appends h.wf extraBuf savedErrno data
          refine ⟨{ x with buffer := b', received := x.received ++ data }, ?_, hwf, ?_⟩
          · simp only [transfers, hread, ok_bind]
            rfl
          · show x.taken ++ b'.readable = start ++ (x.received ++ data)
            rw [hbytes, ← List.append_assoc, h.stream, List.append_assoc]
      | failed errno =>
          refine ⟨{ x with received := x.received ++ [] }, rfl, h.wf, ?_⟩
          simpa using h.stream
  | drain op =>
      obtain ⟨hallowed, hdrains⟩ := hen
      obtain ⟨b', hop, hwf, hleft, -⟩ := op.run_spec h.wf hallowed
      have hout := BufferOp.out_eq h.wf hallowed
      refine ⟨{ x with
        buffer := b'
        taken := x.taken ++ x.buffer.readable.take (op.takes x.buffer) }, ?_, hwf, ?_⟩
      · simp only [transfers, hop, ok_bind, hout]
        rfl
      · show (x.taken ++ _) ++ b'.readable = start ++ x.received
        rw [hleft, BufferOp.onBytes_drains h.wf hdrains, List.append_assoc,
          List.take_append_drop]
        exact h.stream

theorem transfer_conserves {start : Bytes} {x y : Transfer} {ts : List TransferCall}
    (hrun : transfers.Run x ts y) (h : Conserves start x) : Conserves start y := by
  refine hrun.invariant (I := Conserves start) h ?_
  intro x l x' hx hst
  obtain ⟨x'', hstep, hx''⟩ := hx.next hst.1
  cases hstep.symm.trans hst.2
  exact hx''

/-- Into every buffer that calls and reads lead to, a read that delivers `data`
appends it, and one that fails leaves the buffer alone and reports `errno`.
From there on, whatever is read and retrieved, every call returns and the bytes
taken out and the bytes left are the old ones and the stream, in order. -/
theorem scatter_read_appends {κ : Type} [DecidableEq κ] {ls : List (ReadCall κ)}
    {s : κ → RawBuffer} (hrun : (readBuffers κ).Run (fun _ => .new) ls s) (i : κ) :
    (∀ extraBuf savedErrno data, ∃ b',
      (s i).readFdVec extraBuf savedErrno (.received data) =
        .ok { n := data.length, savedErrno, buffer := b' } ∧
      b'.readable = (s i).readable ++ data) ∧
    (∀ extraBuf savedErrno errno,
      (s i).readFdVec extraBuf savedErrno (.failed errno) =
        .ok { n := -1, savedErrno := errno, buffer := s i }) ∧
    ∀ ts x, transfers.Run { buffer := s i, taken := [], received := [] } ts x →
      x.taken ++ x.buffer.readable = (s i).readable ++ x.received ∧
      ∀ l, transfers.enabled x l → ∃ x', transfers.Step x l x' := by
  have hwf := readBuffers_wf hrun i
  refine ⟨?_, fun _ _ _ => rfl, ?_⟩
  · intro extraBuf savedErrno data
    obtain ⟨b', hread, -, hbytes⟩ := RawBuffer.readFdVec_appends hwf extraBuf savedErrno data
    exact ⟨b', hread, hbytes⟩
  · intro ts x hts
    have hx : Conserves (s i).readable x := by
      refine transfer_conserves hts ⟨hwf, ?_⟩
      show [] ++ (s i).readable = (s i).readable ++ []
      simp
    refine ⟨hx.stream, ?_⟩
    intro l hen
    obtain ⟨x', hstep, -⟩ := hx.next hen
    exact ⟨x', hen, hstep⟩

/-- A read that spills into the stack area, from a new buffer. -/
theorem scatter_read_appends_spill : ∃ s : Unit → RawBuffer,
    (readBuffers Unit).Run (fun _ => .new) [.readFd () (List.replicate 65536 0) 0
      (.received (List.replicate 1030 7))] s ∧
    (s ()).readable = List.replicate 1030 7 ∧
    ∀ ts x, transfers.Run { buffer := s (), taken := [], received := [] } ts x →
      x.taken ++ x.buffer.readable = List.replicate 1030 7 ++ x.received := by
  obtain ⟨b', hread, -, hbytes⟩ := RawBuffer.readFdVec_appends RawBuffer.new_wf
    (List.replicate 65536 0) 0 (List.replicate 1030 7)
  have hfits : RawBuffer.new.Fits (.received (List.replicate 1030 7)) := by
    show (List.replicate 1030 (7 : Byte)).length ≤ RawBuffer.new.writableBytes + extraBufSize
    rw [List.length_replicate, RawBuffer.new_asserts.2.1]
    decide
  have hrun : (readBuffers Unit).Run (fun _ => .new) [.readFd () (List.replicate 65536 0) 0
      (.received (List.replicate 1030 7))] (Function.update (fun _ => .new) () b') := by
    refine .cons ⟨⟨List.length_replicate, hfits⟩, ?_⟩ (.nil _)
    simp only [readBuffers, hread, ok_bind]
    rfl
  have hnow : b'.readable = List.replicate 1030 7 := by
    rw [hbytes, RawBuffer.new_readable, List.nil_append]
  refine ⟨_, hrun, ?_, ?_⟩
  · simpa only [Function.update_self] using hnow
  · intro ts x hts
    have hstream := ((scatter_read_appends hrun ()).2.2 ts x hts).1
    rwa [Function.update_self, hnow] at hstream

end Ham.Net
