import Ham.Lib.Run
import Ham.Net.Buffer

/-!
# `Buffer` as a byte sequence

Any number of buffers under any sequence of calls, swaps included. A buffer is
a list of bytes: `BufferOp.onBytes` says what each call does to the list, and
`buffer_refines` that the class does the same, returns what it should and fails
no assertion.
-/

namespace Ham.Net

open Ham.Lib

/-- The calls on one buffer. `retrieveUtil` is given by its distance from
`peek()`. -/
inductive BufferOp where
  | append (data : Bytes)
  | prepend (data : Bytes)
  | retrieve (len : Nat)
  | retrieveAsString (len : Nat)
  | retrieveUtil (len : Nat)
  | retrieveAll
  | retrieveAllAsString
  | ensureWritableBytes (len : Nat)
  | shrink (reserve : Nat)
  deriving DecidableEq, Repr

namespace BufferOp

/-- The call, with the string it returns. -/
def run (b : RawBuffer) : BufferOp → Except Fault (Bytes × RawBuffer)
  | .append data => do return ([], ← b.append data)
  | .prepend data => do return ([], ← b.prepend data)
  | .retrieve len => do return ([], ← b.retrieve len)
  | .retrieveAsString len => b.retrieveAsString len
  | .retrieveUtil len => do return ([], ← b.retrieveUtil (b.peek + len))
  | .retrieveAll => .ok ([], b.retrieveAll)
  | .retrieveAllAsString => b.retrieveAllAsString
  | .ensureWritableBytes len => do return ([], ← b.ensureWritableBytes len)
  | .shrink reserve => do return ([], ← b.shrink reserve)

/-- What the caller has to see to. -/
def Allowed (b : RawBuffer) : BufferOp → Prop
  | .prepend data => data.length ≤ b.prependableBytes
  | .retrieve len | .retrieveAsString len | .retrieveUtil len => len ≤ b.readableBytes
  | _ => True

/-- The call on a byte list: what it returns and what it leaves. -/
def onBytes (data : Bytes) : BufferOp → Bytes × Bytes
  | .append new => ([], data ++ new)
  | .prepend new => ([], new ++ data)
  | .retrieve len | .retrieveUtil len => ([], data.drop len)
  | .retrieveAsString len => (data.take len, data.drop len)
  | .retrieveAll => ([], [])
  | .retrieveAllAsString => (data, [])
  | .ensureWritableBytes _ | .shrink _ => ([], data)

/-- The writable bytes the call promises. -/
def reserved : BufferOp → Nat
  | .ensureWritableBytes len => len
  | .shrink reserve => reserve
  | _ => 0

variable {b : RawBuffer}

/-- A call that returns nothing. -/
theorem run_of_void {r : Except Fault RawBuffer} {data : Bytes} {room : Nat}
    (h : ∃ b', r = .ok b' ∧ b'.Wf ∧ b'.readable = data ∧ room ≤ b'.writableBytes) :
    ∃ b', (do return (([] : Bytes), ← r)) = .ok ([], b') ∧ b'.Wf ∧ b'.readable = data ∧
      room ≤ b'.writableBytes := by
  obtain ⟨b', rfl, hrest⟩ := h
  exact ⟨b', rfl, hrest⟩

/-- A call that promises no room. -/
theorem with_room {r : Except Fault RawBuffer} {data : Bytes}
    (h : ∃ b', r = .ok b' ∧ b'.Wf ∧ b'.readable = data) :
    ∃ b', r = .ok b' ∧ b'.Wf ∧ b'.readable = data ∧ 0 ≤ b'.writableBytes :=
  h.imp fun _ hb => ⟨hb.1, hb.2.1, hb.2.2, Nat.zero_le _⟩

/-- Every allowed call returns, keeps the invariant and does to the readable
bytes what it does to a byte list. -/
theorem run_spec (h : b.Wf) (op : BufferOp) (hop : op.Allowed b) :
    ∃ b', op.run b = .ok ((op.onBytes b.readable).1, b') ∧ b'.Wf ∧
      b'.readable = (op.onBytes b.readable).2 ∧ op.reserved ≤ b'.writableBytes := by
  have hlen := h.length_readable
  cases op with
  | append data => exact run_of_void (with_room (RawBuffer.append_spec h data))
  | prepend data => exact run_of_void (with_room (RawBuffer.prepend_spec h hop))
  | retrieve len =>
      exact run_of_void (with_room (RawBuffer.retrieve_spec h (le_of_le_of_eq hop hlen.symm)))
  | retrieveAsString len =>
      obtain ⟨b', hrun, hwf, hread⟩ :=
        RawBuffer.retrieveAsString_spec h (le_of_le_of_eq hop hlen.symm)
      exact ⟨b', hrun, hwf, hread, Nat.zero_le _⟩
  | retrieveUtil len =>
      exact run_of_void (with_room (RawBuffer.retrieveUtil_spec h (le_of_le_of_eq hop hlen.symm)))
  | retrieveAll =>
      obtain ⟨hwf, hread⟩ := RawBuffer.retrieveAll_spec h
      exact ⟨b.retrieveAll, rfl, hwf, hread, Nat.zero_le _⟩
  | retrieveAllAsString =>
      obtain ⟨b', hrun, hwf, hread⟩ := RawBuffer.retrieveAllAsString_spec h
      exact ⟨b', hrun, hwf, hread, Nat.zero_le _⟩
  | ensureWritableBytes len => exact run_of_void (RawBuffer.ensureWritableBytes_spec h len)
  | shrink reserve => exact run_of_void (RawBuffer.shrink_spec h reserve)

end BufferOp

/-! ## Runs -/

/-- A call on one of a family of buffers, or a swap of two. -/
inductive BufferCall (κ : Type) where
  | call (i : κ) (op : BufferOp)
  | swap (i j : κ)

section

variable {κ : Type} [DecidableEq κ]

/-- `buffers i` and `buffers j` exchanged. -/
def exchange {β : Type} (f : κ → β) (i j : κ) : κ → β :=
  Function.update (Function.update f i (f j)) j (f i)

/-- Every buffer of the family, under every sequence of allowed calls. -/
def buffers (κ : Type) [DecidableEq κ] : System (κ → RawBuffer) (BufferCall κ) Fault where
  enabled := fun s l => match l with
    | .call i op => op.Allowed (s i)
    | .swap _ _ => True
  step := fun s l => match l with
    | .call i op => do
        let r ← op.run (s i)
        return Function.update s i r.2
    | .swap i j => .ok (exchange s i j)

/-- The same call on byte lists. -/
def BufferCall.onBytes (contents : κ → Bytes) : BufferCall κ → κ → Bytes
  | .call i op => Function.update contents i (op.onBytes (contents i)).2
  | .swap i j => exchange contents i j

/-- The byte lists after a sequence of calls on new buffers. -/
def bufferContents (ls : List (BufferCall κ)) : κ → Bytes :=
  ls.foldl BufferCall.onBytes fun _ => []

/-- A property of every buffer and its list survives an exchange. -/
theorem exchange_forall {β γ : Type} {P : β → γ → Prop} {f : κ → β} {g : κ → γ}
    (h : ∀ i, P (f i) (g i)) (i j k : κ) : P (exchange f i j k) (exchange g i j k) := by
  unfold exchange
  by_cases hj : k = j
  · subst hj
    simpa only [Function.update_self] using h i
  · by_cases hi : k = i
    · subst hi
      simpa only [Function.update_of_ne hj, Function.update_self] using h j
    · simpa only [Function.update_of_ne hj, Function.update_of_ne hi] using h k

/-- The buffers are well formed and hold the byte lists. -/
def Represents (s : κ → RawBuffer) (contents : κ → Bytes) : Prop :=
  ∀ i, (s i).Wf ∧ (s i).readable = contents i

theorem Represents.step {s s' : κ → RawBuffer} {contents : κ → Bytes} {l : BufferCall κ}
    (h : Represents s contents) (hstep : (buffers κ).Step s l s') :
    Represents s' (l.onBytes contents) := by
  obtain ⟨hen, hstep⟩ := hstep
  cases l with
  | call i op =>
      obtain ⟨b', hrun, hwf, hread, -⟩ := op.run_spec (h i).1 hen
      simp only [buffers, hrun, ok_bind, pure_eq_ok, Except.ok.injEq] at hstep
      subst hstep
      intro k
      by_cases hk : k = i
      · subst hk
        rw [(h k).2] at hread
        simpa only [BufferCall.onBytes, Function.update_self] using ⟨hwf, hread⟩
      · simpa only [BufferCall.onBytes, Function.update_of_ne hk] using h k
  | swap i j =>
      cases hstep
      exact exchange_forall (P := fun (b : RawBuffer) data => b.Wf ∧ b.readable = data) h i j

/-- An allowed call returns. -/
theorem Represents.next {s : κ → RawBuffer} {contents : κ → Bytes} {l : BufferCall κ}
    (h : Represents s contents) (hen : (buffers κ).enabled s l) :
    ∃ s', (buffers κ).Step s l s' := by
  cases l with
  | call i op =>
      obtain ⟨b', hrun, -⟩ := op.run_spec (h i).1 hen
      refine ⟨Function.update s i b', hen, ?_⟩
      simp only [buffers, hrun, ok_bind]
      rfl
  | swap i j => exact ⟨exchange s i j, hen, rfl⟩

/-- The assertions of the constructor. -/
theorem RawBuffer.new_asserts : RawBuffer.new.readableBytes = 0 ∧
    RawBuffer.new.writableBytes = RawBuffer.kInitialSize ∧
    RawBuffer.new.prependableBytes = RawBuffer.kCheapPrepend := by
  refine ⟨rfl, ?_, rfl⟩
  simp [writableBytes, RawBuffer.new]

/-- After any calls on new buffers (the assertions of the constructor hold) each
of them holds its byte list, with its indices in order, and the next allowed
call returns, gives back the bytes of the list and leaves the room it
promises. -/
theorem buffer_refines {ls : List (BufferCall κ)} {s : κ → RawBuffer}
    (hrun : (buffers κ).Run (fun _ => .new) ls s) (i : κ) :
    (RawBuffer.new.readableBytes = 0 ∧ RawBuffer.new.writableBytes = RawBuffer.kInitialSize ∧
      RawBuffer.new.prependableBytes = RawBuffer.kCheapPrepend) ∧
    (s i).readIndex_ ≤ (s i).writeIndex_ ∧ (s i).writeIndex_ ≤ (s i).buffer_.length ∧
    (s i).readable = bufferContents ls i ∧
    ∀ op : BufferOp, op.Allowed (s i) →
      ∃ b', op.run (s i) = .ok ((op.onBytes (bufferContents ls i)).1, b') ∧
        b'.readable = (op.onBytes (bufferContents ls i)).2 ∧ op.reserved ≤ b'.writableBytes := by
  have h : Represents s (bufferContents ls) :=
    hrun.simulates (fun _ => ⟨RawBuffer.new_wf, RawBuffer.new_readable⟩)
      fun _ _ _ _ hs hstep => hs.step hstep
  obtain ⟨hwf, hread⟩ := h i
  refine ⟨RawBuffer.new_asserts, hwf.ordered, hwf.bounded, hread, ?_⟩
  intro op hop
  obtain ⟨b', hop, -, hread', hroom⟩ := op.run_spec hwf hop
  rw [hread] at hop hread'
  exact ⟨b', hop, hread', hroom⟩

/-- A prefix that takes the whole headroom, an append behind it, a swap. -/
theorem buffer_refines_prepend : ∃ s : Bool → RawBuffer, (buffers Bool).Run (fun _ => .new)
      [.call true (.prepend [1, 2, 3, 4, 5, 6, 7, 8]), .call true (.append [9, 10]),
        .swap true false, .call false (.retrieve 9)] s ∧
    (s false).readIndex_ ≤ (s false).writeIndex_ ∧ (s false).readable = [10] ∧
    (s true).readable = [] := by
  have hnew : Represents (fun _ : Bool => RawBuffer.new) fun _ => [] :=
    fun _ => ⟨RawBuffer.new_wf, RawBuffer.new_readable⟩
  obtain ⟨s₁, h₁⟩ := hnew.next
    (l := .call true (.prepend [1, 2, 3, 4, 5, 6, 7, 8])) (Nat.le_refl 8)
  have hs₁ := hnew.step h₁
  obtain ⟨s₂, h₂⟩ := hs₁.next (l := .call true (.append [9, 10])) trivial
  have hs₂ := hs₁.step h₂
  obtain ⟨s₃, h₃⟩ := hs₂.next (l := .swap true false) trivial
  have hs₃ := hs₂.step h₃
  have hlen : 9 ≤ (s₃ false).readableBytes := by
    rw [← (hs₃ false).1.length_readable, (hs₃ false).2]
    decide
  obtain ⟨s₄, h₄⟩ := hs₃.next (l := .call false (.retrieve 9)) hlen
  have hrun := System.Run.cons h₁ (.cons h₂ (.cons h₃ (.cons h₄ (.nil s₄))))
  obtain ⟨-, hordered, -, hread, -⟩ := buffer_refines hrun false
  obtain ⟨-, -, -, hread', -⟩ := buffer_refines hrun true
  exact ⟨s₄, hrun, hordered, hread, hread'⟩

end

end Ham.Net
