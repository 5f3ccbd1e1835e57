import Ham.Net.ConnectionSpec
import Ham.Net.OutputStream
import Ham.Net.Reactor

/-!
# Write-complete and high-water calls

What an open connection queues for the user while it sends. `sendInLoop` and
`handleWrite` queue `writeCompleteCallback_` when the kernel has taken all there
is, and `sendInLoop` queues `highWaterMarkCallback_` when what it leaves in
`outputBuffer_` reaches the mark.

* `Open.sendInLoop_sends`, `Open.handleWrite_drains` — one call: its message joins
  the stream or not, and what it queues follows from what is pending before and
  after it;
* `writeComplete_counts` — over a run: one write-complete call for each message
  that joined the stream, less the one that is still pending, and no two
  high-water calls without a write-complete call between them.
-/

namespace Ham.Net

open Ham.Lib

namespace Effect

def isWriteComplete : Effect → Bool
  | .queueInLoop (.writeCompleteCallback _) => true
  | _ => false

def isHighWater : Effect → Bool
  | .queueInLoop (.highWaterMarkCallback _ _) => true
  | _ => false

end Effect

/-- The errors after which `sendInLoop` gives its message up. -/
def WriteResult.isFault : WriteResult → Bool
  | .failed .ePipe | .failed .eConnReset => true
  | _ => false

namespace ConnRun

variable {x y z : ConnRun} {es es' : List Effect}

/-- Output waits for the socket to become writable. -/
def pending (x : ConnRun) : Bool := x.conn.outputBuffer_.readable ≠ []

/-- What `queueWriteComplete` queues. -/
def completion (x : ConnRun) : List Effect :=
  if x.conn.writeCompleteCallback_ then [.queueInLoop (.writeCompleteCallback x.conn.self)] else []

/-- What `bufferRest` queues for `size` bytes on an empty buffer. -/
def highWater (x : ConnRun) (size : Nat) : List Effect :=
  if 0 < x.conn.highWaterMark_ ∧ x.conn.highWaterMark_ ≤ size ∧ x.conn.highWaterMarkCallback_ then
    [.queueInLoop (.highWaterMarkCallback x.conn.self size)]
  else []

/-! ## What a call queues -/

/-- The call has queued `es`, and the settings are as before. -/
structure Queues (x : ConnRun) (es : List Effect) (y : ConnRun) : Prop where
  effects : y.effects = x.effects ++ es
  self : y.conn.self = x.conn.self
  writeComplete : y.conn.writeCompleteCallback_ = x.conn.writeCompleteCallback_
  mark : y.conn.highWaterMark_ = x.conn.highWaterMark_
  highWater : y.conn.highWaterMarkCallback_ = x.conn.highWaterMarkCallback_

theorem Queues.refl (x : ConnRun) : Queues x [] x where
  effects := (List.append_nil _).symm
  self := rfl
  writeComplete := rfl
  mark := rfl
  highWater := rfl

theorem Queues.trans (h : Queues x es y) (h' : Queues y es' z) : Queues x (es ++ es') z where
  effects := by rw [h'.effects, h.effects, List.append_assoc]
  self := h'.self.trans h.self
  writeComplete := h'.writeComplete.trans h.writeComplete
  mark := h'.mark.trans h.mark
  highWater := h'.highWater.trans h.highWater

/-- A change of anything else queues nothing. -/
theorem Queues.then_nil (h : Queues x es y) (h' : Queues y [] z) : Queues x es z :=
  List.append_nil es ▸ h.trans h'

theorem Queues.nil_then (h : Queues x [] y) (h' : Queues y es z) : Queues x es z := h.trans h'

theorem onChannel_conn {f : Channel → Epoller → Except Fault (Epoller × Channel)}
    (h : x.onChannel f = .ok y) : ∃ ch, y.conn = { x.conn with channel_ := ch } := by
  simp only [onChannel, bind_eq_ok, pure_eq_ok, Except.ok.injEq] at h
  obtain ⟨⟨p, ch⟩, -, rfl⟩ := h
  exact ⟨ch, rfl⟩

theorem onChannel_queues {f : Channel → Epoller → Except Fault (Epoller × Channel)}
    (h : x.onChannel f = .ok y) : Queues x [] y := by
  simp only [onChannel, bind_eq_ok, pure_eq_ok, Except.ok.injEq] at h
  obtain ⟨⟨p, ch⟩, -, rfl⟩ := h
  exact { Queues.refl x with }

theorem queueWriteComplete_queues (x : ConnRun) : Queues x x.completion x.queueWriteComplete := by
  unfold completion queueWriteComplete
  split
  · exact ⟨rfl, rfl, rfl, rfl, rfl⟩
  · exact .refl x

theorem bufferRest_queues {data : Bytes} {n rest : Nat} (hidle : x.pending = false)
    (h : x.bufferRest data n rest = .ok y) : Queues x (x.highWater rest) y := by
  have hempty : x.conn.outputBuffer_.readableBytes = 0 :=
    readableBytes_eq_zero.mpr (by simpa [pending] using hidle)
  simp only [ConnRun.bufferRest, hempty, Nat.zero_add, ge_iff_le] at h
  have hmarked : Queues x (x.highWater rest)
      (if 0 < x.conn.highWaterMark_ ∧ x.conn.highWaterMark_ ≤ rest ∧
          x.conn.highWaterMarkCallback_ = true then
        x.emit (.queueInLoop (.highWaterMarkCallback x.conn.self rest)) else x) := by
    unfold highWater
    split
    · exact ⟨rfl, rfl, rfl, rfl, rfl⟩
    · exact .refl x
  generalize (if 0 < x.conn.highWaterMark_ ∧ x.conn.highWaterMark_ ≤ rest ∧
    x.conn.highWaterMarkCallback_ = true then
      x.emit (.queueInLoop (.highWaterMarkCallback x.conn.self rest)) else x) = z at h hmarked
  -- the append and the interest in writing queue nothing
  have happended : Queues x (x.highWater rest) { z with conn := { z.conn with
      outputBuffer_ := z.conn.outputBuffer_.append ((data.drop n).take rest) } } :=
    { hmarked with }
  split at h
  · cases h
    exact happended
  · exact happended.then_nil (onChannel_queues h)

/-! ## One call -/

/-- The message joins the stream, whole or in part at once, or the connection
does not look at it. -/
inductive Sends (x : ConnRun) (data : Bytes) (fault : Bool) (y : ConnRun) :
    List Effect → Prop
  | refused (h : x.pending = true ∨ data = [] ∨ fault = true) :
      y.pending = x.pending → y.stream = x.stream → Sends x data fault y []
  | whole : x.pending = false → y.pending = false → y.stream = x.stream ++ data →
      Sends x data fault y x.completion
  | rest : x.pending = false → y.pending = true → y.stream = x.stream ++ data →
      y.conn.outputBuffer_.readable.length ≤ data.length →
      Sends x data fault y (x.highWater y.conn.outputBuffer_.readable.length)

theorem pending_eq_false : x.pending = false ↔ x.conn.outputBuffer_.readable = [] := by
  simp [pending]

/-- An error that is not a fault is treated like `EWOULDBLOCK`. -/
theorem sendInLoop_wouldBlock (x : ConnRun) (data : Bytes) {errno : WriteErrno}
    (h : (WriteResult.failed errno).isFault = false) :
    x.sendInLoop data (.failed errno) = x.sendInLoop data (.failed .eWouldBlock) := by
  cases errno with
  | eWouldBlock => rfl
  | other => rfl
  | ePipe => cases h
  | eConnReset => cases h

/-- A fault gives the message up. -/
theorem Open.sendInLoop_fault (h : Open x) (data : Bytes) {write : WriteResult}
    (hfault : write.isFault = true) : x.sendInLoop data write = .ok x := by
  have hgiven : x.directWrite data write = (x, 0, true) := by
    unfold WriteResult.isFault at hfault
    split at hfault
    · rfl
    · rfl
    · cases hfault
  rw [sendInLoop, assertInLoopThread_ok h.inLoop, ok_bind]
  split
  · dsimp only
    rw [hgiven, assert_pos (Nat.sub_le _ _), ok_bind]
    rfl
  · rfl

/-- `sendInLoop` with nothing pending: the direct write, and what it leaves to
`bufferRest`. -/
theorem Open.sendInLoop_eq (h : Open x) (hidle : x.conn.outputBuffer_.readable = [])
    (data : Bytes) (write : WriteResult) :
    x.sendInLoop data write =
      if (x.directWrite data write).2.2 = false ∧ 0 < data.length - (x.directWrite data write).2.1
      then (x.directWrite data write).1.bufferRest data (x.directWrite data write).2.1
        (data.length - (x.directWrite data write).2.1)
      else .ok (x.directWrite data write).1 := by
  rw [sendInLoop, assertInLoopThread_ok h.inLoop, ok_bind,
    if_pos ⟨h.idle hidle, readableBytes_eq_zero.mpr hidle⟩]
  dsimp only
  rw [assert_pos (Nat.sub_le _ _), ok_bind]
  rfl

/-- With nothing pending and a result that is no fault. -/
theorem Open.sendInLoop_accepts (h : Open x) (hidle : x.conn.outputBuffer_.readable = [])
    (data : Bytes) {write : WriteResult} (hfits : write.Fits data.length) :
    ∃ y es, x.sendInLoop data write = .ok y ∧ Open y ∧ Queues x es y ∧
      Sends x data write.isFault y es := by
  obtain ⟨y, hy, hopen, hacc, hread⟩ := h.sendInLoop_idle hidle data hfits
  have hstream : y.stream = x.stream ++ data := by
    rw [stream, stream, hacc, hread, hidle, List.append_nil, List.append_assoc,
      List.take_append_drop]
  have hx : x.pending = false := pending_eq_false.mpr hidle
  have heq := h.sendInLoop_eq hidle data write
  rw [hy] at heq
  cases write with
  | wrote n =>
      have hn : n ≤ data.length := hfits
      by_cases hall : data.length - n = 0
      · -- the kernel took all of it
        have hnone : y.pending = false := by
          rw [pending_eq_false, hread, WriteResult.count, List.drop_of_length_le (by omega)]
        have hy' : y = (x.accept data n).queueWriteComplete := by
          simpa [directWrite, hall] using heq
        refine ⟨y, x.completion, hy, hopen, ?_, .whole hx hnone hstream⟩
        subst hy'
        exact { queueWriteComplete_queues (x.accept data n) with }
      · have hsome : y.pending = true := by
          simp [pending, hread, WriteResult.count]
          omega
        have hrest : (x.accept data n).bufferRest data n (data.length - n) = .ok y := by
          simpa [directWrite, hall, Nat.pos_of_ne_zero hall] using heq.symm
        have hsize : y.conn.outputBuffer_.readable.length = data.length - n := by
          rw [hread, WriteResult.count, List.length_drop]
        refine ⟨y, x.highWater y.conn.outputBuffer_.readable.length, hy, hopen, ?_,
          .rest hx hsome hstream (by omega)⟩
        rw [hsize]
        exact { bufferRest_queues (x := x.accept data n) hx hrest with }
  | failed errno =>
      have herrno : errno = .eWouldBlock := hfits
      subst herrno
      by_cases hnil : data = []
      · subst hnil
        have hy' : y = x := by simpa [directWrite] using heq
        subst hy'
        exact ⟨y, [], hy, hopen, .refl y, .refused (.inr (.inl rfl)) rfl rfl⟩
      · have hlen : 0 < data.length := List.length_pos_iff.mpr hnil
        have hsome : y.pending = true := by
          simp [pending, hread, WriteResult.count, hnil]
        have hrest : x.bufferRest data 0 data.length = .ok y := by
          simpa [directWrite, hlen] using heq.symm
        have hsize : y.conn.outputBuffer_.readable.length = data.length := by
          rw [hread, WriteResult.count, List.drop_zero]
        refine ⟨y, x.highWater y.conn.outputBuffer_.readable.length, hy, hopen, ?_,
          .rest hx hsome hstream hsize.le⟩
        rw [hsize]
        exact bufferRest_queues hx hrest

/-- One `sendInLoop`, with any result of `write`. -/
theorem Open.sendInLoop_sends (h : Open x) (data : Bytes) {write : WriteResult}
    (hwithin : write.Within data.length) :
    ∃ y es, x.sendInLoop data write = .ok y ∧ Open y ∧ Queues x es y ∧
      Sends x data write.isFault y es := by
  by_cases hfault : write.isFault = true
  · exact ⟨x, [], h.sendInLoop_fault data hfault, h, .refl x,
      .refused (.inr (.inr hfault)) rfl rfl⟩
  · by_cases hidle : x.conn.outputBuffer_.readable = []
    · cases write with
      | wrote n => exact h.sendInLoop_accepts hidle data hwithin
      | failed errno =>
          have herrno := Bool.eq_false_iff.mpr hfault
          have hfits : (WriteResult.failed .eWouldBlock).Fits data.length := rfl
          rw [sendInLoop_wouldBlock x data herrno, herrno]
          exact h.sendInLoop_accepts hidle data hfits
    · exact ⟨x, [], h.sendInLoop_pending hidle data write, h, .refl x,
        .refused (.inl (by simpa [pending] using hidle)) rfl rfl⟩

/-- What a writable event queues; and what the kernel has accepted stays. -/
theorem Open.handleWrite_queues (h : Open x) {write : WriteResult}
    (hy : x.handleWrite write = .ok y) :
    Queues x (if x.pending = true ∧ y.pending = false then x.completion else []) y ∧
    x.conn.log.accepted <+: y.conn.log.accepted := by
  -- where nothing changes, nothing is queued
  have hsame : Queues x (if x.pending = true ∧ x.pending = false then x.completion else []) x ∧
      x.conn.log.accepted <+: x.conn.log.accepted := by
    rw [if_neg (by simp)]
    exact ⟨.refl x, List.prefix_refl _⟩
  simp only [ConnRun.handleWrite, bind_eq_ok] at hy
  obtain ⟨_, -, hy⟩ := hy
  split at hy
  · rename_i hwriting
    have hpending : x.pending = true := by simpa [pending] using h.writing.mp hwriting
    split at hy
    · rename_i n
      split at hy
      · simp only [bind_eq_ok] at hy
        obtain ⟨out, -, hy⟩ := hy
        split at hy
        · -- drained
          rename_i hdrained
          simp only [bind_eq_ok] at hy
          obtain ⟨z, hz, hy⟩ := hy
          obtain ⟨ch, hconn⟩ := onChannel_conn hz
          have hstate : z.queueWriteComplete.conn.state_ = .kConnected := by
            rw [queueWriteComplete_conn, hconn]
            exact h.connected
          rw [if_neg (by rw [hstate]; decide)] at hy
          cases hy
          have hdone : z.queueWriteComplete.pending = false := by
            rw [pending_eq_false, queueWriteComplete_conn, hconn]
            exact readableBytes_eq_zero.mp hdrained
          have hcompletion : x.completion = z.completion := by
            rw [completion, completion, hconn]
            rfl
          rw [if_pos ⟨hpending, hdone⟩, hcompletion]
          have hqueues : Queues x [] z := { onChannel_queues hz with }
          refine ⟨hqueues.nil_then (queueWriteComplete_queues z), ?_⟩
          rw [queueWriteComplete_conn, hconn]
          exact List.prefix_append _ _
        · rename_i hrest
          cases hy
          rw [if_neg (fun hdone => hrest (readableBytes_eq_zero.mpr (pending_eq_false.mp hdone.2)))]
          exact ⟨{ Queues.refl x with }, List.prefix_append _ _⟩
      · cases hy
        exact hsame
    · cases hy
      exact hsame
  · cases hy
    exact hsame

/-- One writable event, with any result of `write`. -/
theorem Open.handleWrite_drains (h : Open x) {write : WriteResult}
    (hwithin : write.Within x.conn.outputBuffer_.readable.length) :
    ∃ y, x.handleWrite write = .ok y ∧ Open y ∧ y.stream = x.stream ∧
      Queues x (if x.pending = true ∧ y.pending = false then x.completion else []) y ∧
      y.conn.outputBuffer_.readable.length ≤ x.conn.outputBuffer_.readable.length := by
  obtain ⟨y, hy, hopen, hstream⟩ :
      ∃ y, x.handleWrite write = .ok y ∧ Open y ∧ y.stream = x.stream := by
    cases write with
    | wrote n =>
        have hfits : (WriteResult.wrote n).Fits x.conn.outputBuffer_.readable.length := hwithin
        exact h.handleWrite hfits
    | failed errno =>
        -- `handleWrite` does the same whatever `errno` is
        have hfits : (WriteResult.failed .eWouldBlock).Fits x.conn.outputBuffer_.readable.length :=
          rfl
        have hdrain := h.handleWrite hfits
        exact hdrain
  obtain ⟨hqueues, hprefix⟩ := h.handleWrite_queues hy
  refine ⟨y, hy, hopen, hstream, hqueues, ?_⟩
  have hlength := congrArg List.length hstream
  rw [stream, stream, List.length_append, List.length_append] at hlength
  have hmore := hprefix.length_le
  omega

end ConnRun

/-! ## Runs -/

open ConnRun

/-- The connection under calls from its loop thread, with any results of
`write`. -/
def sendSystem : System ConnRun OutputOp Fault where
  enabled x op :=
    match op with
    | .send msg write => write.Within msg.length
    | .sendBuffer buffer write => write.Within buffer.readable.length
    | .handleWrite write => write.Within x.conn.outputBuffer_.readable.length
  step := outputSystem.step

/-- The call is one of `send`. -/
def OutputOp.isSend : OutputOp → Bool
  | .send _ _ | .sendBuffer _ _ => true
  | .handleWrite _ => false

/-- The call is one of `send`, and its `write` fails for good. -/
def OutputOp.isFault : OutputOp → Bool
  | .send _ write | .sendBuffer _ write => write.isFault
  | .handleWrite _ => false

namespace ConnRun

variable {x y : ConnRun} {op : OutputOp} {ops : List OutputOp} {es : List Effect}

/-- Write-complete calls queued so far. -/
def completes (x : ConnRun) : Nat := x.effects.countP Effect.isWriteComplete

/-- What one call queues, by what is pending before and after it. -/
inductive Turn (x : ConnRun) (op : OutputOp) (y : ConnRun) : List Effect → Prop
  | quiet (h : op.isSend = true → x.pending = true ∨ op.message = [] ∨ op.isFault = true) :
      y.pending = x.pending → Turn x op y []
  | done : x.pending = !op.isSend → y.pending = false → Turn x op y x.completion
  | rest : op.isSend = true → x.pending = false → y.pending = true →
      Turn x op y (x.highWater y.conn.outputBuffer_.readable.length)

theorem Sends.turn {data : Bytes} {fault : Bool} (h : Sends x data fault y es)
    (hsend : op.isSend = true) (hdata : op.message = data) (hfault : op.isFault = fault) :
    Turn x op y es := by
  cases h with
  | refused hwhy hsame _ =>
      refine .quiet (fun _ => ?_) hsame
      rw [hdata, hfault]
      exact hwhy
  | whole hidle hdone _ => exact .done (by rw [hidle, hsend]; rfl) hdone
  | rest hidle hrest _ _ => exact .rest hsend hidle hrest

theorem Open.turn (h : Open x) (hstep : sendSystem.Step x op y) :
    Open y ∧ ∃ es, Queues x es y ∧ Turn x op y es := by
  obtain ⟨hen, hstep⟩ := hstep
  cases op with
  | send msg write =>
      obtain ⟨z, es, hz, hopen, hqueues, hsends⟩ := h.sendInLoop_sends msg hen
      cases ((h.send_eq msg write).trans hz).symm.trans hstep
      exact ⟨hopen, es, hqueues, hsends.turn rfl rfl rfl⟩
  | sendBuffer buffer write =>
      obtain ⟨z, es, hz, hopen, hqueues, hsends⟩ := h.sendInLoop_sends buffer.readable hen
      have hcall : (·.1) <$> x.sendBuffer buffer write = .ok z := by
        rw [sendBuffer, if_pos h.connected, if_pos h.inLoop, hz]
        rfl
      cases hcall.symm.trans hstep
      exact ⟨hopen, es, hqueues, hsends.turn rfl rfl rfl⟩
  | handleWrite write =>
      obtain ⟨z, hz, hopen, -, hqueues, hless⟩ := h.handleWrite_drains hen
      cases hz.symm.trans hstep
      refine ⟨hopen, _, hqueues, ?_⟩
      split
      · rename_i hdone
        exact .done hdone.1 hdone.2
      · rename_i hnot
        refine .quiet (fun hsend => absurd hsend Bool.false_ne_true) ?_
        cases hx : x.pending with
        | true => exact Bool.of_not_eq_false fun hz => hnot ⟨hx, hz⟩
        | false =>
            rw [pending_eq_false] at hx ⊢
            rw [hx] at hless
            exact List.length_eq_zero_iff.mp (Nat.le_zero.mp hless)

/-- With `writeCompleteCallback_` set: what has been queued is in order. -/
structure Orderly (x : ConnRun) : Prop extends Open x where
  writeComplete : x.conn.writeCompleteCallback_ = true
  /-- A high-water call is followed by a write-complete call, -/
  chain : x.effects.IsChain fun a b => a.isHighWater = true → b.isWriteComplete = true
  /-- and until then output is pending. -/
  last : ∀ a ∈ x.effects.getLast?, a.isHighWater = true → x.pending = true
  /-- A high-water call reports no less than the mark. -/
  mark : ∀ c size, .queueInLoop (.highWaterMarkCallback c size) ∈ x.effects →
    x.conn.highWaterMark_ ≤ size

theorem Orderly.completion (h : Orderly x) :
    x.completion = [.queueInLoop (.writeCompleteCallback x.conn.self)] :=
  if_pos h.writeComplete

/-- One more call behind those that are queued. -/
theorem Orderly.queue_one (h : Orderly x) (hopen : Open y) {e : Effect} (hqueues : Queues x [e] y)
    (hnext : x.pending = true → e.isWriteComplete = true)
    (hlast : e.isHighWater = true → y.pending = true)
    (hmark : ∀ c size, e = .queueInLoop (.highWaterMarkCallback c size) →
      x.conn.highWaterMark_ ≤ size) : Orderly y where
  toOpen := hopen
  writeComplete := hqueues.writeComplete.trans h.writeComplete
  chain := by
    rw [hqueues.effects]
    refine List.isChain_append.mpr ⟨h.chain, List.isChain_singleton e, ?_⟩
    intro a ha b hb hhigh
    cases hb
    exact hnext (h.last a ha hhigh)
  last := by
    rw [hqueues.effects]
    intro a ha hhigh
    rw [List.getLast?_concat] at ha
    cases ha
    exact hlast hhigh
  mark := by
    rw [hqueues.effects, hqueues.mark]
    intro c size hmem
    rcases List.mem_append.mp hmem with hold | hnew
    · exact h.mark c size hold
    · exact hmark c size (List.mem_singleton.mp hnew).symm

theorem Orderly.step (h : Orderly x) (hstep : sendSystem.Step x op y) : Orderly y := by
  obtain ⟨hopen, es, hqueues, hturn⟩ := h.toOpen.turn hstep
  have hsame : es = [] → (x.pending = true → y.pending = true) → Orderly y := by
    intro hnil hpending
    have heffects : y.effects = x.effects := by rw [hqueues.effects, hnil, List.append_nil]
    refine ⟨hopen, hqueues.writeComplete.trans h.writeComplete, ?_, ?_, ?_⟩
    · rw [heffects]
      exact h.chain
    · rw [heffects]
      exact fun a ha hhigh => hpending (h.last a ha hhigh)
    · rw [heffects, hqueues.mark]
      exact h.mark
  cases hturn with
  | quiet _ hpending => exact hsame rfl hpending.trans
  | done hbefore hafter =>
      rw [h.completion] at hqueues
      exact h.queue_one hopen hqueues (fun _ => rfl) nofun nofun
  | rest _ hbefore hafter =>
      generalize y.conn.outputBuffer_.readable.length = size at hqueues hsame
      by_cases hmark : x.highWater size = []
      · exact hsame hmark fun _ => hafter
      · obtain ⟨hreached, hone⟩ : x.conn.highWaterMark_ ≤ size ∧
            x.highWater size = [.queueInLoop (.highWaterMarkCallback x.conn.self size)] := by
          unfold ConnRun.highWater at hmark ⊢
          split
          · rename_i hcond
            exact ⟨hcond.2.1, rfl⟩
          · rename_i hcond
            exact absurd (if_neg hcond) hmark
        rw [hone] at hqueues
        refine h.queue_one hopen hqueues (fun hpending => ?_) (fun _ => hafter) ?_
        · rw [hbefore] at hpending
          cases hpending
        · rintro c size' ⟨⟩
          exact hreached

theorem highWater_completes (x : ConnRun) (size : Nat) :
    (x.highWater size).countP Effect.isWriteComplete = 0 := by
  unfold highWater
  split
  · rfl
  · rfl

/-- One call and the write-complete calls: it adds one, or leaves one to come, if
it is a `send` whose message joins the stream. -/
theorem Orderly.step_counts (h : Orderly x) (hstep : sendSystem.Step x op y) :
    y.completes + y.pending.toNat ≤ x.completes + x.pending.toNat + op.isSend.toNat ∧
    (SentIdle x op → (op.isSend = true → op.message ≠ [] ∧ op.isFault = false) →
      y.completes + y.pending.toNat = x.completes + x.pending.toNat + op.isSend.toNat) := by
  obtain ⟨-, es, hqueues, hturn⟩ := h.toOpen.turn hstep
  have hcompletes : y.completes = x.completes + es.countP Effect.isWriteComplete := by
    rw [completes, hqueues.effects, List.countP_append]
    rfl
  cases hturn with
  | quiet hwhy hpending =>
      rw [hcompletes, hpending]
      refine ⟨by simp, fun hidle hsome => ?_⟩
      cases hsend : op.isSend with
      | false => simp
      | true =>
          -- an idle connection looks at a message that is not empty
          obtain ⟨hsome, hgood⟩ := hsome hsend
          rcases hwhy hsend with hbusy | hnil | hfault
          · rcases hidle with hnil | hidle
            · exact absurd hnil hsome
            · rw [pending_eq_false.mpr hidle] at hbusy
              cases hbusy
          · exact absurd hnil hsome
          · rw [hgood] at hfault
            cases hfault
  | done hbefore hafter =>
      rw [hcompletes, hbefore, hafter, h.completion]
      cases op.isSend with
      | false => simp [Effect.isWriteComplete]
      | true => simp [Effect.isWriteComplete]
  | rest hsend hbefore hafter =>
      rw [hcompletes, hbefore, hafter, hsend, highWater_completes]
      simp

theorem countP_isSend_cons (op : OutputOp) (ops : List OutputOp) :
    (op :: ops).countP OutputOp.isSend = ops.countP OutputOp.isSend + op.isSend.toNat := by
  rw [List.countP_cons]
  cases op.isSend with
  | false => rfl
  | true => rfl

theorem Orderly.run_counts (h : Orderly x) (hrun : sendSystem.Run x ops y) :
    y.completes + y.pending.toNat ≤
      x.completes + x.pending.toNat + ops.countP OutputOp.isSend := by
  induction hrun with
  | nil => simp
  | @cons s s' s'' op ops hstep _ ih =>
      have hone := (h.step_counts hstep).1
      have hrest := ih (h.step hstep)
      rw [countP_isSend_cons]
      omega

theorem Orderly.run_counts_idle (h : Orderly x)
    (hrun : (sendSystem.restrict SentIdle).Run x ops y)
    (hsome : ∀ op ∈ ops, op.isSend = true → op.message ≠ [] ∧ op.isFault = false) :
    y.completes + y.pending.toNat =
      x.completes + x.pending.toNat + ops.countP OutputOp.isSend := by
  induction hrun with
  | nil => simp
  | @cons s s' s'' op ops hstep _ ih =>
      obtain ⟨hstep, hidle⟩ := System.restrict_step.mp hstep
      obtain ⟨hop, hops⟩ := List.forall_mem_cons.mp hsome
      have hone := (h.step_counts hstep).2 hidle hop
      have hrest := ih (h.step hstep) hops
      rw [countP_isSend_cons]
      omega

theorem establishConnection_queues (h : x.establishConnection = .ok y) : Queues x [] y := by
  obtain ⟨-, -, heffects, hconn⟩ := establishConnection_ok h
  refine ⟨by rw [heffects, List.append_nil], ?_, ?_, ?_, ?_⟩ <;> rw [hconn]

/-- A connection just established, with nothing queued and nothing pending. -/
theorem Fresh.orderly (hfresh : Fresh x) (hnone : x.effects = [])
    (hset : x.conn.writeCompleteCallback_ = true) (h : x.establishConnection = .ok y) :
    Orderly y ∧ y.effects = [] ∧ y.pending = false := by
  obtain ⟨hopen, hstream⟩ := hfresh.establish h
  have hqueues := establishConnection_queues h
  have heffects : y.effects = [] := by rw [hqueues.effects, hnone]; rfl
  refine ⟨⟨hopen, hqueues.writeComplete.trans hset, ?_, ?_, ?_⟩, heffects,
    pending_eq_false.mpr (List.append_eq_nil_iff.mp hstream).2⟩
  · rw [heffects]
    exact List.isChain_nil
  · rw [heffects]
    exact fun _ h => by cases h
  · rw [heffects]
    exact fun _ _ h => absurd h List.not_mem_nil

end ConnRun

/-- Over any calls of `send` and writable events on an established connection,
with any results of `write`: there are no more write-complete calls than
messages, one less while output is pending, and exactly as many when no message
is empty, given up, or sent while output is pending; and every high-water call is followed by a write-complete call before
the next, or output is still pending, and reports no less than the mark. -/
theorem writeComplete_counts {x₀ x y : ConnRun} {ops : List OutputOp} (hfresh : Fresh x₀)
    (hnone : x₀.effects = []) (hset : x₀.conn.writeCompleteCallback_ = true)
    (hestablished : x₀.establishConnection = .ok x) (hrun : sendSystem.Run x ops y) :
    y.completes + y.pending.toNat ≤ ops.countP OutputOp.isSend ∧
    ((sendSystem.restrict SentIdle).Run x ops y →
      (∀ op ∈ ops, op.isSend = true → op.message ≠ [] ∧ op.isFault = false) →
      y.completes + y.pending.toNat = ops.countP OutputOp.isSend) ∧
    (y.effects.IsChain fun a b => a.isHighWater = true → b.isWriteComplete = true) ∧
    (∀ a ∈ y.effects.getLast?, a.isHighWater = true → y.pending = true) ∧
    ∀ c size, .queueInLoop (.highWaterMarkCallback c size) ∈ y.effects →
      y.conn.highWaterMark_ ≤ size := by
  obtain ⟨horderly, heffects, hidle⟩ := hfresh.orderly hnone hset hestablished
  have hend : Orderly y := hrun.invariant horderly fun _ _ _ h hstep => h.step hstep
  have hzero : x.completes + x.pending.toNat = 0 := by
    rw [completes, heffects, hidle]
    rfl
  refine ⟨?_, fun hquiet hsome => ?_, hend.chain, hend.last, hend.mark⟩
  · have hcounts := horderly.run_counts hrun
    omega
  · have hcounts := horderly.run_counts_idle hquiet hsome
    omega

/-- A message that the kernel takes in two parts. -/
theorem writeComplete_counts_parts : ∃ x y,
    { newConn with
      conn := { newConn.conn with writeCompleteCallback_ := true } }.establishConnection = .ok x ∧
    sendSystem.Run x [.send [1, 2, 3] (.wrote 1), .handleWrite (.wrote 2)] y ∧
    y.completes + y.pending.toNat = 1 := by
  have hfresh : Fresh { newConn with
      conn := { newConn.conn with writeCompleteCallback_ := true } } :=
    ⟨rfl, rfl, Buffer.readable_new, rfl⟩
  obtain ⟨x, hx⟩ : ∃ x, { newConn with
      conn := { newConn.conn with writeCompleteCallback_ := true } }.establishConnection = .ok x :=
    ⟨_, rfl⟩
  obtain ⟨horderly, -, hidle⟩ := hfresh.orderly rfl rfl hx
  have hidle := pending_eq_false.mp hidle
  have hfirst : (WriteResult.wrote 1).Fits [1, 2, 3].length := Nat.le_of_ble_eq_true rfl
  obtain ⟨y, hy, hopen, -, hread⟩ := horderly.sendInLoop_idle hidle [1, 2, 3] hfirst
  have hsent : sendSystem.Step x (.send [1, 2, 3] (.wrote 1)) y :=
    ⟨Nat.le_of_ble_eq_true rfl, (horderly.send_eq _ _).trans hy⟩
  have hfits : (WriteResult.wrote 2).Fits y.conn.outputBuffer_.readable.length := by
    rw [hread]
    exact Nat.le_refl 2
  obtain ⟨z, hz, -, -⟩ := hopen.handleWrite hfits
  have hquiet : (sendSystem.restrict SentIdle).Run x
      [.send [1, 2, 3] (.wrote 1), .handleWrite (.wrote 2)] z :=
    .cons (System.restrict_step.mpr ⟨hsent, .inr hidle⟩)
      (.cons (System.restrict_step.mpr ⟨⟨hfits, hz⟩, .inl rfl⟩) (.nil z))
  obtain ⟨-, hcounts, -⟩ := writeComplete_counts hfresh rfl rfl hx hquiet.of_restrict
  exact ⟨x, z, hx, hquiet.of_restrict, hcounts hquiet (by decide)⟩

end Ham.Net
