import Ham.Lib.Run
import Ham.Net.TcpConnection

/-!
# The output stream of a connection

An established connection under `send` and writable events, with every result
of `write` the kernel may give. What the kernel has accepted and what waits in
`outputBuffer_` together are the `stream`; it should be the messages sent, in
order. `sendInLoop` looks at its message only when nothing waits, so a message
sent while output is pending is lost, and the law holds exactly for the runs
in which that does not happen (`output_law_iff`).
-/

namespace Ham.Net

open Ham.Lib

/-- One call on the connection's loop thread. -/
inductive OutputOp where
  | send (msg : Bytes) (write : WriteResult)
  | sendBuffer (buffer : Buffer) (write : WriteResult)
  | handleWrite (write : WriteResult)

namespace OutputOp

/-- The bytes the call asks the connection to send. -/
def message : OutputOp → Bytes
  | .send msg _ => msg
  | .sendBuffer buffer _ => buffer.readable
  | .handleWrite _ => []

end OutputOp

/-- What `write` may return when it is offered `len` bytes: a count, short or
not, or `EWOULDBLOCK`. -/
def WriteResult.Fits (len : Nat) : WriteResult → Prop
  | .wrote n => n ≤ len
  | .failed errno => errno = .eWouldBlock

/-- The number of bytes the kernel took. -/
def WriteResult.count : WriteResult → Nat
  | .wrote n => n
  | .failed _ => 0

/-- The connection under calls from its loop thread. -/
def outputSystem : System ConnRun OutputOp Fault where
  enabled x op :=
    match op with
    | .send msg write => write.Fits msg.length
    | .sendBuffer buffer write => write.Fits buffer.readable.length
    | .handleWrite write => write.Fits x.conn.outputBuffer_.readable.length
  step x op :=
    match op with
    | .send msg write => x.send msg write
    | .sendBuffer buffer write => (·.1) <$> x.sendBuffer buffer write
    | .handleWrite write => x.handleWrite write

/-- A message is sent only while nothing is pending. -/
def SentIdle (x : ConnRun) (op : OutputOp) : Prop :=
  op.message = [] ∨ x.conn.outputBuffer_.readable = []

namespace ConnRun

/-- The accepted bytes and the pending bytes. -/
def stream (x : ConnRun) : Bytes := x.conn.log.accepted ++ x.conn.outputBuffer_.readable

/-- A connection as `TcpServer` and `TcpClient` construct it. -/
structure Fresh (x : ConnRun) : Prop where
  status : x.conn.channel_.status_ = .kNew
  interest : x.conn.channel_.event_ = Channel.kNoneEvent_
  output : x.conn.outputBuffer_.readable = []
  accepted : x.conn.log.accepted = []

/-- The channel of an established connection: known, in the kernel's set, and
interested in input. -/
structure Registered (x : ConnRun) : Prop where
  known : x.epoller.channelMap_ x.conn.channel_.fd_ = some x.conn.channel_.self
  added : x.conn.channel_.status_ = .kAdded
  inKernel : x.epoller.kernel x.conn.channel_.fd_ ≠ none
  reading : x.conn.channel_.event_.epollin = true

/-- An established connection between calls: it watches for writability
exactly while output is pending. -/
structure Open (x : ConnRun) : Prop extends Registered x where
  inLoop : x.isInLoopThread = true
  connected : x.conn.state_ = .kConnected
  writing : x.conn.channel_.isWriting = true ↔ x.conn.outputBuffer_.readable ≠ []

variable {x y : ConnRun}

/-! ## Interest in writing -/

/-- The run with the interest in writing set or cleared, here and in the
kernel. -/
def withWriting (x : ConnRun) (on : Bool) : ConnRun :=
  let ch := x.conn.channel_.setWriting on
  { x with
    epoller := { x.epoller with
      kernel := Function.update x.epoller.kernel ch.fd_ (some (ch.event_, ch.self)) }
    conn := { x.conn with channel_ := ch } }

theorem Registered.withWriting (h : Registered x) (on : Bool) : Registered (x.withWriting on) where
  known := h.known
  added := h.added
  inKernel := by simp [ConnRun.withWriting]
  reading := h.reading

/-- The update of a registered channel is a `MOD`, and it goes through. -/
theorem Registered.updateChannel (h : Registered x) (on : Bool) :
    x.onChannel (fun ch p => p.updateChannel (ch.setWriting on)) = .ok (x.withWriting on) := by
  have hsome : (x.conn.channel_.setWriting on).isNoneEvent = false := by
    simp [Channel.isNoneEvent, Channel.kNoneEvent_, Channel.setWriting, h.reading]
  have hupdate : x.epoller.updateChannel (x.conn.channel_.setWriting on) = _ :=
    Epoller.updateChannel_MOD h.added h.known h.inKernel hsome
  rw [onChannel, hupdate]
  rfl

/-! ## One call -/

theorem readableBytes_eq_zero {b : Buffer} : b.readableBytes = 0 ↔ b.readable = [] := by
  rw [← b.length_readable, List.length_eq_zero_iff]

theorem assertInLoopThread_ok (h : x.isInLoopThread = true) : x.assertInLoopThread = .ok () :=
  if_pos h

@[simp] theorem queueWriteComplete_conn (x : ConnRun) : x.queueWriteComplete.conn = x.conn := by
  unfold queueWriteComplete
  split <;> rfl

@[simp] theorem queueWriteComplete_epoller (x : ConnRun) :
    x.queueWriteComplete.epoller = x.epoller := by
  unfold queueWriteComplete
  split <;> rfl

@[simp] theorem queueWriteComplete_thread (x : ConnRun) :
    x.queueWriteComplete.thread = x.thread := by
  unfold queueWriteComplete
  split <;> rfl

/-- `Open` looks at nothing but these parts. -/
theorem Open.of_parts (h : Open x) (hthread : y.thread = x.thread)
    (hepoller : y.epoller = x.epoller) (hchannel : y.conn.channel_ = x.conn.channel_)
    (hloop : y.conn.loop_ = x.conn.loop_) (hstate : y.conn.state_ = x.conn.state_)
    (hout : y.conn.outputBuffer_ = x.conn.outputBuffer_) : Open y where
  known := by rw [hepoller, hchannel]; exact h.known
  added := by rw [hchannel]; exact h.added
  inKernel := by rw [hepoller, hchannel]; exact h.inKernel
  reading := by rw [hchannel]; exact h.reading
  inLoop := by rw [isInLoopThread, hthread, hloop]; exact h.inLoop
  connected := by rw [hstate]; exact h.connected
  writing := by rw [hchannel, hout]; exact h.writing

/-- Nothing waits, and nothing is watched for. -/
theorem Open.idle (h : Open x) (hidle : x.conn.outputBuffer_.readable = []) :
    x.conn.channel_.isWriting = false := by
  cases hw : x.conn.channel_.isWriting with
  | false => rfl
  | true => exact absurd hidle (h.writing.mp hw)

/-- The rest of a message goes to the buffer, and the channel starts to watch
for writability. -/
theorem Open.bufferRest (h : Open x) (hidle : x.conn.outputBuffer_.readable = []) (data : Bytes)
    {n : Nat} (hn : n < data.length) :
    ∃ y, x.bufferRest data n (data.length - n) = .ok y ∧ Open y ∧
      y.conn.log.accepted = x.conn.log.accepted ∧
      y.conn.outputBuffer_.readable = data.drop n := by
  have hrest : (data.drop n).take (data.length - n) = data.drop n :=
    List.take_of_length_le (by simp)
  have hsome : data.drop n ≠ [] := by simp [hn]
  have hw := h.idle hidle
  -- the high water mark only adds an effect
  have hmark : ∀ z : ConnRun, z.thread = x.thread → z.epoller = x.epoller →
      z.conn = { x.conn with outputBuffer_ := x.conn.outputBuffer_.append (data.drop n) } →
      ∃ y, z.onChannel Channel.enableWriting = .ok y ∧ Open y ∧
        y.conn.log.accepted = x.conn.log.accepted ∧
        y.conn.outputBuffer_.readable = data.drop n := by
    intro z hthread hepoller hconn
    have hz : Registered z := ⟨by rw [hepoller, hconn]; exact h.known,
      by rw [hconn]; exact h.added, by rw [hepoller, hconn]; exact h.inKernel,
      by rw [hconn]; exact h.reading⟩
    refine ⟨z.withWriting true, hz.updateChannel true, ?_, ?_, ?_⟩
    · refine ⟨hz.withWriting true, ?_, ?_, ?_⟩
      · show decide (z.thread = some z.conn.loop_) = true
        rw [hthread, hconn]
        exact h.inLoop
      · show z.conn.state_ = .kConnected
        rw [hconn]
        exact h.connected
      · show true = true ↔ z.conn.outputBuffer_.readable ≠ []
        rw [hconn]
        simp [hsome]
    · show z.conn.log.accepted = _
      rw [hconn]
    · show z.conn.outputBuffer_.readable = _
      rw [hconn]
      simp [hidle]
  simp only [ConnRun.bufferRest, hrest]
  split
  · rw [if_neg (by simpa [emit] using hw)]
    exact hmark _ rfl rfl rfl
  · rw [if_neg (by simpa using hw)]
    exact hmark _ rfl rfl rfl

/-- With nothing pending the kernel takes what it takes of the message and
the buffer takes the rest. -/
theorem Open.sendInLoop_idle (h : Open x) (hidle : x.conn.outputBuffer_.readable = [])
    (data : Bytes) {write : WriteResult} (hfits : write.Fits data.length) :
    ∃ y, x.sendInLoop data write = .ok y ∧ Open y ∧
      y.conn.log.accepted = x.conn.log.accepted ++ data.take write.count ∧
      y.conn.outputBuffer_.readable = data.drop write.count := by
  have hw := h.idle hidle
  have hempty := readableBytes_eq_zero.mpr hidle
  rw [sendInLoop, assertInLoopThread_ok h.inLoop, ok_bind, if_pos ⟨hw, hempty⟩]
  dsimp only
  rw [assert_pos (Nat.sub_le _ _), ok_bind]
  cases write with
  | wrote n =>
      have hn : n ≤ data.length := hfits
      have hopen : Open (x.accept data n) := h.of_parts rfl rfl rfl rfl rfl rfl
      by_cases hall : data.length - n = 0
      · -- all written
        refine ⟨(x.accept data n).queueWriteComplete, ?_, ?_, ?_, ?_⟩
        · simp [directWrite, hall]
        · exact hopen.of_parts (by simp) (by simp) (by simp) (by simp) (by simp) (by simp)
        · rw [queueWriteComplete_conn]
          rfl
        · rw [queueWriteComplete_conn, WriteResult.count, List.drop_of_length_le (by omega)]
          exact hidle
      · -- a short count
        obtain ⟨y, hy, hopen', hacc, hread⟩ :=
          hopen.bufferRest hidle data (show n < data.length by omega)
        refine ⟨y, ?_, hopen', hacc, hread⟩
        have hrest : (x.directWrite data (.wrote n)).2.2 = false ∧
            0 < data.length - (x.directWrite data (.wrote n)).2.1 :=
          ⟨rfl, Nat.pos_of_ne_zero hall⟩
        have hdirect : (x.directWrite data (.wrote n)).1 = x.accept data n := if_neg hall
        rw [if_pos hrest, hdirect]
        exact hy
  | failed errno =>
      have herrno : errno = .eWouldBlock := hfits
      subst herrno
      by_cases hnil : data = []
      · subst hnil
        exact ⟨x, rfl, h, by simp, by simpa using hidle⟩
      · have hlen : 0 < data.length := List.length_pos_iff.mpr hnil
        obtain ⟨y, hy, hopen', hacc, hread⟩ := h.bufferRest hidle data hlen
        refine ⟨y, ?_, hopen', by simpa [WriteResult.count] using hacc, hread⟩
        have hrest : (x.directWrite data (.failed .eWouldBlock)).2.2 = false ∧
            0 < data.length - (x.directWrite data (.failed .eWouldBlock)).2.1 := ⟨rfl, hlen⟩
        rw [if_pos hrest]
        exact hy

/-- `send` on the loop thread is `sendInLoop`. -/
theorem Open.send_eq (h : Open x) (msg : Bytes) (write : WriteResult) :
    x.send msg write = x.sendInLoop msg write := by
  rw [send, if_pos h.connected, if_pos h.inLoop]

/-- With output pending the message is dropped. -/
theorem Open.sendInLoop_pending (h : Open x) (hpending : x.conn.outputBuffer_.readable ≠ [])
    (data : Bytes) (write : WriteResult) : x.sendInLoop data write = .ok x := by
  have hw := h.writing.mpr hpending
  rw [sendInLoop, assertInLoopThread_ok h.inLoop, ok_bind, if_neg (by simp [hw])]
  rfl

/-- A writable event moves bytes from the buffer to the kernel. -/
theorem Open.handleWrite (h : Open x) {write : WriteResult}
    (hfits : write.Fits x.conn.outputBuffer_.readable.length) :
    ∃ y, x.handleWrite write = .ok y ∧ Open y ∧ y.stream = x.stream := by
  unfold ConnRun.handleWrite
  rw [assertInLoopThread_ok h.inLoop, ok_bind]
  by_cases hw : x.conn.channel_.isWriting = true
  · rw [if_pos hw]
    cases write with
    | failed errno => exact ⟨x, rfl, h, rfl⟩
    | wrote n =>
        by_cases hn : 0 < n
        · obtain ⟨out, hret, hread⟩ := x.conn.outputBuffer_.retrieve_spec hfits
          have hstream : x.conn.log.accepted ++ x.conn.outputBuffer_.readable.take n ++
              out.readable = x.stream := by
            rw [hread, List.append_assoc, List.take_append_drop, stream]
          have hret' : (x.accept x.conn.outputBuffer_.readable n).conn.outputBuffer_.retrieve n =
              .ok out := hret
          dsimp only
          rw [if_pos hn, hret', ok_bind]
          by_cases hdrained : out.readableBytes = 0
          · -- drained: the channel stops watching
            have hempty := readableBytes_eq_zero.mp hdrained
            generalize hz : ({ x.accept x.conn.outputBuffer_.readable n with conn :=
              { (x.accept x.conn.outputBuffer_.readable n).conn with
                outputBuffer_ := out } } : ConnRun) = z
            have hreg : Registered z := by
              subst hz
              exact ⟨h.known, h.added, h.inKernel, h.reading⟩
            have hdisable : z.onChannel Channel.disableWriting = .ok (z.withWriting false) :=
              hreg.updateChannel false
            have hconnected : (z.withWriting false).queueWriteComplete.conn.state_ =
                .kConnected := by
              rw [queueWriteComplete_conn]
              subst hz
              exact h.connected
            rw [if_pos hdrained, hdisable, ok_bind, if_neg (by rw [hconnected]; decide)]
            refine ⟨_, rfl, ?_, ?_⟩
            · subst hz
              refine Open.of_parts (x := ConnRun.withWriting _ false)
                ⟨hreg.withWriting false, h.inLoop, h.connected, ?_⟩
                (by simp) (by simp) (by simp) (by simp) (by simp) (by simp)
              exact iff_of_false (by simp [Channel.isWriting, withWriting, Channel.setWriting])
                (by simpa [withWriting] using hempty)
            · rw [stream, queueWriteComplete_conn]
              subst hz
              exact hstream
          · rw [if_neg hdrained]
            refine ⟨_, rfl, ⟨⟨h.known, h.added, h.inKernel, h.reading⟩, h.inLoop, h.connected, ?_⟩,
              hstream⟩
            exact iff_of_true hw (mt readableBytes_eq_zero.mpr hdrained)
        · exact ⟨x, by simp [hn], h, rfl⟩
  · rw [if_neg hw]
    exact ⟨x, rfl, h, rfl⟩

/-- The calls of `send` as one: the message joins the stream or is lost. -/
theorem Open.sent (h : Open x) (msg : Bytes) {write : WriteResult}
    (hfits : write.Fits msg.length) :
    ∃ y, x.sendInLoop msg write = .ok y ∧ Open y ∧
      y.stream = x.stream ++ if x.conn.outputBuffer_.readable = [] then msg else [] := by
  by_cases hidle : x.conn.outputBuffer_.readable = []
  · obtain ⟨y, hy, hopen, hacc, hread⟩ := h.sendInLoop_idle hidle msg hfits
    refine ⟨y, hy, hopen, ?_⟩
    rw [if_pos hidle, stream, stream, hacc, hread, hidle]
    simp
  · exact ⟨x, h.sendInLoop_pending hidle msg write, h, by simp [hidle]⟩

/-- A connection just established is open and has sent nothing. -/
theorem Fresh.establish (hfresh : Fresh x) (h : x.establishConnection = .ok y) :
    Open y ∧ y.stream = [] := by
  simp only [establishConnection, assertInLoopThread, onChannel, bind_eq_ok, pure_eq_ok,
    Except.ok.injEq] at h
  obtain ⟨_, hthread, z, ⟨⟨p, ch⟩, hupdate, rfl⟩, rfl⟩ := h
  have hloop : x.isInLoopThread = true := by
    by_contra hout
    rw [if_neg hout] at hthread
    cases hthread
  obtain ⟨rfl, hmap, hkernel, -⟩ := Epoller.updateChannel_ok hupdate
  have hadded : Epoller.nextStatus x.conn.channel_.setReading = .kAdded := by
    simp [Epoller.nextStatus, Channel.setReading, hfresh.status]
  refine ⟨⟨⟨?_, hadded, ?_, rfl⟩, hloop, rfl, ?_⟩, ?_⟩
  · show p.channelMap_ x.conn.channel_.fd_ = some x.conn.channel_.self
    rw [hmap]
    exact Function.update_self _ _ _
  · show p.kernel x.conn.channel_.fd_ ≠ none
    rw [hkernel]
    show Function.update x.epoller.kernel x.conn.channel_.fd_
      (if Epoller.nextStatus x.conn.channel_.setReading = .kAdded then _ else _) _ ≠ none
    rw [if_pos hadded, Function.update_self]
    exact Option.some_ne_none _
  · show x.conn.channel_.event_.epollout = true ↔ x.conn.outputBuffer_.readable ≠ []
    rw [hfresh.interest, hfresh.output]
    decide
  · show x.conn.log.accepted ++ x.conn.outputBuffer_.readable = []
    rw [hfresh.accepted, hfresh.output]
    rfl

end ConnRun

/-! ## Runs -/

open ConnRun

variable {x y : ConnRun} {op : OutputOp} {ops : List OutputOp}

/-- Every call the kernel can answer returns, and its message joins the stream
or is lost. -/
theorem outputSystem_step (h : Open x) (hen : outputSystem.enabled x op) :
    ∃ y, outputSystem.step x op = .ok y ∧ Open y ∧
      y.stream = x.stream ++ if x.conn.outputBuffer_.readable = [] then op.message else [] := by
  cases op with
  | send msg write =>
      obtain ⟨y, hy, hopen, hstream⟩ := h.sent msg hen
      exact ⟨y, (h.send_eq msg write).trans hy, hopen, hstream⟩
  | sendBuffer buffer write =>
      obtain ⟨y, hy, hopen, hstream⟩ := h.sent buffer.readable hen
      refine ⟨y, ?_, hopen, hstream⟩
      show (·.1) <$> x.sendBuffer buffer write = _
      rw [sendBuffer, if_pos h.connected, if_pos h.inLoop, hy]
      rfl
  | handleWrite write =>
      obtain ⟨y, hy, hopen, hstream⟩ := h.handleWrite hen
      exact ⟨y, hy, hopen, by simp [hstream, OutputOp.message]⟩

/-- The same for a step already made. -/
theorem outputSystem_step_ok (h : Open x) (hstep : outputSystem.Step x op y) :
    Open y ∧
      y.stream = x.stream ++ if x.conn.outputBuffer_.readable = [] then op.message else [] := by
  obtain ⟨z, hz, hopen, hstream⟩ := outputSystem_step h hstep.1
  rw [hstep.2] at hz
  cases hz
  exact ⟨hopen, hstream⟩

theorem outputSystem_open (h : Open x) (hrun : outputSystem.Run x ops y) : Open y :=
  hrun.invariant h fun _ _ _ hopen hstep => (outputSystem_step_ok hopen hstep).1

/-- The stream never grows by more than the messages. -/
theorem outputSystem_length (h : Open x) (hrun : outputSystem.Run x ops y) :
    y.stream.length ≤ x.stream.length + (ops.flatMap OutputOp.message).length := by
  induction hrun with
  | nil => simp
  | @cons s s' s'' l ls hstep _ ih =>
      obtain ⟨hopen, hstream⟩ := outputSystem_step_ok h hstep
      have hrest := ih hopen
      have hone : s'.stream.length ≤ s.stream.length + l.message.length := by
        rw [hstream]
        split <;> simp
      rw [List.flatMap_cons, List.length_append]
      omega

/-- Messages sent on an idle connection all arrive, in order. -/
theorem outputSystem_idle (h : Open x) (hrun : (outputSystem.restrict SentIdle).Run x ops y) :
    y.stream = x.stream ++ ops.flatMap OutputOp.message := by
  induction hrun with
  | nil => simp
  | @cons s s' s'' l ls hstep _ ih =>
      obtain ⟨hstep, hidle⟩ := System.restrict_step.mp hstep
      obtain ⟨hopen, hstream⟩ := outputSystem_step_ok h hstep
      have hone : s'.stream = s.stream ++ l.message := by
        rw [hstream]
        rcases hidle with hnil | hidle
        · simp [hnil]
        · rw [if_pos hidle]
      rw [ih hopen, hone, List.flatMap_cons, List.append_assoc]

/-- A message sent on a busy connection makes the stream too short for good. -/
theorem outputSystem_lost (h : Open x) {pre post : List OutputOp} {s s' : ConnRun}
    (hpre : outputSystem.Run x pre s) (hstep : outputSystem.Step s op s')
    (hlost : ¬ SentIdle s op) (hpost : outputSystem.Run s' post y) :
    y.stream.length < x.stream.length + ((pre ++ op :: post).flatMap OutputOp.message).length := by
  have hs := outputSystem_open h hpre
  obtain ⟨hs', hstream⟩ := outputSystem_step_ok hs hstep
  obtain ⟨hmsg, hbusy⟩ := not_or.mp hlost
  rw [if_neg hbusy, List.append_nil] at hstream
  have hfront := outputSystem_length h hpre
  have hback := outputSystem_length hs' hpost
  have hpos := List.length_pos_iff.mpr hmsg
  rw [hstream] at hback
  simp only [List.flatMap_append, List.flatMap_cons, List.length_append]
  omega

/-- The output law, and that no call the kernel can answer faults. -/
theorem output_law_iff {x₀ : ConnRun} (hfresh : Fresh x₀)
    (hestablished : x₀.establishConnection = .ok x) (hrun : outputSystem.Run x ops y) :
    (y.stream = ops.flatMap OutputOp.message ↔ (outputSystem.restrict SentIdle).Run x ops y) ∧
    ∀ op, outputSystem.enabled y op → ∃ z, outputSystem.step y op = .ok z := by
  obtain ⟨hopen, hnil⟩ := hfresh.establish hestablished
  refine ⟨⟨fun hlaw => ?_, fun hidle => ?_⟩, fun op hen => ?_⟩
  · rcases hrun.restrict_or_first SentIdle with
      hall | ⟨pre, l, post, s, s', rfl, hpre, hl, hnot, hpost⟩
    · exact hall
    · have hshort := outputSystem_lost hopen hpre.of_restrict hl hnot hpost
      rw [hlaw, hnil, List.length_nil, Nat.zero_add] at hshort
      exact absurd hshort (Nat.lt_irrefl _)
  · simpa [hnil] using outputSystem_idle hopen hidle
  · obtain ⟨z, hz, -, -⟩ := outputSystem_step (outputSystem_open hopen hrun) hen
    exact ⟨z, hz⟩

/-- A new connection with descriptor `7` on an empty loop. -/
def newConn : ConnRun where
  thread := some 0
  epoller := {}
  conn := { self := 0, loop_ := 0, name_ := [], channel_ := { self := 0, fd_ := 7 },
            closeCallback_ := .server }

theorem newConn_fresh : Fresh newConn := ⟨rfl, rfl, Buffer.readable_new, rfl⟩

theorem newConn_established : ∃ x, newConn.establishConnection = .ok x := ⟨_, rfl⟩

/-- A message sent on the idle connection. -/
theorem output_law_newConn : ∃ x y, newConn.establishConnection = .ok x ∧
    outputSystem.Run x [.send [1, 2] (.wrote 1)] y ∧ y.stream = [1, 2] := by
  obtain ⟨x, hx⟩ := newConn_established
  obtain ⟨hopen, hnil⟩ := newConn_fresh.establish hx
  have hfits : outputSystem.enabled x (.send [1, 2] (.wrote 1)) := Nat.le_succ 1
  obtain ⟨y, hy, -, -⟩ := outputSystem_step hopen hfits
  have hrun : outputSystem.Run x [.send [1, 2] (.wrote 1)] y := .cons ⟨hfits, hy⟩ (.nil y)
  have hidle : SentIdle x (.send [1, 2] (.wrote 1)) :=
    .inr (List.append_eq_nil_iff.mp hnil).2
  exact ⟨x, y, hx, hrun, (output_law_iff newConn_fresh hx hrun).1.mpr
    (.cons (System.restrict_step.mpr ⟨⟨hfits, hy⟩, hidle⟩) (.nil y))⟩

/-- The kernel takes half of a message; the next one is lost. -/
theorem not_output_law : ¬ ∀ x₀ x y ops, Fresh x₀ → x₀.establishConnection = .ok x →
    outputSystem.Run x ops y → y.stream = ops.flatMap OutputOp.message := by
  intro hlaw
  obtain ⟨x, hx⟩ := newConn_established
  obtain ⟨hopen, hnil⟩ := newConn_fresh.establish hx
  have hidle : x.conn.outputBuffer_.readable = [] := (List.append_eq_nil_iff.mp hnil).2
  have hfits : outputSystem.enabled x (.send [1, 2] (.wrote 1)) := Nat.le_succ 1
  obtain ⟨y, hy, hopen', -, hread⟩ := hopen.sendInLoop_idle hidle [1, 2]
    (show (WriteResult.wrote 1).Fits 2 from hfits)
  have hfirst : outputSystem.Step x (.send [1, 2] (.wrote 1)) y :=
    ⟨hfits, (hopen.send_eq _ _).trans hy⟩
  have hbusy : ¬ SentIdle y (.send [3] (.wrote 1)) := by
    simp [SentIdle, OutputOp.message, hread, WriteResult.count]
  have hfits' : outputSystem.enabled y (.send [3] (.wrote 1)) := Nat.le_refl 1
  obtain ⟨z, hz, -, -⟩ := outputSystem_step hopen' hfits'
  have hshort := outputSystem_lost hopen (.cons hfirst (.nil y)) ⟨hfits', hz⟩ hbusy (.nil z)
  rw [hlaw newConn x z _ newConn_fresh hx (.cons hfirst (.cons ⟨hfits', hz⟩ (.nil z))), hnil]
    at hshort
  simp at hshort

end Ham.Net
