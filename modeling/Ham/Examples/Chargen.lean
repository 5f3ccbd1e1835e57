import Ham.Lib.Lines
import Ham.Net.WriteComplete

/-!
# The character generator

`ChargenServer` with one connection. Its message is sent when the connection is
up and again by every write-complete call, so the next message is never sent
while output is pending, and none is lost. The functors of the loop that have not
run yet are the effects of the run; `printed` and `gaveUp` are history.

* `message_getElem?` — the message, character by character;
* `Generating`, `Ended` — the invariant of the connection: copies of the message in
  the stream, and one callback queued or output pending, until a fault; then
  nothing more;
* `chargen_stream` — what the peer can read, what `transferred_` counts, and that
  the generator does not stall.
-/

namespace Ham.Examples

open Ham Ham.Lib Ham.Net Ham.Net.ConnRun

/-- The printable characters, twice. -/
def chargenLine : Bytes :=
  let line := (List.range' 33 (127 - 33)).map Nat.toUInt8
  line ++ line

def message_ : Bytes :=
  (List.range (127 - 33)).flatMap fun i => (chargenLine.drop i).take 72 ++ ascii ['\n']

structure ChargenServer where
  run : ConnRun
  transferred_ : Nat := 0
  /-- The bytes `printThroughput` has reported. -/
  printed : Nat := 0
  /-- A `send` has given its message up. -/
  gaveUp : Bool := false
  /-- The callbacks and the timer are bound to a server that exists. -/
  alive : Bool := true

inductive ChargenLabel where
  /-- `Channel::handleEvent` of the connection. -/
  | event (revents : Events) (read : ReadResult) (write : WriteResult)
  /-- The loop runs the next functor. -/
  | runFunctor (write : WriteResult)
  | printThroughput
  | destroyServer

namespace ChargenServer

/-- `onMessage` throws its input away. -/
def onMessage (x : ConnRun) : ConnRun :=
  { x with conn := { x.conn with inputBuffer_ := x.conn.inputBuffer_.retrieveAllAsString.2 } }

def onConnection (x : ConnRun) (write : WriteResult) : Except Fault ConnRun :=
  if x.conn.state_ = .kConnected then x.send message_ write else .ok x

def onWriteComplete (s : ChargenServer) (write : WriteResult) : Except Fault ChargenServer := do
  let s := { s with transferred_ := s.transferred_ + message_.length }
  let run ← s.run.send message_ write
  return { s with run, gaveUp := s.gaveUp || write.isFault }

def printThroughput (s : ChargenServer) : ChargenServer :=
  { s with printed := s.printed + s.transferred_, transferred_ := 0 }

/-- `establishConnection`, with the `connectionCallback_` at its end. -/
def newConnection (x : ConnRun) (write : WriteResult) : Except Fault ChargenServer := do
  let x ← x.establishConnection
  let run ← onConnection x write
  return { run, gaveUp := write.isFault }

/-- `handleEvent` with `onMessage` in the middle of it. -/
def event (x : ConnRun) (revents : Events) (read : ReadResult) (write : WriteResult) :
    Except Fault ConnRun := do
  let x ← x.handleEvent revents read
  let reads := revents.epollin || revents.epollpri || revents.epollrdhup
  let x := if reads && match read with | .data _ => true | _ => false then onMessage x else x
  x.handleEventWrite revents write

/-- The next functor. `closeCallback_` has queued `destoryConnection`, and nothing
else is ever queued. -/
def runFunctor (s : ChargenServer) (write : WriteResult) : Except Fault ChargenServer :=
  match s.run.effects with
  | [] => .ok s
  | .queueInLoop (.writeCompleteCallback _) :: rest =>
      -- bound to `this`
      if s.alive then { s with run := { s.run with effects := rest } }.onWriteComplete write
      else .error .dangling
  | .closeCallback :: rest => do
      let run ← ConnRun.destoryConnection { s.run with effects := rest }
      return { s with run }
  | _ :: rest => .ok { s with run := { s.run with effects := rest } }

/-- `~TcpServer` closes the connection if `connections_` still has it. -/
def destroyServer (s : ChargenServer) : Except Fault ChargenServer :=
  if s.run.conn.state_ = .kDisconnected then .ok { s with alive := false }
  else do
    let run ← s.run.destoryConnection
    return { s with run, alive := false }

def step (s : ChargenServer) : ChargenLabel → Except Fault ChargenServer
  | .event revents read write => do
      let run ← event s.run revents read write
      return { s with run }
  | .runFunctor write => s.runFunctor write
  -- nobody has cancelled the timer
  | .printThroughput => if s.alive then .ok s.printThroughput else .error .dangling
  | .destroyServer => s.destroyServer

def Enabled (s : ChargenServer) : ChargenLabel → Prop
  | .event _ read write =>
      s.run.conn.log.destroyed = false ∧ read ≠ .data [] ∧
      write.Within s.run.conn.outputBuffer_.readable.length
  | .runFunctor write => s.run.effects ≠ [] ∧ write.Within message_.length
  | .printThroughput => True
  | .destroyServer => s.alive = true

end ChargenServer

/-- The events of the connection, the functors of the loop, the timer and the end
of the server, in any order. -/
def chargen : System ChargenServer ChargenLabel Fault where
  enabled := ChargenServer.Enabled
  step := ChargenServer.step

/-! ## The message -/

/-- The character at a place of the endless text: 72 characters of a rotating line
and a newline. -/
def charAt (i : Nat) : Byte :=
  if i % 73 = 72 then 10 else Nat.toUInt8 (33 + (i / 73 % 94 + i % 73) % 94)

theorem chargenLine_getElem? {j : Nat} (h : j < 188) :
    chargenLine[j]? = some (Nat.toUInt8 (33 + j % 94)) := by
  have hlength : ((List.range' 33 (127 - 33)).map Nat.toUInt8).length = 94 := by simp
  unfold chargenLine
  by_cases hj : j < 94
  · rw [List.getElem?_append_left (by rw [hlength]; exact hj), Nat.mod_eq_of_lt hj]
    simp [hj]
  · rw [List.getElem?_append_right (by rw [hlength]; omega), hlength,
      Nat.mod_eq_sub_mod (by omega), Nat.mod_eq_of_lt (by omega)]
    simp [show j - 94 < 94 by omega]

theorem chargenLine_length : chargenLine.length = 188 := by simp [chargenLine]

/-- One line of the message. -/
theorem messageLine_length {i : Nat} (h : i ∈ List.range (127 - 33)) :
    ((chargenLine.drop i).take 72 ++ ascii ['\n']).length = 73 := by
  have hi := List.mem_range.mp h
  simp [chargenLine_length, ascii]
  omega

theorem message_length : message_.length = 6862 := by
  unfold message_
  rw [List.length_flatMap, List.map_congr_left fun i hi => messageLine_length hi]
  simp

theorem message_getElem? {j : Nat} (h : j < 6862) : message_[j]? = some (charAt j) := by
  have hline : j / 73 < 94 := by omega
  unfold message_
  rw [getElem?_flatMap_of_length (by decide : 0 < 73) fun i hi => messageLine_length hi,
    List.getElem?_range (by exact hline)]
  show ((chargenLine.drop (j / 73)).take 72 ++ ascii ['\n'])[j % 73]? = _
  have hlength : ((chargenLine.drop (j / 73)).take 72).length = 72 := by
    simp [chargenLine_length]
    omega
  unfold charAt
  by_cases hlast : j % 73 = 72
  · rw [if_pos hlast, hlast, List.getElem?_append_right (by rw [hlength]), hlength]
    rfl
  · rw [if_neg hlast, List.getElem?_append_left (by rw [hlength]; omega),
      List.getElem?_take_of_lt (by omega), List.getElem?_drop, chargenLine_getElem? (by omega),
      Nat.mod_eq_of_lt hline]

/-- The message `k` times. -/
def copies (k : Nat) : Bytes := (List.range k).flatMap fun _ => message_

theorem copies_succ (k : Nat) : copies (k + 1) = copies k ++ message_ := by
  simp [copies, List.range_succ]

theorem copies_length (k : Nat) : (copies k).length = k * message_.length := by
  simp [copies, List.length_flatMap]

theorem copies_getElem? {k i : Nat} {b : Byte} (h : (copies k)[i]? = some b) : b = charAt i := by
  unfold copies at h
  rw [getElem?_flatMap_of_length (by decide : 0 < 6862) fun _ _ => message_length,
    Option.bind_eq_some_iff] at h
  obtain ⟨_, -, h⟩ := h
  rw [message_getElem? (Nat.mod_lt _ (by decide))] at h
  cases h
  have hcol : i % 6862 % 73 = i % 73 := Nat.mod_mod_of_dvd i (by decide)
  have hrow : i % 6862 / 73 = i / 73 % 94 := Nat.mod_mul_right_div_self i 73 94
  unfold charAt
  rw [hcol, hrow, Nat.mod_mod]

namespace ChargenServer

variable {s s' : ChargenServer} {x y z : ConnRun} {k : Nat}

/-! ## The connection while it is open -/

/-- The bytes the write-complete calls have counted. -/
def counted (s : ChargenServer) : Nat := s.printed + s.transferred_

/-- Where an open connection stands after `k` messages. -/
inductive Stage (s : ChargenServer) (k : Nat) : Prop
  /-- The kernel has them all, and the callback that counts the last is queued. -/
  | queued : s.run.effects = [.queueInLoop (.writeCompleteCallback s.run.conn.self)] →
      s.run.pending = false → s.counted + message_.length = k * message_.length → Stage s k
  /-- A part of the last waits for the socket. -/
  | draining : s.run.effects = [] → s.run.pending = true →
      s.run.conn.outputBuffer_.readable.length ≤ message_.length →
      s.counted + message_.length = k * message_.length → Stage s k
  /-- The next one was given up. -/
  | stopped : s.run.effects = [] → s.run.pending = false → s.gaveUp = true →
      s.counted = k * message_.length → Stage s k

/-- `Stage` looks at nothing but these parts. -/
theorem Stage.of_parts (h : Stage s k) (heffects : s'.run.effects = s.run.effects)
    (hself : s'.run.conn.self = s.run.conn.self)
    (hout : s'.run.conn.outputBuffer_ = s.run.conn.outputBuffer_)
    (hcounted : s'.counted = s.counted) (hgave : s'.gaveUp = s.gaveUp) : Stage s' k := by
  have hpending : s'.run.pending = s.run.pending := by rw [pending, pending, hout]
  cases h with
  | queued hqueue hnone hcount =>
      exact .queued (by rw [heffects, hqueue, hself]) (hpending.trans hnone)
        (by rw [hcounted, hcount])
  | draining hqueue hsome hsize hcount =>
      exact .draining (heffects.trans hqueue) (hpending.trans hsome) (by rw [hout]; exact hsize)
        (by rw [hcounted, hcount])
  | stopped hqueue hnone hgiven hcount =>
      exact .stopped (heffects.trans hqueue) (hpending.trans hnone) (hgave.trans hgiven)
        (hcounted.trans hcount)

structure Generating (s : ChargenServer) (k : Nat) : Prop extends Open s.run where
  writeComplete : s.run.conn.writeCompleteCallback_ = true
  highWater : s.run.conn.highWaterMarkCallback_ = false
  stream : s.run.stream = copies k
  stage : Stage s k

theorem completion_eq (h : x.conn.writeCompleteCallback_ = true) :
    x.completion = [.queueInLoop (.writeCompleteCallback x.conn.self)] := if_pos h

theorem highWater_eq (h : x.conn.highWaterMarkCallback_ = false) (size : Nat) :
    x.highWater size = [] := if_neg (by simp [h])

theorem message_ne_nil : message_ ≠ [] := by
  intro hnil
  have hlength := message_length
  rw [hnil] at hlength
  cases hlength

/-- The message is sent when everything before it is with the kernel. -/
theorem generating_send (hopen : Open s.run) (hset : s.run.conn.writeCompleteCallback_ = true)
    (hhigh : s.run.conn.highWaterMarkCallback_ = false) (hstream : s.run.stream = copies k)
    (hnone : s.run.effects = []) (hidle : s.run.pending = false)
    (hcounted : s.counted = k * message_.length) {write : WriteResult}
    (hwithin : write.Within message_.length) (hy : s.run.send message_ write = .ok y) :
    ∃ k, Generating { s with run := y, gaveUp := s.gaveUp || write.isFault } k := by
  rw [hopen.send_eq] at hy
  obtain ⟨z, es, hz, hopen', hqueues, hsends⟩ := hopen.sendInLoop_sends message_ hwithin
  cases hz.symm.trans hy
  have hset' := hqueues.writeComplete.trans hset
  have hhigh' := hqueues.highWater.trans hhigh
  have heffects : y.effects = es := by rw [hqueues.effects, hnone, List.nil_append]
  have hone : (k + 1) * message_.length = k * message_.length + message_.length :=
    Nat.succ_mul _ _
  cases hsends with
  | refused hwhy hpending hsame =>
      have hfault : write.isFault = true := by
        rcases hwhy with hbusy | hnil | hfault
        · rw [hidle] at hbusy
          cases hbusy
        · exact absurd hnil message_ne_nil
        · exact hfault
      exact ⟨k, hopen', hset', hhigh', hsame.trans hstream,
        .stopped heffects (hpending.trans hidle) (by simp [hfault]) hcounted⟩
  | whole _ hdone hjoined =>
      refine ⟨k + 1, hopen', hset', hhigh', ?_, .queued ?_ hdone ?_⟩
      · rw [hjoined, hstream, copies_succ]
      · rw [heffects, completion_eq hset, hqueues.self]
      · rw [hone]
        exact congrArg (· + message_.length) hcounted
  | rest _ hrest hjoined hsize =>
      refine ⟨k + 1, hopen', hset', hhigh', ?_, .draining ?_ hrest hsize ?_⟩
      · rw [hjoined, hstream, copies_succ]
      · rw [heffects, highWater_eq hhigh]
      · rw [hone]
        exact congrArg (· + message_.length) hcounted

/-- A writable event. -/
theorem Generating.handleWrite (h : Generating s k) {write : WriteResult}
    (hwithin : write.Within s.run.conn.outputBuffer_.readable.length)
    (hy : s.run.handleWrite write = .ok y) : Generating { s with run := y } k := by
  obtain ⟨z, hz, hopen, hstream, hqueues, hless⟩ := h.toOpen.handleWrite_drains hwithin
  cases hz.symm.trans hy
  refine ⟨hopen, hqueues.writeComplete.trans h.writeComplete,
    hqueues.highWater.trans h.highWater, hstream.trans h.stream, ?_⟩
  have heffects := hqueues.effects
  -- nothing was pending, and nothing is
  have hidle : s.run.pending = false → y.pending = false ∧ y.effects = s.run.effects := by
    intro hnone
    rw [if_neg (by simp [hnone]), List.append_nil] at heffects
    refine ⟨?_, heffects⟩
    rw [pending_eq_false] at hnone ⊢
    rw [hnone] at hless
    exact List.length_eq_zero_iff.mp (Nat.le_zero.mp hless)
  cases h.stage with
  | queued hqueue hnone hcounted =>
      obtain ⟨hdone, hsame⟩ := hidle hnone
      exact .queued (by rw [hsame, hqueue, hqueues.self]) hdone hcounted
  | draining hqueue hpending hsize hcounted =>
      cases hdone : y.pending with
      | false =>
          refine .queued ?_ hdone hcounted
          rw [heffects, hqueue, if_pos ⟨hpending, hdone⟩, completion_eq h.writeComplete,
            hqueues.self]
          rfl
      | true =>
          refine .draining ?_ hdone (hless.trans hsize) hcounted
          rw [heffects, hqueue, if_neg (by simp [hdone])]
          rfl
  | stopped hqueue hnone hgave hcounted =>
      obtain ⟨hdone, hsame⟩ := hidle hnone
      exact .stopped (hsame.trans hqueue) hdone hgave hcounted

/-! ## The connection once it is closed -/

/-- No longer connected, and no longer interested in writing. -/
structure Over (x : ConnRun) : Prop where
  state : x.conn.state_ ≠ .kConnected
  writing : x.conn.channel_.isWriting = false

/-- Between the two nothing was written and no callback was queued or run. -/
structure Mute (x y : ConnRun) : Prop where
  accepted : y.conn.log.accepted = x.conn.log.accepted
  completes : y.completes = x.completes

theorem Mute.trans (h : Mute x y) (h' : Mute y z) : Mute x z :=
  ⟨h'.accepted.trans h.accepted, h'.completes.trans h.completes⟩

theorem handleClose_over (h : x.handleClose = .ok y) : Over y ∧ Mute x y := by
  obtain ⟨-, -, heffects, hconn⟩ := handleClose_ok h
  refine ⟨⟨?_, ?_⟩, ?_, ?_⟩
  · rw [hconn]
    exact nofun
  · rw [hconn]
    rfl
  · rw [hconn]
  · rw [completes, heffects, List.countP_append]
    rfl

theorem destoryConnection_over (h : x.destoryConnection = .ok y)
    (hover : x.conn.state_ = .kConnected ∨ Over x) : Over y ∧ Mute x y := by
  obtain ⟨-, -, heffects, hconn⟩ := destoryConnection_ok h
  have hcompletes : y.completes = x.completes := congrArg (List.countP _) heffects
  split at hconn
  · refine ⟨⟨?_, ?_⟩, ?_, hcompletes⟩
    · rw [hconn]
      exact nofun
    · rw [hconn]
      rfl
    · rw [hconn]
  · rename_i hstate
    have hover := hover.resolve_left hstate
    refine ⟨⟨?_, ?_⟩, ?_, hcompletes⟩
    · rw [hconn]
      exact hover.state
    · rw [hconn]
      exact hover.writing
    · rw [hconn]

/-- Another input buffer. -/
def withInput (x : ConnRun) (b : Buffer) : ConnRun :=
  { x with conn := { x.conn with inputBuffer_ := b } }

theorem Over.withInput (h : Over x) (b : Buffer) : Over (withInput x b) ∧ Mute x (withInput x b) :=
  ⟨⟨h.state, h.writing⟩, rfl, rfl⟩

/-- The read of an event closes the connection, or at most adds input. -/
theorem readEvent_cases {revents : Events} {read : ReadResult}
    (h : x.readEvent revents read = .ok y) :
    x.handleClose = .ok y ∨ ∃ b, y = withInput x b := by
  unfold readEvent at h
  split at h
  · simp only [handleRead, bind_eq_ok] at h
    obtain ⟨_, -, h⟩ := h
    cases read with
    | data bytes =>
        cases h
        exact .inr ⟨_, rfl⟩
    | eof => exact .inl h
    | failed =>
        cases h
        exact .inr ⟨_, rfl⟩
  · cases h
    exact .inr ⟨_, rfl⟩

/-- An event up to its writable part: the connection is closed, or it is as it
was, but for its input. -/
theorem event_cases {revents : Events} {read : ReadResult} {write : WriteResult}
    (h : event x revents read write = .ok y) :
    ∃ z, z.handleEventWrite revents write = .ok y ∧
      ((Over z ∧ Mute x z) ∨ ∃ b, z = withInput x b) := by
  simp only [event, handleEvent, bind_eq_ok] at h
  obtain ⟨v, ⟨u, hu, hv⟩, hy⟩ := h
  have hhangup : (Over u ∧ Mute x u) ∨ u = x := by
    unfold hangupEvent at hu
    split at hu
    · exact .inl (handleClose_over hu)
    · cases hu
      exact .inr rfl
  have hread : (Over v ∧ Mute x v) ∨ ∃ b, v = withInput x b := by
    rcases readEvent_cases hv with hclose | ⟨b, rfl⟩
    · obtain ⟨hover, hmute⟩ := handleClose_over hclose
      rcases hhangup with ⟨-, hmute'⟩ | rfl
      · exact .inl ⟨hover, hmute'.trans hmute⟩
      · exact .inl ⟨hover, hmute⟩
    · rcases hhangup with ⟨hover, hmute⟩ | rfl
      · exact .inl ((hover.withInput b).imp_right hmute.trans)
      · exact .inr ⟨b, rfl⟩
  have hmessage : ∀ inMessage : Bool,
      (Over (if inMessage then onMessage v else v) ∧
        Mute x (if inMessage then onMessage v else v)) ∨
      ∃ b, (if inMessage then onMessage v else v) = withInput x b := by
    intro inMessage
    cases inMessage with
    | false => exact hread
    | true =>
        rcases hread with ⟨hover, hmute⟩ | ⟨b, rfl⟩
        · exact .inl ((hover.withInput _).imp_right hmute.trans)
        · exact .inr ⟨_, rfl⟩
  exact ⟨_, hy, hmessage _⟩

/-- The writable part of an event does nothing on a closed connection. -/
theorem Over.handleEventWrite (h : Over x) {revents : Events} {write : WriteResult}
    (hy : x.handleEventWrite revents write = .ok y) : y = x := by
  unfold ConnRun.handleEventWrite at hy
  split at hy
  · simp only [ConnRun.handleWrite, bind_eq_ok] at hy
    obtain ⟨_, -, hy⟩ := hy
    rw [if_neg (by simp [h.writing])] at hy
    cases hy
    rfl
  · cases hy
    rfl

/-- A closed connection: the peer has a beginning of the text, and what has been
counted, or still will be, is with the kernel. -/
structure Ended (s : ChargenServer) : Prop extends Over s.run where
  accepted : ∃ k, s.run.conn.log.accepted <+: copies k
  counted : s.counted + s.run.completes * message_.length ≤ s.run.conn.log.accepted.length

theorem Generating.accepted (h : Generating s k) : s.run.conn.log.accepted <+: copies k :=
  ⟨_, h.stream⟩

theorem stream_length (x : ConnRun) :
    x.stream.length = x.conn.log.accepted.length + x.conn.outputBuffer_.readable.length :=
  List.length_append

/-- What is counted or will be is with the kernel, and it is all but the rest of one
message, unless the generator has stopped. -/
theorem Generating.counts (h : Generating s k) :
    s.counted + s.run.completes * message_.length ≤ s.run.conn.log.accepted.length ∧
    s.run.conn.log.accepted.length ≤ s.counted + message_.length := by
  have hlength := stream_length s.run
  rw [h.stream, copies_length] at hlength
  cases h.stage with
  | queued hqueue hnone hcounted =>
      rw [pending_eq_false.mp hnone, List.length_nil, Nat.add_zero] at hlength
      have hone : s.run.completes = 1 := by
        rw [completes, hqueue]
        rfl
      rw [hone, Nat.one_mul]
      omega
  | draining hqueue hpending hsize hcounted =>
      have hzero : s.run.completes = 0 := by
        rw [completes, hqueue]
        rfl
      rw [hzero, Nat.zero_mul]
      omega
  | stopped hqueue hnone _ hcounted =>
      rw [pending_eq_false.mp hnone, List.length_nil, Nat.add_zero] at hlength
      have hzero : s.run.completes = 0 := by
        rw [completes, hqueue]
        rfl
      rw [hzero, Nat.zero_mul]
      omega

/-- The end of an open connection. -/
theorem Generating.ended (h : Generating s k) (hover : Over y) (hmute : Mute s.run y) :
    Ended { s with run := y } where
  toOver := hover
  accepted := ⟨k, hmute.accepted ▸ h.accepted⟩
  counted := by
    have hcounts := h.counts.1
    rw [← hmute.accepted, ← hmute.completes] at hcounts
    exact hcounts

theorem Ended.mute (h : Ended s) (hover : Over y) (hmute : Mute s.run y) :
    Ended { s with run := y } where
  toOver := hover
  accepted := hmute.accepted ▸ h.accepted
  counted := by
    have hcounts := h.counted
    rw [← hmute.accepted, ← hmute.completes] at hcounts
    exact hcounts

/-! ## Runs -/

/-- The invariant. -/
def Sound (s : ChargenServer) : Prop := (∃ k, Generating s k) ∨ Ended s

/-- Another input buffer changes nothing for the generator. -/
theorem Generating.withInput (h : Generating s k) (b : Buffer) :
    Generating { s with run := withInput s.run b } k where
  toOpen := h.toOpen.of_parts rfl rfl rfl rfl rfl rfl
  writeComplete := h.writeComplete
  highWater := h.highWater
  stream := h.stream
  stage := h.stage.of_parts rfl rfl rfl rfl rfl

theorem Sound.event (h : Sound s) {revents : Events} {read : ReadResult} {write : WriteResult}
    (hwithin : write.Within s.run.conn.outputBuffer_.readable.length)
    (hy : ChargenServer.event s.run revents read write = .ok y) : Sound { s with run := y } := by
  obtain ⟨z, hz, hcases⟩ := event_cases hy
  rcases h with ⟨k, hgen⟩ | hended
  · rcases hcases with ⟨hover, hmute⟩ | ⟨b, rfl⟩
    · cases hover.handleEventWrite hz
      exact .inr (hgen.ended hover hmute)
    · have hgen := hgen.withInput b
      unfold ConnRun.handleEventWrite at hz
      split at hz
      · exact .inl ⟨k, hgen.handleWrite hwithin hz⟩
      · cases hz
        exact .inl ⟨k, hgen⟩
  · have hover : Over z ∧ Mute s.run z := by
      rcases hcases with hclosed | ⟨b, rfl⟩
      · exact hclosed
      · exact hended.toOver.withInput b
    cases hover.1.handleEventWrite hz
    exact .inr (hended.mute hover.1 hover.2)

/-- The next functor, on an open connection: there is one if the kernel has all
that was sent. -/
theorem Generating.runFunctor (h : Generating s k) {write : WriteResult}
    (hsome : s.run.effects ≠ []) (hwithin : write.Within message_.length)
    (hstep : s.runFunctor write = .ok s') : Sound s' := by
  cases h.stage with
  | draining hnil => exact absurd hnil hsome
  | stopped hnil => exact absurd hnil hsome
  | queued hqueue hnone hcounted =>
      simp only [ChargenServer.runFunctor, hqueue] at hstep
      split at hstep
      swap
      · cases hstep
      simp only [onWriteComplete, bind_eq_ok, pure_eq_ok, Except.ok.injEq] at hstep
      obtain ⟨y, hy, rfl⟩ := hstep
      obtain ⟨k', hgen⟩ := generating_send (s := { s with
          run := { s.run with effects := [] }, transferred_ := s.transferred_ + message_.length })
        (h.toOpen.of_parts rfl rfl rfl rfl rfl rfl) h.writeComplete h.highWater h.stream rfl hnone
        (k := k) (by rw [← hcounted]; exact (Nat.add_assoc _ _ _).symm) hwithin hy
      exact .inl ⟨k', hgen⟩

/-- And on a closed one. -/
theorem Ended.runFunctor (h : Ended s) {write : WriteResult}
    (hstep : s.runFunctor write = .ok s') : Ended s' := by
  have hcounted := h.counted
  unfold ChargenServer.runFunctor at hstep
  split at hstep
  · cases hstep
    exact h
  · -- the callback counts its message, and `send` does nothing
    rename_i c rest hqueue
    have hcalls : s.run.completes = rest.countP Effect.isWriteComplete + 1 := by
      rw [completes, hqueue, List.countP_cons]
      rfl
    split at hstep
    swap
    · cases hstep
    simp only [onWriteComplete, bind_eq_ok, pure_eq_ok, Except.ok.injEq] at hstep
    obtain ⟨y, hy, rfl⟩ := hstep
    rw [ConnRun.send, if_neg h.state] at hy
    cases hy
    refine ⟨⟨h.state, h.writing⟩, h.accepted, ?_⟩
    rw [hcalls, Nat.succ_mul] at hcounted
    show s.printed + (s.transferred_ + message_.length) +
      rest.countP Effect.isWriteComplete * message_.length ≤ s.run.conn.log.accepted.length
    unfold ChargenServer.counted at hcounted
    omega
  · rename_i rest hqueue
    have hcalls : s.run.completes = rest.countP Effect.isWriteComplete := by
      rw [completes, hqueue, List.countP_cons]
      rfl
    simp only [bind_eq_ok, pure_eq_ok, Except.ok.injEq] at hstep
    obtain ⟨y, hy, rfl⟩ := hstep
    obtain ⟨hover, hmute⟩ := destoryConnection_over hy (.inr ⟨h.state, h.writing⟩)
    exact h.mute hover ⟨hmute.accepted, hmute.completes.trans hcalls.symm⟩
  · rename_i e rest _ _ hqueue
    cases hstep
    have hcalls : rest.countP Effect.isWriteComplete ≤ s.run.completes := by
      rw [completes, hqueue, List.countP_cons]
      exact Nat.le_add_right _ _
    refine ⟨⟨h.state, h.writing⟩, h.accepted, (Nat.add_le_add_left ?_ _).trans hcounted⟩
    exact Nat.mul_le_mul_right _ hcalls

/-- The end of the server is the end of the connection, or finds it closed. -/
theorem Sound.destroyServer (h : Sound s) (hstep : s.destroyServer = .ok s') : Sound s' := by
  unfold ChargenServer.destroyServer at hstep
  split at hstep
  · rename_i hclosed
    cases hstep
    rcases h with ⟨k, hgen⟩ | hended
    · exact absurd hgen.connected (by rw [hclosed]; decide)
    · exact .inr ⟨hended.toOver, hended.accepted, hended.counted⟩
  · simp only [bind_eq_ok, pure_eq_ok, Except.ok.injEq] at hstep
    obtain ⟨y, hy, rfl⟩ := hstep
    rcases h with ⟨k, hgen⟩ | hended
    · obtain ⟨hover, hmute⟩ := destoryConnection_over hy (.inl hgen.connected)
      have hend := hgen.ended hover hmute
      exact .inr ⟨hend.toOver, hend.accepted, hend.counted⟩
    · obtain ⟨hover, hmute⟩ := destoryConnection_over hy (.inr hended.toOver)
      have hend := hended.mute hover hmute
      exact .inr ⟨hend.toOver, hend.accepted, hend.counted⟩

theorem sound_step {l : ChargenLabel} (h : Sound s) (hstep : chargen.Step s l s') : Sound s' := by
  obtain ⟨hen, hstep⟩ := hstep
  cases l with
  | event revents read write =>
      obtain ⟨-, -, hwithin⟩ := hen
      simp only [chargen, ChargenServer.step, bind_eq_ok, pure_eq_ok, Except.ok.injEq] at hstep
      obtain ⟨y, hy, rfl⟩ := hstep
      exact h.event hwithin hy
  | runFunctor write =>
      obtain ⟨hsome, hwithin⟩ := hen
      rcases h with ⟨k, hgen⟩ | hended
      · exact hgen.runFunctor hsome hwithin hstep
      · exact .inr (hended.runFunctor hstep)
  | printThroughput =>
      simp only [chargen, ChargenServer.step] at hstep
      split at hstep
      swap
      · cases hstep
      cases hstep
      have hsame : s.printThroughput.counted = s.counted := Nat.add_zero _
      rcases h with ⟨k, hgen⟩ | hended
      · exact .inl ⟨k, hgen.toOpen, hgen.writeComplete, hgen.highWater, hgen.stream,
          hgen.stage.of_parts rfl rfl rfl hsame rfl⟩
      · refine .inr ⟨hended.toOver, hended.accepted, ?_⟩
        rw [hsame]
        exact hended.counted
  | destroyServer => exact h.destroyServer hstep

/-- The first message is sent by `onConnection`. -/
theorem newConnection_sound (hfresh : Fresh x) (hnone : x.effects = [])
    (hset : x.conn.writeCompleteCallback_ = true) (hhigh : x.conn.highWaterMarkCallback_ = false)
    {write : WriteResult} (hwithin : write.Within message_.length)
    (hstart : newConnection x write = .ok s) : Sound s := by
  simp only [newConnection, bind_eq_ok, pure_eq_ok, Except.ok.injEq] at hstart
  obtain ⟨y, hy, z, hz, rfl⟩ := hstart
  obtain ⟨horderly, heffects, hidle⟩ := hfresh.orderly hnone hset hy
  obtain ⟨hopen, hstream⟩ := hfresh.establish hy
  rw [onConnection, if_pos hopen.connected] at hz
  exact .inl (generating_send (s := { run := y }) (k := 0) hopen horderly.writeComplete
    ((establishConnection_queues hy).highWater.trans hhigh) hstream heffects hidle
    (Nat.zero_mul _).symm hwithin hz)

end ChargenServer

open ChargenServer

/-- A connection of the character generator, over any events, functors, reports and
the end of the server: what the peer can have read is a beginning of the endless
text; no byte is counted that the kernel does not have; and while the connection is
up, all but one message is counted, and if no message has been given up, the next
callback is queued, or output is pending and watched for. -/
theorem chargen_stream {x₀ : ConnRun} {s s' : ChargenServer} {write : WriteResult}
    {ls : List ChargenLabel} (hfresh : Fresh x₀) (hnone : x₀.effects = [])
    (hset : x₀.conn.writeCompleteCallback_ = true)
    (hhigh : x₀.conn.highWaterMarkCallback_ = false) (hwithin : write.Within message_.length)
    (hstart : newConnection x₀ write = .ok s) (hrun : chargen.Run s ls s') :
    (∀ i b, s'.run.conn.log.accepted[i]? = some b → b = charAt i) ∧
    s'.printed + s'.transferred_ ≤ s'.run.conn.log.accepted.length ∧
    (s'.run.conn.state_ = .kConnected →
      s'.run.conn.log.accepted.length ≤ s'.printed + s'.transferred_ + message_.length ∧
      (s'.gaveUp = false →
        s'.run.effects = [.queueInLoop (.writeCompleteCallback s'.run.conn.self)] ∨
        s'.run.pending = true ∧ s'.run.conn.channel_.isWriting = true)) := by
  have hsound : Sound s' := by
    refine hrun.invariant (newConnection_sound hfresh hnone hset hhigh hwithin hstart) ?_
    exact fun _ _ _ h hstep => sound_step h hstep
  have hprefix : ∃ k, s'.run.conn.log.accepted <+: copies k := by
    rcases hsound with ⟨k, hgen⟩ | hended
    · exact ⟨k, hgen.accepted⟩
    · exact hended.accepted
  refine ⟨fun i b hb => ?_, ?_, fun hconnected => ?_⟩
  · obtain ⟨k, rest, hrest⟩ := hprefix
    have hi := (List.getElem?_eq_some_iff.mp hb).1
    rw [← List.getElem?_append_left hi, hrest] at hb
    exact copies_getElem? hb
  · rcases hsound with ⟨k, hgen⟩ | hended
    · exact (Nat.le_add_right _ _).trans hgen.counts.1
    · exact (Nat.le_add_right _ _).trans hended.counted
  · rcases hsound with ⟨k, hgen⟩ | hended
    · refine ⟨hgen.counts.2, fun hgave => ?_⟩
      cases hgen.stage with
      | queued hqueue _ _ => exact .inl hqueue
      | draining _ hpending _ _ =>
          refine .inr ⟨hpending, hgen.writing.mpr ?_⟩
          simpa [pending] using hpending
      | stopped _ _ hgiven _ =>
          rw [hgave] at hgiven
          cases hgiven
    · exact absurd hconnected hended.state

/-- The kernel takes the first message whole, and half of the second. -/
theorem chargen_stream_second : ∃ s s',
    newConnection { newConn with conn := { newConn.conn with writeCompleteCallback_ := true } }
      (.wrote 6862) = .ok s ∧
    chargen.Run s [.runFunctor (.wrote 3431), .printThroughput] s' ∧
    (∀ i b, s'.run.conn.log.accepted[i]? = some b → b = charAt i) ∧
    s'.printed + s'.transferred_ ≤ s'.run.conn.log.accepted.length := by
  have hfresh : Fresh { newConn with
      conn := { newConn.conn with writeCompleteCallback_ := true } } :=
    ⟨rfl, rfl, Buffer.readable_new, rfl⟩
  have hwithin : (WriteResult.wrote 6862).Within message_.length := message_length.ge
  obtain ⟨x, hx⟩ : ∃ x, { newConn with
      conn := { newConn.conn with writeCompleteCallback_ := true } }.establishConnection = .ok x :=
    ⟨_, rfl⟩
  obtain ⟨hopen, hnil⟩ := hfresh.establish hx
  have hfits : (WriteResult.wrote 6862).Fits message_.length := hwithin
  obtain ⟨y, hy, hopen', -, hread⟩ :=
    hopen.sendInLoop_idle (List.append_eq_nil_iff.mp hnil).2 message_ hfits
  have hstart : newConnection { newConn with
      conn := { newConn.conn with writeCompleteCallback_ := true } } (.wrote 6862) =
        .ok { run := y } := by
    rw [newConnection, hx, ok_bind, onConnection, if_pos hopen.connected, hopen.send_eq, hy]
    rfl
  -- nothing is left of the first message, so its callback is queued
  have hqueue : y.effects = [.queueInLoop (.writeCompleteCallback y.conn.self)] := by
    have hidle : y.pending = false := by
      rw [pending_eq_false, hread, WriteResult.count, ← message_length, List.drop_length]
    rcases newConnection_sound hfresh rfl rfl rfl hwithin hstart with ⟨k, hgen⟩ | hended
    · cases hgen.stage with
      | queued hqueue _ _ => exact hqueue
      | draining _ hpending _ _ =>
          rw [hidle] at hpending
          cases hpending
      | stopped _ _ hgave _ => cases hgave
    · exact absurd hopen'.connected hended.state
  have hopen'' : Open { y with effects := [] } := hopen'.of_parts rfl rfl rfl rfl rfl rfl
  have hwithin' : (WriteResult.wrote 3431).Within message_.length := by
    rw [message_length]
    exact Nat.le_of_ble_eq_true rfl
  obtain ⟨z, _, hz, -⟩ := hopen''.sendInLoop_sends message_ hwithin'
  have hfunctor : chargen.Step { run := y } (.runFunctor (.wrote 3431))
      { run := z, transferred_ := 0 + message_.length } := by
    refine ⟨⟨by simp [hqueue], hwithin'⟩, ?_⟩
    simp only [chargen, ChargenServer.step, ChargenServer.runFunctor, hqueue, onWriteComplete,
      hopen''.send_eq, hz, ok_bind]
    rfl
  have hrun : chargen.Run { run := y } [.runFunctor (.wrote 3431), .printThroughput] _ :=
    .cons hfunctor (.cons ⟨trivial, rfl⟩ (.nil _))
  obtain ⟨hbytes, hcounted, -⟩ := chargen_stream hfresh rfl rfl rfl hwithin hstart hrun
  exact ⟨_, _, hstart, hrun, hbytes, hcounted⟩

end Ham.Examples
