import Ham.Base.Types
import Ham.Lib.Condition
import Ham.Lib.Run

/-!
# `BoundedBlockingQueue`

Any number of calls of `put` and `take`, one mutex section a step. Where a call
would block it goes to `wait` in its own section, and it comes back with a
section of its own; nothing keeps a later call from getting in between.

The queue is a ring that overwrites its oldest element when it is full, so it
loses none only because `put` waits. `bounded_fifo` says that it does, that
elements leave in the order in which they came, and that neither condition
variable loses a wakeup.
-/

namespace Ham

open Lib

variable {T : Type}

/-! ## The ring -/

/-- `boost::circular_buffer`, by its elements from the oldest on. -/
structure CircularBuffer (T : Type) where
  capacity : Nat
  content : List T
  bounded : content.length ≤ capacity

namespace CircularBuffer

def new (capacity : Nat) : CircularBuffer T := ⟨capacity, [], Nat.zero_le capacity⟩

def full (b : CircularBuffer T) : Bool := b.content.length = b.capacity

/-- `push_back`, with the element it overwrites. -/
def pushBack (b : CircularBuffer T) (x : T) : CircularBuffer T × List T :=
  if h : b.content.length = b.capacity then
    (⟨b.capacity, (b.content ++ [x]).tail, by simp [h]⟩, b.content.head?.toList)
  else
    (⟨b.capacity, b.content ++ [x], by simpa using Nat.lt_of_le_of_ne b.bounded h⟩, [])

def popFront (b : CircularBuffer T) : CircularBuffer T :=
  ⟨b.capacity, b.content.tail, by
    rw [List.length_tail]
    exact (Nat.sub_le _ _).trans b.bounded⟩

theorem pushBack_of_room {b : CircularBuffer T} (h : b.full = false) (x : T) :
    (b.pushBack x).1.content = b.content ++ [x] ∧ (b.pushBack x).1.capacity = b.capacity ∧
    (b.pushBack x).2 = [] := by
  have hne : b.content.length ≠ b.capacity := by simpa [full] using h
  simp [pushBack, hne]

end CircularBuffer

/-! ## The queue -/

/-- A call of `put`. -/
inductive PutCall (T : Type) where
  | stands (gate : Gate) (task : T)
  | returned

/-- A call of `take`, with what it returns. -/
inductive TakeCall (T : Type) where
  | stands (gate : Gate)
  | returned (task : T)

structure BoundedBlockingQueue (T : Type) where
  queue_ : CircularBuffer T
  puts : List (PutCall T) := []
  takes : List (TakeCall T) := []
  /-- What has been pushed and popped so far, in order. -/
  pushed : List T := []
  taken : List T := []
  /-- What the ring has overwritten. -/
  overwritten : List T := []

/-- What the scheduler chooses next: a new call, the next section of a call
(with the thread its `notify_one` would reach), or a call that wakes up by
itself. -/
inductive BlockingLabel (T : Type) where
  | callPut (task : T)
  | callTake
  | put (i pick : Nat)
  | take (i pick : Nat)
  | wakePut (i : Nat)
  | wakeTake (i : Nat)

namespace BoundedBlockingQueue

/-- `notFull_`, on which calls of `put` wait. -/
def notFull_ : Condition (PutCall T) where
  gate
    | .stands gate _ => some gate
    | .returned => none
  pass gate
    | .stands _ task => .stands gate task
    | .returned => .returned
  gate_pass := by
    intro s g h
    cases s with
    | stands => rfl
    | returned => cases h

/-- `notEmpty_`, on which calls of `take` wait. -/
def notEmpty_ : Condition (TakeCall T) where
  gate
    | .stands gate => some gate
    | .returned _ => none
  pass gate
    | .stands _ => .stands gate
    | .returned task => .returned task
  gate_pass := by
    intro s g h
    cases s with
    | stands => rfl
    | returned => cases h

variable (q : BoundedBlockingQueue T)

/-- The constructor. -/
def new (maxsize : Nat) : BoundedBlockingQueue T where
  queue_ := .new maxsize

/-- A section of the `i`-th `put`: `while(queue_.full())`, and behind it. The
two overloads differ in how the task gets into the ring, by a copy or by a
move. -/
def put (i : Nat) (task : T) (pick : Nat) : BoundedBlockingQueue T :=
  if q.queue_.full then { q with puts := q.puts.set i (.stands .waiting task) }
  else { q with
    queue_ := (q.queue_.pushBack task).1
    puts := q.puts.set i .returned
    takes := notEmpty_.notifyOne pick q.takes
    pushed := q.pushed ++ [task]
    overwritten := q.overwritten ++ (q.queue_.pushBack task).2 }

/-- A section of the `i`-th `take`. -/
def take (i pick : Nat) : BoundedBlockingQueue T :=
  match q.queue_.content with
  | [] => { q with takes := q.takes.set i (.stands .waiting) }
  | task :: _ => { q with
      queue_ := q.queue_.popFront
      takes := q.takes.set i (.returned task)
      puts := notFull_.notifyOne pick q.puts
      taken := q.taken ++ [task] }

def step : BlockingLabel T → BoundedBlockingQueue T
  | .callPut task => { q with puts := q.puts ++ [.stands .entering task] }
  | .callTake => { q with takes := q.takes ++ [.stands .entering] }
  | .put i pick =>
      match q.puts[i]? with
      | some (.stands _ task) => q.put i task pick
      | _ => q
  | .take i pick => q.take i pick
  | .wakePut i =>
      match q.puts[i]? with
      | some (.stands _ task) => { q with puts := q.puts.set i (.stands .woken task) }
      | _ => q
  | .wakeTake i => { q with takes := q.takes.set i (.stands .woken) }

def Enabled : BlockingLabel T → Prop
  | .callPut _ | .callTake => True
  | .put i pick =>
      (∃ gate task, q.puts[i]? = some (.stands gate task) ∧ gate ≠ .waiting) ∧
      notEmpty_.Picks pick q.takes
  | .take i pick =>
      (∃ gate, q.takes[i]? = some (.stands gate) ∧ gate ≠ .waiting) ∧ notFull_.Picks pick q.puts
  | .wakePut i => ∃ task, q.puts[i]? = some (.stands .waiting task)
  | .wakeTake i => q.takes[i]? = some (.stands .waiting)

end BoundedBlockingQueue

def boundedBlockingQueue : System (BoundedBlockingQueue T) (BlockingLabel T) Fault where
  enabled := BoundedBlockingQueue.Enabled
  step q l := .ok (q.step l)

namespace BoundedBlockingQueue

variable {q : BoundedBlockingQueue T} {c i pick : Nat} {l : BlockingLabel T}

/-- The law of the queue. -/
structure Lossless (c : Nat) (q : BoundedBlockingQueue T) : Prop where
  capacity : q.queue_.capacity = c
  order : q.taken ++ q.queue_.content = q.pushed
  kept : q.overwritten = []
  /-- Elements are covered by the consumers on their way, -/
  elements : notEmpty_.Covered q.queue_.content.length q.takes
  /-- and free slots by the producers. -/
  slots : notFull_.Covered (c - q.queue_.content.length) q.puts

theorem lossless_new (c : Nat) : Lossless c (new c : BoundedBlockingQueue T) where
  capacity := rfl
  order := rfl
  kept := rfl
  elements := .zero _
  slots := by
    intro h
    simp [new, Condition.count] at h

theorem Lossless.put (h : Lossless c q) {gate : Gate} {task : T}
    (hi : q.puts[i]? = some (.stands gate task)) (hpick : notEmpty_.Picks pick q.takes) :
    Lossless c (q.put i task pick) := by
  unfold BoundedBlockingQueue.put
  split
  · -- no free slot: the call waits
    rename_i hfull
    refine ⟨h.capacity, h.order, h.kept, h.elements, ?_⟩
    have hlength : q.queue_.content.length = q.queue_.capacity := by
      simpa [CircularBuffer.full] using hfull
    rw [hlength, h.capacity, Nat.sub_self]
    exact .zero _
  · rename_i hroom
    obtain ⟨hcontent, hcapacity, hover⟩ := CircularBuffer.pushBack_of_room
      (by simpa using hroom) task
    refine ⟨hcapacity.trans h.capacity, ?_, ?_, ?_, ?_⟩
    · rw [hcontent, ← List.append_assoc, h.order]
    · rw [hover, h.kept]
      rfl
    · rw [hcontent, List.length_append]
      exact h.elements.notifyOne hpick
    · have hslots := h.slots.leave (u := .returned) hi (by simp [notFull_])
      rw [hcontent, List.length_append]
      exact hslots.mono (by simp; omega)

theorem Lossless.take (h : Lossless c q) {gate : Gate} (hi : q.takes[i]? = some (.stands gate))
    (hpick : notFull_.Picks pick q.puts) : Lossless c (q.take i pick) := by
  unfold BoundedBlockingQueue.take
  split
  · -- no element: the call waits
    rename_i hempty
    refine ⟨h.capacity, h.order, h.kept, ?_, h.slots⟩
    rw [hempty]
    exact .zero _
  · rename_i task rest hcontent
    have hpop : q.queue_.popFront.content = rest := by
      simp [CircularBuffer.popFront, hcontent]
    refine ⟨h.capacity, ?_, h.kept, ?_, ?_⟩
    · rw [hpop, List.append_assoc, List.singleton_append, ← hcontent, h.order]
    · have helements := h.elements.leave (u := .returned task) hi (by simp [notEmpty_])
      rw [hpop]
      simpa [hcontent] using helements
    · have hslots := h.slots.notifyOne hpick
      have hbound := q.queue_.bounded
      rw [h.capacity, hcontent, List.length_cons] at hbound
      rw [hpop]
      refine hslots.mono ?_
      rw [hcontent, List.length_cons]
      omega

theorem Lossless.step (h : Lossless c q) (hen : q.Enabled l) : Lossless c (q.step l) := by
  cases l with
  | callPut task =>
      exact ⟨h.capacity, h.order, h.kept, h.elements, h.slots.append (by simp [notFull_])⟩
  | callTake =>
      exact ⟨h.capacity, h.order, h.kept, h.elements.append (by simp [notEmpty_]), h.slots⟩
  | put i pick =>
      obtain ⟨⟨gate, task, hi, -⟩, hpick⟩ := hen
      simp only [BoundedBlockingQueue.step, hi]
      exact h.put hi hpick
  | take i pick =>
      obtain ⟨⟨gate, hi, -⟩, hpick⟩ := hen
      exact h.take hi hpick
  | wakePut i =>
      obtain ⟨task, hi⟩ := hen
      simp only [BoundedBlockingQueue.step, hi]
      refine ⟨h.capacity, h.order, h.kept, h.elements, h.slots.bypass hi ?_ ?_⟩
      · simp [notFull_]
      · simp [notFull_]
  | wakeTake i =>
      refine ⟨h.capacity, h.order, h.kept, h.elements.bypass hen ?_ ?_, h.slots⟩
      · simp [notEmpty_]
      · simp [notEmpty_]

end BoundedBlockingQueue

open BoundedBlockingQueue

/-- A bounded FIFO without lost wakeups, under every interleaving of the
sections: the ring never holds more than its capacity and never overwrites,
what has been taken and what is queued are what has been put, in order; and a
call that waits un-notified leaves nothing undone that the notified calls will
not do. -/
theorem bounded_fifo {c : Nat} {ls : List (BlockingLabel T)} {q : BoundedBlockingQueue T}
    (hrun : boundedBlockingQueue.Run (new c) ls q) :
    q.queue_.content.length ≤ c ∧ q.overwritten = [] ∧
    q.taken ++ q.queue_.content = q.pushed ∧
    (0 < notEmpty_.count .waiting q.takes →
      q.queue_.content.length ≤ notEmpty_.count .notified q.takes) ∧
    (0 < notFull_.count .waiting q.puts →
      c - q.queue_.content.length ≤ notFull_.count .notified q.puts) := by
  have hlossless : Lossless c q := by
    apply hrun.invariant (lossless_new c)
    intro q l q' h hstep
    obtain ⟨hen, hq'⟩ := hstep
    have hq' : q' = q.step l := (Except.ok.inj hq').symm
    subst hq'
    exact h.step hen
  refine ⟨?_, hlossless.kept, hlossless.order, hlossless.elements, hlossless.slots⟩
  have hbound := q.queue_.bounded
  rw [hlossless.capacity] at hbound
  exact hbound

/-- One slot, two producers and two consumers: the second `put` waits until the
first `take` notifies it, and the second `take` gets in first and waits. -/
theorem bounded_fifo_handoff :
    ∃ (ls : List (BlockingLabel Char)) (q : BoundedBlockingQueue Char),
      boundedBlockingQueue.Run (new 1) ls q ∧ q.taken = ['a'] ∧
      notEmpty_.count .waiting q.takes = 1 ∧ notFull_.count .notified q.puts = 1 ∧
      q.taken ++ q.queue_.content = q.pushed := by
  have hrun : ∃ q : BoundedBlockingQueue Char, boundedBlockingQueue.Run (new 1)
      [.callPut 'a', .callPut 'b', .callTake, .callTake, .put 0 0, .put 1 0, .take 0 1,
        .take 1 0] q ∧ q.taken = ['a'] ∧ notEmpty_.count .waiting q.takes = 1 ∧
      notFull_.count .notified q.puts = 1 := by
    refine ⟨_, .cons ⟨trivial, rfl⟩ (.cons ⟨trivial, rfl⟩ (.cons ⟨trivial, rfl⟩
      (.cons ⟨trivial, rfl⟩ (.cons ⟨⟨⟨_, _, rfl, by decide⟩, ?_⟩, rfl⟩
      (.cons ⟨⟨⟨_, _, rfl, by decide⟩, ?_⟩, rfl⟩ (.cons ⟨⟨⟨_, rfl, by decide⟩, ?_⟩, rfl⟩
      (.cons ⟨⟨⟨_, rfl, by decide⟩, ?_⟩, rfl⟩ (.nil _)))))))), rfl, by decide, by decide⟩
    · exact fun h => absurd h (by decide)
    · exact fun h => absurd h (by decide)
    · exact fun _ => ⟨_, rfl, rfl⟩
    · exact fun h => absurd h (by decide)
  obtain ⟨q, hrun, htaken, hwaiting, hnotified⟩ := hrun
  exact ⟨_, q, hrun, htaken, hwaiting, hnotified, (bounded_fifo hrun).2.2.1⟩

end Ham
