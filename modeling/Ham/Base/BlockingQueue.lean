import Ham.Base.BoundedBlockingQueue

/-!
# `BlockingQueue`

Any number of calls of `put` and `take`, at the grain of mutex sections. `put`
leaves its section before it calls `notify_one`, so between the two an element
is in the queue that nobody has been notified of yet, and other calls may come
in between.

The law (`Accounted`) says that no element is lost or returned twice, and that
the elements are covered: while a call of `take` waits un-notified, they are no
more than the notified calls and the notifications still to come.
-/

namespace Ham

open Lib

variable {T : Type}

/-- A call of `put`. -/
inductive PutStage (T : Type) where
  | entering (task : T)
  /-- Behind the section, before `notEmpty_.notify_one()`. -/
  | notifying (task : T)
  | returned (task : T)

/-- What a call of `put` has pushed. -/
def PutStage.pushed : PutStage T → Option T
  | .entering _ => none
  | .notifying task | .returned task => some task

/-- The call still owes its notification. -/
def PutStage.owes : PutStage T → Bool
  | .notifying _ => true
  | _ => false

/-- What a call of `take` has returned. -/
def TakeCall.result : TakeCall T → Option T
  | .stands _ => none
  | .returned task => some task

structure BlockingQueue (T : Type) where
  queue_ : List T := []
  puts : List (PutStage T) := []
  takes : List (TakeCall T) := []
  /-- What has been pushed and popped so far, in order. -/
  pushed : List T := []
  taken : List T := []

inductive BlockingQueueLabel (T : Type) where
  | callPut (task : T)
  | callTake
  /-- The section of the `i`-th `put`. -/
  | put (i : Nat)
  /-- Its `notify_one`, with the thread that it reaches. -/
  | notify (i pick : Nat)
  /-- The next section of the `i`-th `take`. -/
  | take (i : Nat)
  | wakeTake (i : Nat)

namespace BlockingQueue

/-- `notEmpty_`, on which calls of `take` wait. -/
abbrev notEmpty_ : Condition (TakeCall T) := BoundedBlockingQueue.notEmpty_

section

variable (q : BlockingQueue T)

/-- The section of `put`. The two overloads differ in how the task gets into
the deque, by a copy or by a move. -/
def put (i : Nat) (task : T) : BlockingQueue T :=
  { q with
    queue_ := q.queue_ ++ [task]
    puts := q.puts.set i (.notifying task)
    pushed := q.pushed ++ [task] }

/-- A section of the `i`-th `take`. -/
def take (i : Nat) : BlockingQueue T :=
  match q.queue_ with
  | [] => { q with takes := q.takes.set i (.stands .waiting) }
  | task :: rest => { q with
      queue_ := rest
      takes := q.takes.set i (.returned task)
      taken := q.taken ++ [task] }

def step : BlockingQueueLabel T → BlockingQueue T
  | .callPut task => { q with puts := q.puts ++ [.entering task] }
  | .callTake => { q with takes := q.takes ++ [.stands .entering] }
  | .put i =>
      match q.puts[i]? with
      | some (.entering task) => q.put i task
      | _ => q
  | .notify i pick =>
      match q.puts[i]? with
      | some (.notifying task) => { q with
          puts := q.puts.set i (.returned task)
          takes := notEmpty_.notifyOne pick q.takes }
      | _ => q
  | .take i => q.take i
  | .wakeTake i => { q with takes := q.takes.set i (.stands .woken) }

def Enabled : BlockingQueueLabel T → Prop
  | .callPut _ | .callTake => True
  | .put i => ∃ task, q.puts[i]? = some (.entering task)
  | .notify i pick =>
      (∃ task, q.puts[i]? = some (.notifying task)) ∧ notEmpty_.Picks pick q.takes
  | .take i => ∃ gate, q.takes[i]? = some (.stands gate) ∧ gate ≠ .waiting
  | .wakeTake i => q.takes[i]? = some (.stands .waiting)

/-- How many notifications are still to come. -/
def owing : Nat := q.puts.countP PutStage.owes

end

end BlockingQueue

def blockingQueue : System (BlockingQueue T) (BlockingQueueLabel T) Fault where
  enabled := BlockingQueue.Enabled
  step q l := .ok (q.step l)

namespace BlockingQueue

variable {q q' : BlockingQueue T} {l : BlockingQueueLabel T} {i pick : Nat} {task : T}

/-- The law of the queue. -/
structure Accounted (q : BlockingQueue T) : Prop where
  order : q.taken ++ q.queue_ = q.pushed
  /-- Each call of `put` has pushed its task once, -/
  puts : (q.puts.filterMap PutStage.pushed).Perm q.pushed
  /-- and each task has come out of one call of `take`. -/
  takes : (q.takes.filterMap TakeCall.result).Perm q.taken
  covered : notEmpty_.Covered (q.queue_.length - q.owing) q.takes

theorem accounted_new : Accounted ({} : BlockingQueue T) where
  order := rfl
  puts := .nil
  takes := .nil
  covered := .zero _

theorem result_pass (g : Gate) (s : TakeCall T) :
    (notEmpty_.pass g s).result = s.result := by
  cases s <;> rfl

theorem Accounted.put (h : Accounted q) (hi : q.puts[i]? = some (.entering task)) :
    Accounted (q.put i task) where
  order := by
    show q.taken ++ (q.queue_ ++ [task]) = q.pushed ++ [task]
    rw [← List.append_assoc, h.order]
  puts := by
    have hperm := Condition.filterMap_set_perm (u := .notifying task) hi
      (f := PutStage.pushed) rfl rfl
    exact hperm.trans (h.puts.append_right [task])
  takes := h.takes
  covered := by
    have hcount := Condition.countP_set_add (p := PutStage.owes) (u := .notifying task) hi
    have howing : (q.put i task).owing = q.owing + 1 := by
      simpa [PutStage.owes, owing, BlockingQueue.put] using hcount
    rw [howing]
    refine h.covered.mono ?_
    simp only [BlockingQueue.put, List.length_append, List.length_singleton]
    omega

theorem Accounted.notify (h : Accounted q) (hi : q.puts[i]? = some (.notifying task))
    (hpick : notEmpty_.Picks pick q.takes) :
    Accounted { q with
      puts := q.puts.set i (.returned task), takes := notEmpty_.notifyOne pick q.takes } where
  order := h.order
  puts := by
    have hsame := Condition.filterMap_set_same (u := .returned task) hi
      (f := PutStage.pushed) rfl
    exact (List.Perm.of_eq hsame).trans h.puts
  takes := by
    rw [Condition.filterMap_notifyOne (result_pass .notified)]
    exact h.takes
  covered := by
    have hcount := Condition.countP_set_add (p := PutStage.owes) (u := .returned task) hi
    have howing : (q.puts.set i (.returned task)).countP PutStage.owes + 1 = q.owing := by
      simpa [PutStage.owes, owing] using hcount
    refine (h.covered.notifyOne hpick).mono ?_
    show q.queue_.length - (q.puts.set i (.returned task)).countP PutStage.owes ≤ _
    omega

theorem Accounted.take (h : Accounted q) {gate : Gate}
    (hi : q.takes[i]? = some (.stands gate)) : Accounted (q.take i) := by
  unfold BlockingQueue.take
  split
  · -- no element: the call waits
    rename_i hempty
    refine ⟨h.order, h.puts, ?_, ?_⟩
    · have hsame := Condition.filterMap_set_same (u := .stands .waiting) hi
        (f := TakeCall.result) rfl
      exact (List.Perm.of_eq hsame).trans h.takes
    · rw [hempty]
      exact (Condition.Covered.zero _).mono (Nat.sub_le _ _)
  · rename_i task rest hqueue
    refine ⟨?_, h.puts, ?_, ?_⟩
    · show q.taken ++ [task] ++ rest = q.pushed
      rw [List.append_assoc, List.singleton_append, ← hqueue, h.order]
    · have hperm := Condition.filterMap_set_perm (u := .returned task) hi
        (f := TakeCall.result) rfl rfl
      exact hperm.trans (h.takes.append_right [task])
    · refine (h.covered.leave (u := .returned task) hi (by simp [BoundedBlockingQueue.notEmpty_])).mono
        ?_
      show rest.length - q.owing ≤ q.queue_.length - q.owing - 1
      rw [hqueue, List.length_cons]
      omega

theorem Accounted.step (h : Accounted q) (hen : q.Enabled l) : Accounted (q.step l) := by
  cases l with
  | callPut task =>
      refine ⟨h.order, ?_, h.takes, ?_⟩
      · simpa [BlockingQueue.step, List.filterMap_cons, PutStage.pushed] using h.puts
      · simpa [BlockingQueue.step, owing, PutStage.owes] using h.covered
  | callTake =>
      refine ⟨h.order, h.puts, ?_, ?_⟩
      · simpa [BlockingQueue.step, List.filterMap_cons, TakeCall.result] using h.takes
      · exact h.covered.append (by simp [BoundedBlockingQueue.notEmpty_])
  | put i =>
      obtain ⟨task, hi⟩ := hen
      simp only [BlockingQueue.step, hi]
      exact h.put hi
  | notify i pick =>
      obtain ⟨⟨task, hi⟩, hpick⟩ := hen
      simp only [BlockingQueue.step, hi]
      exact h.notify hi hpick
  | take i =>
      obtain ⟨gate, hi, -⟩ := hen
      exact h.take hi
  | wakeTake i =>
      refine ⟨h.order, h.puts, ?_, h.covered.bypass hen ?_ ?_⟩
      · have hsame := Condition.filterMap_set_same (u := .stands .woken) hen
          (f := TakeCall.result) rfl
        exact (List.Perm.of_eq hsame).trans h.takes
      · simp [BoundedBlockingQueue.notEmpty_]
      · simp [BoundedBlockingQueue.notEmpty_]

/-! ## Waiting calls are served -/

/-- A step of a call that is already there, and that has not woken up by
itself. -/
def BlockingQueueLabel.serves : BlockingQueueLabel T → Prop
  | .notify _ _ | .take _ => True
  | _ => False

/-- No call of `take` is left in the monitor, or no element for it. -/
def Served (q : BlockingQueue T) : Prop := q.queue_ = [] ∨ notEmpty_.inside q.takes = 0

theorem serve_progress (h : Accounted q) (hq : ¬ q.Served) :
    ∃ l q', (blockingQueue.restrict fun _ l => BlockingQueueLabel.serves l).Step q l q' ∧
      Accounted q' ∧ q'.queue_.length + q'.owing < q.queue_.length + q.owing := by
  suffices hgo : ∃ l, q.Enabled l ∧ BlockingQueueLabel.serves l ∧
      (q.step l).queue_.length + (q.step l).owing < q.queue_.length + q.owing by
    obtain ⟨l, hen, hl, hlt⟩ := hgo
    exact ⟨l, q.step l, System.restrict_step.mpr ⟨⟨hen, rfl⟩, hl⟩, h.step hen, hlt⟩
  obtain ⟨hqueue, hinside⟩ := not_or.mp hq
  by_cases howing : 0 < q.owing
  · -- a notification that is still to come
    obtain ⟨s, hmem, howes⟩ := List.countP_pos_iff.mp howing
    obtain ⟨i, hi⟩ := List.mem_iff_getElem?.mp hmem
    obtain ⟨pick, hpick⟩ := notEmpty_.exists_picks q.takes
    cases s with
    | notifying task =>
        refine ⟨.notify i pick, ⟨⟨task, hi⟩, hpick⟩, trivial, ?_⟩
        have hcount := Condition.countP_set_add (p := PutStage.owes) (u := .returned task) hi
        have hless : (q.puts.set i (.returned task)).countP PutStage.owes + 1 = q.owing := by
          simpa [PutStage.owes, owing] using hcount
        simp only [step, hi]
        show q.queue_.length + (q.puts.set i (.returned task)).countP PutStage.owes < _
        omega
    | _ => cases howes
  · -- the elements are covered by notified calls, if any call waits
    have hpos := List.length_pos_iff.mpr hqueue
    obtain ⟨i, s, g, hi, hgate, hg⟩ := h.covered.exists_awake (by omega) (by omega)
    cases s with
    | stands gate =>
        obtain rfl : gate = g := by simpa [BoundedBlockingQueue.notEmpty_] using hgate
        refine ⟨.take i, ⟨gate, hi, hg⟩, trivial, ?_⟩
        obtain ⟨task, rest, hcons⟩ := List.exists_cons_of_ne_nil hqueue
        have hstep : (q.step (.take i)).queue_ = rest ∧ (q.step (.take i)).owing = q.owing := by
          simp [step, BlockingQueue.take, hcons, owing]
        rw [hstep.1, hstep.2, hcons, List.length_cons]
        omega
    | returned task => cases hgate

end BlockingQueue

open BlockingQueue

/-- An unbounded FIFO without lost elements or wakeups, under every
interleaving of the sections and notifications: what has been taken and what is
queued are what has been put, in order; each element comes from one call of
`put` and goes to one call of `take`; a call that waits un-notified leaves no
element that neither a notified call nor a notification to come is there for;
and the calls that are there always get on until the queue is empty or all of
them have returned. -/
theorem blocking_fifo {ls : List (BlockingQueueLabel T)} {q : BlockingQueue T}
    (hrun : blockingQueue.Run {} ls q) :
    q.taken ++ q.queue_ = q.pushed ∧
    (q.puts.filterMap PutStage.pushed).Perm q.pushed ∧
    (q.takes.filterMap TakeCall.result).Perm q.taken ∧
    (0 < notEmpty_.count .waiting q.takes →
      q.queue_.length ≤ notEmpty_.count .notified q.takes + q.owing) ∧
    (blockingQueue.restrict fun _ l => BlockingQueueLabel.serves l).Reaches q Served := by
  have haccounted : Accounted q := by
    apply hrun.invariant accounted_new
    intro q l q' h hstep
    obtain ⟨hen, hq'⟩ := hstep
    have hq' : q' = q.step l := (Except.ok.inj hq').symm
    subst hq'
    exact h.step hen
  refine ⟨haccounted.order, haccounted.puts, haccounted.takes, ?_, ?_⟩
  · intro hwaiting
    have hcovered := haccounted.covered hwaiting
    omega
  · refine System.reaches_of_measure (fun q => q.queue_.length + q.owing) ?_ haccounted
    intro q h
    by_cases hq : q.Served
    · exact .inl hq
    · exact .inr (serve_progress h hq)

/-- Two elements, and a call that waits while the notifications for both are
still to come. -/
theorem blocking_fifo_late :
    ∃ (ls : List (BlockingQueueLabel Char)) (q : BlockingQueue Char),
      blockingQueue.Run {} ls q ∧ q.owing = 2 ∧ notEmpty_.count .waiting q.takes = 1 ∧
      q.taken ++ q.queue_ = ['a', 'b'] := by
  have hrun : ∃ q : BlockingQueue Char, blockingQueue.Run {}
      [.callTake, .take 0, .callPut 'a', .put 0, .callPut 'b', .put 1] q ∧ q.owing = 2 ∧
      notEmpty_.count .waiting q.takes = 1 ∧ q.pushed = ['a', 'b'] := by
    refine ⟨_, .cons ⟨trivial, rfl⟩ (.cons ⟨⟨_, rfl, by decide⟩, rfl⟩ (.cons ⟨trivial, rfl⟩
      (.cons ⟨⟨_, rfl⟩, rfl⟩ (.cons ⟨trivial, rfl⟩ (.cons ⟨⟨_, rfl⟩, rfl⟩ (.nil _)))))),
      by decide, by decide, rfl⟩
  obtain ⟨q, hrun, howing, hwaiting, hpushed⟩ := hrun
  refine ⟨_, q, hrun, howing, hwaiting, ?_⟩
  rw [← hpushed]
  exact (blocking_fifo hrun).1

end Ham
