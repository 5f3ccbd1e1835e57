import Ham.Net.Registry

/-!
# `EventLoopThreadPool`

The loops a server spreads its connections over. `getNextLoop` goes round
`loops_`, which `start` fills once with as many loops as `setNumOfThreads` has
asked for by then; before that, and if it asked for none, the base loop serves
all.

* `pool_fair` — under any calls: the base loop is handed out up to `start`, and
  behind it the loops in turn, none of them more than once more than another; only
  a second `start` fails;
* `TcpServer.getNextLoop_pool` — what the reactor computes is this pool;
* `accept_loop` — the connection accepted behind `n` others lives on the `n`-th
  loop in turn, for good.
-/

namespace Ham.Net

open Ham.Lib

structure EventLoopThreadPool where
  started_ : Bool := false
  numOfThreads_ : Nat := 0
  nextLoopIdx_ : Nat := 0
  loops_ : List LoopId := []
  /-- The loops `cb` has been called for. -/
  initialized : List LoopId := []
  /-- The loops handed out so far. -/
  handed : List LoopId := []

inductive PoolFault where
  /-- `assert(!started_)`. -/
  | started
  /-- `loops_[nextLoopIdx_]` behind the end. -/
  | outOfRange
  deriving DecidableEq, Repr

inductive PoolOp where
  | setNumOfThreads (numOfThreads : Nat)
  /-- `start`, with the loops that `startLoop` returns, and whether there is a
  `cb`. -/
  | start (loops : List LoopId) (cb : Bool)
  | getNextLoop

namespace EventLoopThreadPool

def baseLoop_ : LoopId := 0

def setNumOfThreads (p : EventLoopThreadPool) (numOfThreads : Nat) : EventLoopThreadPool :=
  { p with numOfThreads_ := numOfThreads }

def start (p : EventLoopThreadPool) (loops : List LoopId) (cb : Bool) :
    Except PoolFault EventLoopThreadPool :=
  if p.started_ then .error .started
  else .ok { p with
    started_ := true
    loops_ := p.loops_ ++ loops
    initialized := if cb then (if p.numOfThreads_ = 0 then [baseLoop_] else loops) else [] }

def getNextLoop (p : EventLoopThreadPool) : Except PoolFault (LoopId × EventLoopThreadPool) :=
  if p.loops_ = [] then .ok (baseLoop_, p)
  else
    match p.loops_[p.nextLoopIdx_]? with
    | none => .error .outOfRange
    | some nextLoop =>
        let next := p.nextLoopIdx_ + 1
        .ok (nextLoop, { p with nextLoopIdx_ := if next ≥ p.loops_.length then 0 else next })

def step (p : EventLoopThreadPool) : PoolOp → Except PoolFault EventLoopThreadPool
  | .setNumOfThreads numOfThreads => .ok (p.setNumOfThreads numOfThreads)
  | .start loops cb => p.start loops cb
  | .getNextLoop => do
      let (nextLoop, p) ← p.getNextLoop
      return { p with handed := p.handed ++ [nextLoop] }

/-- `start` makes `numOfThreads_` new loops. -/
def Enabled (p : EventLoopThreadPool) : PoolOp → Prop
  | .start loops _ => loops.length = p.numOfThreads_ ∧ (baseLoop_ :: loops).Nodup
  | .setNumOfThreads _ | .getNextLoop => True

end EventLoopThreadPool

/-- Calls on the base loop's thread, in any order. -/
def threadPool : System EventLoopThreadPool PoolOp PoolFault where
  enabled := EventLoopThreadPool.Enabled
  step := EventLoopThreadPool.step

/-! ## Turns -/

/-- The `k`-th loop, going round; the base loop if there is none. -/
def turn (loops : List LoopId) (k : Nat) : LoopId :=
  loops[k % loops.length]?.getD EventLoopThreadPool.baseLoop_

/-- The next index. -/
theorem succ_mod_eq {n : Nat} (hn : 0 < n) (k : Nat) :
    (k + 1) % n = if k % n + 1 ≥ n then 0 else k % n + 1 := by
  have hlt := Nat.mod_lt k hn
  rw [← Nat.mod_add_mod]
  split
  · have hlast : k % n + 1 = n := by omega
    rw [hlast, Nat.mod_self]
  · exact Nat.mod_eq_of_lt (by omega)

theorem countP_range (p : Nat → Prop) [DecidablePred p] (n : Nat) :
    (List.range n).countP p = Nat.count p n := by
  induction n with
  | zero => rfl
  | succ n ih =>
      rw [List.range_succ, List.countP_append, ih, Nat.count_succ, List.countP_singleton]
      simp

theorem turn_eq {loops : List LoopId} (hsome : loops ≠ []) (k : Nat) :
    loops[k % loops.length]? = some (turn loops k) := by
  have hlt : k % loops.length < loops.length := Nat.mod_lt k (List.length_pos_iff.mpr hsome)
  simp [turn, hlt]

theorem turns_nil (n : Nat) :
    (List.range n).map (turn []) = List.replicate n EventLoopThreadPool.baseLoop_ := by
  have hbase : turn [] = fun _ => EventLoopThreadPool.baseLoop_ := by
    funext k
    simp [turn]
  simp [hbase, List.map_const']

/-- How often a loop has been handed out in `n` turns. -/
theorem count_turns {loops : List LoopId} (hnodup : loops.Nodup) {r : Nat} (hr : r < loops.length)
    (n : Nat) : ((List.range n).map (turn loops)).count loops[r] =
      n / loops.length + if r < n % loops.length then 1 else 0 := by
  have hsome : loops ≠ [] := List.length_pos_iff.mp (Nat.zero_lt_of_lt hr)
  have hpos := List.length_pos_iff.mpr hsome
  have hturn : ∀ k, (turn loops k == loops[r]) = decide (k ≡ r [MOD loops.length]) := by
    intro k
    have hk := Nat.mod_lt k hpos
    have hget : turn loops k = loops[k % loops.length] := by
      have h := turn_eq hsome k
      rw [List.getElem?_eq_getElem hk] at h
      exact (Option.some.inj h).symm
    rw [hget, beq_eq_decide]
    refine decide_eq_decide.mpr ?_
    rw [hnodup.getElem_inj_iff, Nat.ModEq, Nat.mod_eq_of_lt hr]
  rw [List.count, List.countP_map]
  simp only [Function.comp_def, hturn]
  rw [countP_range, Nat.count_modEq_card _ hpos, Nat.mod_eq_of_lt hr]

/-- No loop is handed out more than once more than another. -/
theorem turns_fair {loops : List LoopId} (hnodup : loops.Nodup) {ℓ ℓ' : LoopId} (hℓ : ℓ ∈ loops)
    (hℓ' : ℓ' ∈ loops) (n : Nat) :
    ((List.range n).map (turn loops)).count ℓ ≤
      ((List.range n).map (turn loops)).count ℓ' + 1 := by
  obtain ⟨r, hr, rfl⟩ := List.getElem_of_mem hℓ
  obtain ⟨r', hr', rfl⟩ := List.getElem_of_mem hℓ'
  rw [count_turns hnodup hr, count_turns hnodup hr']
  split
  · omega
  · omega

/-! ## Runs of the pool -/

def PoolOp.isStart : PoolOp → Bool
  | .start _ _ => true
  | _ => false

def PoolOp.isNext : PoolOp → Bool
  | .getNextLoop => true
  | _ => false

/-- How many loops are handed out ahead of `start`. -/
def early (ops : List PoolOp) : Nat :=
  (ops.takeWhile fun op => !op.isStart).countP PoolOp.isNext

/-- And how many behind it. -/
def late (ops : List PoolOp) : Nat :=
  (ops.dropWhile fun op => !op.isStart).countP PoolOp.isNext

namespace EventLoopThreadPool

variable {p p' : EventLoopThreadPool} {op : PoolOp} {loops : List LoopId} {k : Nat}

/-- The pool has these loops, and the `k`-th turn is next. -/
structure Going (loops : List LoopId) (p : EventLoopThreadPool) (k : Nat) : Prop where
  ring : p.loops_ = loops
  idx : p.nextLoopIdx_ = if loops = [] then 0 else k % loops.length

/-- `getNextLoop` hands out the loop whose turn it is. -/
theorem Going.getNextLoop (h : Going loops p k) :
    ∃ idx, p.getNextLoop = .ok (turn loops k, { p with nextLoopIdx_ := idx }) ∧
      Going loops { p with nextLoopIdx_ := idx } (k + 1) := by
  have hidx := h.idx
  by_cases hnone : loops = []
  · rw [if_pos hnone] at hidx
    refine ⟨p.nextLoopIdx_, ?_, h.ring, ?_⟩
    · rw [EventLoopThreadPool.getNextLoop, if_pos (h.ring.trans hnone), hnone]
      rfl
    · rw [if_pos hnone, hidx]
  · have hpos := List.length_pos_iff.mpr hnone
    rw [if_neg hnone] at hidx
    refine ⟨if p.nextLoopIdx_ + 1 ≥ loops.length then 0 else p.nextLoopIdx_ + 1, ?_, h.ring, ?_⟩
    · have hget : p.loops_[p.nextLoopIdx_]? = some (turn loops k) := by
        rw [h.ring, hidx, turn_eq hnone k]
      rw [EventLoopThreadPool.getNextLoop, if_neg (by rw [h.ring]; exact hnone), hget, h.ring]
    · rw [if_neg hnone, succ_mod_eq hpos, hidx]

/-- What has been handed out, since there were `before`. -/
structure Handing (loops before : List LoopId) (started : Bool) (p : EventLoopThreadPool)
    (k : Nat) : Prop extends Going loops p k where
  started : p.started_ = started
  handed : p.handed = before ++ (List.range k).map (turn loops)

theorem Handing.step {before : List LoopId} {started : Bool} (h : Handing loops before started p k)
    (hop : op.isStart = false) :
    ∃ p', p.step op = .ok p' ∧
      Handing loops before started p' (if op.isNext = true then k + 1 else k) := by
  cases op with
  | start loops cb => cases hop
  | setNumOfThreads numOfThreads =>
      exact ⟨p.setNumOfThreads numOfThreads, rfl, ⟨h.ring, h.idx⟩, h.started, h.handed⟩
  | getNextLoop =>
      obtain ⟨idx, hnext, hgoing⟩ := h.getNextLoop
      refine ⟨{ p with nextLoopIdx_ := idx, handed := p.handed ++ [turn loops k] }, ?_,
        ⟨hgoing.ring, hgoing.idx⟩, h.started, ?_⟩
      · simp only [EventLoopThreadPool.step, hnext, ok_bind]
        rfl
      · show p.handed ++ [turn loops k] = before ++ (List.range (k + 1)).map (turn loops)
        rw [h.handed, List.range_succ, List.map_append, List.append_assoc]
        rfl

/-- Without a `start` the loops stay what they are. -/
theorem Handing.run {before : List LoopId} {started : Bool} {ops : List PoolOp}
    (h : Handing loops before started p k) (hrun : threadPool.Run p ops p')
    (hops : ∀ op ∈ ops, op.isStart = false) :
    Handing loops before started p' (k + ops.countP PoolOp.isNext) := by
  induction hrun generalizing k with
  | nil => exact h
  | @cons _ _ _ op ops hst _ ih =>
      obtain ⟨hop, hrest⟩ := List.forall_mem_cons.mp hops
      obtain ⟨q, hq, hnext⟩ := h.step hop
      cases hq.symm.trans hst.2
      have hcount : k + (op :: ops).countP PoolOp.isNext =
          (if op.isNext = true then k + 1 else k) + ops.countP PoolOp.isNext := by
        rw [List.countP_cons]
        split
        · omega
        · omega
      rw [hcount]
      exact ih hnext hrest

theorem handing_new : Handing [] [] false {} 0 := ⟨⟨rfl, rfl⟩, rfl, rfl⟩

/-- `start` is the end of the one list of loops and the beginning of the next. -/
theorem Handing.start (h : Handing [] [] false p k) (loops : List LoopId) (cb : Bool) :
    ∃ p', p.start loops cb = .ok p' ∧
      Handing loops (List.replicate k baseLoop_) true p' 0 := by
  have hidx := h.idx
  refine ⟨_, if_neg (by rw [h.started]; decide), ⟨?_, ?_⟩, rfl, ?_⟩
  · show p.loops_ ++ loops = loops
    rw [h.ring, List.nil_append]
  · show p.nextLoopIdx_ = _
    rw [hidx]
    simp
  · show p.handed = _
    rw [h.handed, turns_nil]
    simp

/-- A started pool is not started again. -/
theorem start_of_started (h : p.started_ = true) (loops : List LoopId) (cb : Bool) :
    p.start loops cb = .error .started := if_pos h

/-- Any other call returns. -/
theorem Handing.returns_iff {before : List LoopId} {started : Bool}
    (h : Handing loops before started p k) (op : PoolOp) :
    (∃ p', p.step op = .ok p') ↔ ¬ (op.isStart = true ∧ started = true) := by
  have hreturns : op.isStart = false → ∃ p', p.step op = .ok p' := by
    intro hop
    obtain ⟨p', hp', -⟩ := h.step hop
    exact ⟨p', hp'⟩
  cases op with
  | setNumOfThreads numOfThreads => exact iff_of_true (hreturns rfl) fun hnot => nomatch hnot.1
  | getNextLoop => exact iff_of_true (hreturns rfl) fun hnot => nomatch hnot.1
  | start loops' cb =>
      cases started with
      | false =>
          refine iff_of_true ⟨_, if_neg ?_⟩ fun hnot => nomatch hnot.2
          rw [h.started]
          decide
      | true =>
          refine iff_of_false ?_ fun hnot => hnot ⟨rfl, rfl⟩
          rintro ⟨p', hp'⟩
          cases (start_of_started h.started loops' cb).symm.trans hp'

/-- What went to the base loop ahead of `start` does not count for the pool. -/
theorem Handing.fair {n : Nat} {started : Bool}
    (h : Handing loops (List.replicate n baseLoop_) started p k)
    (hnodup : (baseLoop_ :: loops).Nodup) {ℓ ℓ' : LoopId} (hℓ : ℓ ∈ loops) (hℓ' : ℓ' ∈ loops) :
    p.handed.count ℓ ≤ p.handed.count ℓ' + 1 := by
  obtain ⟨hbase, hloops⟩ := List.nodup_cons.mp hnodup
  have hearly : ∀ {m : LoopId}, m ∈ loops → (List.replicate n baseLoop_).count m = 0 := by
    intro m hm
    refine List.count_eq_zero.mpr fun hmem => hbase ?_
    rw [← List.eq_of_mem_replicate hmem]
    exact hm
  rw [h.handed, List.count_append, List.count_append, hearly hℓ, hearly hℓ', Nat.zero_add,
    Nat.zero_add]
  exact turns_fair hloops hℓ hℓ' k

theorem Handing.noStart {before : List LoopId} {ops : List PoolOp}
    (h : Handing loops before true p k) (hrun : threadPool.Run p ops p') :
    ∀ op ∈ ops, op.isStart = false := by
  induction hrun generalizing k with
  | nil => simp
  | @cons _ _ _ op ops hst _ ih =>
      have hop : op.isStart = false := by
        have hreturns := (h.returns_iff op).mp ⟨_, hst.2⟩
        simpa using hreturns
      obtain ⟨q, hq, hnext⟩ := h.step hop
      cases hq.symm.trans hst.2
      exact List.forall_mem_cons.mpr ⟨hop, ih hnext⟩

/-- Where the calls have brought the pool: it is not started yet, or it goes
round the loops that its `start` has made. -/
theorem handing {ops : List PoolOp} (hrun : threadPool.Run {} ops p) :
    (Handing [] [] false p (early ops) ∧ late ops = 0 ∧ ∀ op ∈ ops, op.isStart = false) ∨
    ∃ loops cb, .start loops cb ∈ ops ∧ (∀ loops' cb', .start loops' cb' ∈ ops → loops' = loops) ∧
      (baseLoop_ :: loops).Nodup ∧
      Handing loops (List.replicate (early ops) baseLoop_) true p (late ops) := by
  have hsplit := List.takeWhile_append_dropWhile (p := fun op : PoolOp => !op.isStart) (l := ops)
  have hpre : ∀ op ∈ ops.takeWhile fun op => !op.isStart, op.isStart = false := by
    intro op hop
    simpa using List.mem_takeWhile_imp hop
  rw [← hsplit] at hrun
  obtain ⟨q, hfront, hback⟩ := hrun.split
  have hq := handing_new.run hfront hpre
  rw [Nat.zero_add] at hq
  cases hdrop : ops.dropWhile fun op => !op.isStart with
  | nil =>
      rw [hdrop] at hback hsplit
      rw [List.append_nil] at hsplit
      cases hback
      refine .inl ⟨hq, ?_, hsplit ▸ hpre⟩
      rw [late, hdrop]
      rfl
  | cons op post =>
      have hop : op.isStart = true := by
        have hhead := List.head_dropWhile_not (fun op : PoolOp => !op.isStart)
          (l := ops) (by rw [hdrop]; simp)
        simpa [hdrop] using hhead
      obtain ⟨loops, cb, rfl⟩ : ∃ loops cb, op = .start loops cb := by
        cases op with
        | start loops cb => exact ⟨loops, cb, rfl⟩
        | setNumOfThreads numOfThreads => cases hop
        | getNextLoop => cases hop
      rw [hdrop] at hback hsplit
      cases hback with
      | cons hst hpost =>
          obtain ⟨q', hq', hgoing⟩ := hq.start loops cb
          cases hq'.symm.trans hst.2
          have hrest := hgoing.noStart hpost
          have hend := hgoing.run hpost hrest
          rw [Nat.zero_add] at hend
          refine .inr ⟨loops, cb, ?_, ?_, hst.1.2, ?_⟩
          · rw [← hsplit]
            simp
          · intro loops' cb' hmem
            rw [← hsplit] at hmem
            rcases List.mem_append.mp hmem with hmem | hmem
            · exact absurd (hpre _ hmem) (by simp [PoolOp.isStart])
            · rcases List.mem_cons.mp hmem with heq | hmem
              · cases heq
                rfl
              · exact absurd (hrest _ hmem) (by simp [PoolOp.isStart])
          · have hlate : late ops = post.countP PoolOp.isNext := by
              rw [late, hdrop, List.countP_cons]
              rfl
            rw [hlate]
            exact hend

end EventLoopThreadPool

/-- Under any calls, in any order: the base loop is handed out for each
`getNextLoop` ahead of `start`, and then the loops that `start` has made, in
turn. -/
theorem pool_fair {ops : List PoolOp} {p : EventLoopThreadPool} (hrun : threadPool.Run {} ops p) :
    p.handed = List.replicate (early ops) EventLoopThreadPool.baseLoop_ ++
      (List.range (late ops)).map (turn p.loops_) ∧
    (∀ loops cb, .start loops cb ∈ ops → p.loops_ = loops) ∧
    (∀ ℓ ∈ p.loops_, ∀ ℓ' ∈ p.loops_, p.handed.count ℓ ≤ p.handed.count ℓ' + 1) ∧
    ∀ op, threadPool.enabled p op →
      ((∃ p', threadPool.step p op = .ok p') ↔
        ¬ (op.isStart = true ∧ ∃ op' ∈ ops, op'.isStart = true)) := by
  rcases EventLoopThreadPool.handing hrun with ⟨h, hlate, hnone⟩ |
    ⟨loops, cb, hmem, huniq, hnodup, h⟩
  · have hring : p.loops_ = [] := h.ring
    have hstart : ¬ ∃ op' ∈ ops, op'.isStart = true := by
      rintro ⟨op', hop', hstart⟩
      rw [hnone op' hop'] at hstart
      cases hstart
    refine ⟨?_, fun loops cb hmem => ?_, ?_, fun op _ => (h.returns_iff op).trans ?_⟩
    · rw [h.handed, hlate, turns_nil]
      simp
    · exact absurd ⟨_, hmem, rfl⟩ hstart
    · simp [hring]
    · simp [hstart]
  · have hring : p.loops_ = loops := h.ring
    have hstart : ∃ op' ∈ ops, op'.isStart = true := ⟨_, hmem, rfl⟩
    refine ⟨hring ▸ h.handed, fun loops' cb' hmem' => ?_, ?_, fun op _ =>
      (h.returns_iff op).trans ?_⟩
    · rw [hring, huniq loops' cb' hmem']
    · rw [hring]
      exact fun ℓ hℓ ℓ' hℓ' => h.fair hnodup hℓ hℓ'
    · simp [hstart]

/-- One call before `start`, and three behind it. -/
theorem pool_fair_two : ∃ p, threadPool.Run {} [.getNextLoop, .setNumOfThreads 2,
      .start [1, 2] true, .getNextLoop, .getNextLoop, .getNextLoop] p ∧
    p.handed = [0, 1, 2, 1] ∧ p.handed.count 1 ≤ p.handed.count 2 + 1 := by
  obtain ⟨p, hrun, hhanded, hloops⟩ : ∃ p, threadPool.Run {} [.getNextLoop, .setNumOfThreads 2,
      .start [1, 2] true, .getNextLoop, .getNextLoop, .getNextLoop] p ∧
      p.handed = [0, 1, 2, 1] ∧ p.loops_ = [1, 2] :=
    ⟨_, .cons ⟨trivial, rfl⟩ (.cons ⟨trivial, rfl⟩ (.cons ⟨⟨rfl, by decide⟩, rfl⟩
      (.cons ⟨trivial, rfl⟩ (.cons ⟨trivial, rfl⟩ (.cons ⟨trivial, rfl⟩ (.nil _)))))), rfl, rfl⟩
  obtain ⟨-, -, hfair, -⟩ := pool_fair hrun
  exact ⟨p, hrun, hhanded, hfair 1 (by rw [hloops]; decide) 2 (by rw [hloops]; decide)⟩

/-! ## The connections of a server -/

namespace TcpServer

/-- The pool of a started server. -/
def pool (s : TcpServer) : EventLoopThreadPool where
  started_ := true
  numOfThreads_ := s.numOfThreads_
  nextLoopIdx_ := s.nextLoopIdx_
  loops_ := List.range' 1 s.numOfThreads_

/-- The reactor's `getNextLoop` is that of the pool. -/
theorem getNextLoop_pool (s : TcpServer) (hidx : s.nextLoopIdx_ = 0 ∨
    s.nextLoopIdx_ < s.numOfThreads_) :
    s.pool.getNextLoop = .ok (s.getNextLoop.1, s.getNextLoop.2.pool) := by
  unfold EventLoopThreadPool.getNextLoop getNextLoop
  by_cases hnone : s.numOfThreads_ = 0
  · rw [if_pos (by simp [pool, hnone]), if_pos hnone]
    rfl
  · have hlt : s.nextLoopIdx_ < s.numOfThreads_ := by omega
    have hget : s.pool.loops_[s.pool.nextLoopIdx_]? = some (s.nextLoopIdx_ + 1) := by
      simp [pool, hlt, Nat.add_comm]
    have hlength : s.pool.loops_.length = s.numOfThreads_ := by simp [pool]
    rw [if_neg (by simp [pool, hnone]), if_neg hnone, hget, hlength]
    rfl

theorem pool_congr {s s' : TcpServer} (hthreads : s'.numOfThreads_ = s.numOfThreads_)
    (hidx : s'.nextLoopIdx_ = s.nextLoopIdx_) : s'.pool = s.pool := by
  unfold pool
  rw [hthreads, hidx]

/-- The server takes its turns with those of its pool. -/
theorem getNextLoop_turn {s : TcpServer} {loops : List LoopId} {a : Nat}
    (h : s.pool.Going loops a) :
    s.getNextLoop.1 = turn loops a ∧ s.getNextLoop.2.pool.Going loops (a + 1) := by
  have hring : loops.length = s.numOfThreads_ := by
    rw [← h.ring]
    simp [pool]
  have hidx : s.nextLoopIdx_ = 0 ∨ s.nextLoopIdx_ < s.numOfThreads_ := by
    have hturn : s.nextLoopIdx_ = if loops = [] then 0 else a % loops.length := h.idx
    by_cases hnone : loops = []
    · exact .inl (by rw [hturn, if_pos hnone])
    · refine .inr ?_
      rw [hturn, if_neg hnone, ← hring]
      exact Nat.mod_lt a (List.length_pos_iff.mpr hnone)
  obtain ⟨idx, hnext, hgoing⟩ := h.getNextLoop
  rw [getNextLoop_pool s hidx] at hnext
  obtain ⟨hloop, hpool⟩ := Prod.mk.inj (Except.ok.inj hnext)
  exact ⟨hloop, hpool ▸ hgoing⟩

end TcpServer

/-- A new connection for the server. -/
def Label.isAccept : Label → Bool
  | .accept _ => true
  | _ => false

namespace World

variable {w w' : World} {l : Label} {c : ConnId} {ℓ : LoopId} {loops : List LoopId} {a : Nat}

/-- The server's loops, and whose turn it is after `a` accepts. -/
def Turns (loops : List LoopId) (w : World) (a : Nat) : Prop := w.server.pool.Going loops a

/-- The pool's part of the server changes in an accept only. -/
theorem prepare_pool (w : World) (hl : l.isAccept = false) :
    (w.prepare l).server.pool = w.server.pool := by
  cases l with
  | accept fd => cases hl
  | advance i => rw [show (w.prepare (.advance i)).server = w.server from advance_server w i]
  | release c => rw [release_server]
  | _ => rfl

theorem Turns.prepare (h : Turns loops w a) (l : Label) :
    Turns loops (w.prepare l) (if l.isAccept = true then a + 1 else a) := by
  cases haccept : l.isAccept with
  | true =>
      obtain ⟨fd, rfl⟩ : ∃ fd, l = .accept fd := by
        cases l with
        | accept fd => exact ⟨fd, rfl⟩
        | _ => cases haccept
      have hpool : (w.prepare (.accept fd)).server.pool = w.server.getNextLoop.2.pool :=
        TcpServer.pool_congr rfl rfl
      rw [if_pos rfl, Turns, hpool]
      exact (TcpServer.getNextLoop_turn h).2
  | false =>
      rw [if_neg (by simp), Turns, prepare_pool w haccept]
      exact h

theorem Turns.step (h : Turns loops w a) (hstep : reactor.Step w l w') :
    Turns loops w' (if l.isAccept = true then a + 1 else a) := by
  have hpre := h.prepare l
  rcases step_server hstep.2 with hsame | ⟨d, k, -, -, herased⟩
  · rw [Turns, TcpServer.pool_congr (by rw [hsame]) (by rw [hsame])]
    exact hpre
  · rw [Turns, TcpServer.pool_congr (by rw [herased]) (by rw [herased])]
    exact hpre

theorem Turns.run {ls : List Label} (h : Turns loops w a) (hrun : reactor.Run w ls w') :
    Turns loops w' (a + ls.countP Label.isAccept) := by
  induction hrun generalizing a with
  | nil => exact h
  | @cons _ _ _ l ls hst _ ih =>
      have hrest := ih (h.step hst)
      have hcount : a + (l :: ls).countP Label.isAccept =
          (if l.isAccept = true then a + 1 else a) + ls.countP Label.isAccept := by
        rw [List.countP_cons]
        split
        · omega
        · omega
      rw [hcount]
      exact hrest

/-- The connection at this address, if there is one, lives on loop `ℓ`; and it is
not an address still to be given out. -/
structure LivesOn (c : ConnId) (ℓ : LoopId) (w : World) : Prop where
  old : c < w.nextConn
  loop : ∀ k, w.conns c = some k → k.loop_ = ℓ

theorem LivesOn.step (h : LivesOn c ℓ w) (hstep : reactor.Step w l w') : LivesOn c ℓ w' := by
  have hpre : LivesOn c ℓ (w.prepare l) := by
    refine ⟨Nat.lt_of_lt_of_le h.old (prepare_nextConn w l), fun k hk => ?_⟩
    rcases prepare_conns hk with hk | ⟨rfl, -⟩
    · exact h.loop k hk
    · exact absurd h.old (Nat.lt_irrefl _)
  rcases step_cases hstep.2 with rfl | ⟨t, d, a, k, y, -, hact⟩
  · exact hpre
  · refine ⟨hact.nextConn ▸ hpre.old, fun k' hk' => ?_⟩
    rcases hact.cases hk' with ⟨rfl, rfl⟩ | ⟨-, hk'⟩
    · exact hact.ran.loop.trans (hpre.loop k hact.before)
    · exact hpre.loop k' hk'

/-- Where an accept puts its connection. -/
theorem accept_livesOn {fd : Fd} (hstep : reactor.Step w (.accept fd) w') :
    LivesOn w.nextConn w.server.getNextLoop.1 w' := by
  obtain ⟨k, y, hact⟩ := step_acted (w := w) (l := .accept fd) rfl hstep.2
  have hbefore : (w.prepare (.accept fd)).conns w.nextConn = some (w.newTcpConnection
      w.server.getNextLoop.1 w.server.nextName fd .server w.server.writeCompleteCallback_) :=
    Function.update_self _ _ _
  cases hbefore.symm.trans hact.before
  refine ⟨hact.nextConn ▸ Nat.lt_succ_self _, fun k hk => ?_⟩
  rw [hact.after] at hk
  cases hk
  exact hact.ran.loop

end World

open World

/-- The connection accepted behind others lives on the loop whose turn it is, for as
long as it exists. -/
theorem accept_loop {server : TcpServer} {client : TcpClient} {pre post : List Label}
    {w w' w'' : World} {fd : Fd} (hidx : server.nextLoopIdx_ = 0)
    (hpre : reactor.Run (World.init server client) pre w)
    (hstep : reactor.Step w (.accept fd) w') (hpost : reactor.Run w' post w'') :
    ∀ k, w''.conns w.nextConn = some k →
      k.loop_ = turn server.pool.loops_ (pre.countP Label.isAccept) := by
  have hinit : Turns server.pool.loops_ (World.init server client) 0 := by
    refine ⟨rfl, hidx.trans ?_⟩
    split
    · rfl
    · exact (Nat.zero_mod _).symm
  have hturns := hinit.run hpre
  rw [Nat.zero_add] at hturns
  have hlives : LivesOn w.nextConn (turn server.pool.loops_ (pre.countP Label.isAccept)) w'' := by
    refine hpost.invariant ?_ fun _ _ _ h hst => h.step hst
    rw [← (TcpServer.getNextLoop_turn hturns).1]
    exact accept_livesOn hstep
  exact hlives.loop

/-- The second connection of a server with two loops. -/
theorem accept_loop_second : ∃ w w' k,
    reactor.Run (World.init { numOfThreads_ := 2 } {}) [.poll 0 [], .accept 7] w ∧
    reactor.Step w (.accept 8) w' ∧ w'.conns w.nextConn = some k ∧ k.loop_ = 2 := by
  have hrun : ∃ w w' k,
      reactor.Run (World.init { numOfThreads_ := 2 } {}) [.poll 0 [], .accept 7] w ∧
      reactor.Step w (.accept 8) w' ∧ w'.conns w.nextConn = some k := by
    refine ⟨_, _, _, .cons ⟨?_, rfl⟩ (.cons ⟨?_, rfl⟩ (.nil _)), ⟨?_, rfl⟩, rfl⟩
    · exact ⟨rfl, not_busy rfl rfl, .nil, by simp⟩
    · exact ⟨rfl, ⟨_, rfl⟩, not_busy rfl rfl, fun _ _ h => by cases h⟩
    · refine ⟨rfl, ⟨_, rfl⟩, not_busy rfl rfl, fun c k hk => ?_⟩
      cases eq_zero_of_update hk
      cases hk
      decide
  obtain ⟨w, w', k, hrun, hstep, hk⟩ := hrun
  exact ⟨w, w', k, hrun, hstep, hk, accept_loop rfl hrun hstep (.nil w') k hk⟩

end Ham.Net
