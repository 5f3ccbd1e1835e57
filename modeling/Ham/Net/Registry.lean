import Ham.Net.Teardown

/-!
# The connections of a `TcpServer`

`connections_` is keyed by names, and a name ends in `nextConnId_`, a 32-bit
`int` that comes round. As long as no connection is accepted while another one
exists that was accepted a multiple of `2 ^ 32` accepts before, names tell
connections apart (`Registry`), and what an accept or `removeConnectionInLoop`
does to `connections_` it does to its own entry (`registry_kept`). The `2 ^ 32`-th
accept behind a connection that is still there takes its name, and its place.
-/

namespace Ham.Net

open Ham.Lib

/-! ## Names -/

/-- Whatever is printed for a negative number is not printed for another one. -/
theorem decimalInt_injective : Function.Injective decimalInt := by
  have hsign : ∀ m n : Nat, decimal m ≠ ascii ['-'] ++ decimal n := by
    intro m n h
    have hmem : (45 : Byte) ∈ decimal m := by
      rw [h]
      exact List.mem_append_left _ List.mem_cons_self
    exact absurd (mem_decimal hmem).1 (by decide)
  intro m n h
  unfold decimalInt at h
  split_ifs at h with hm hn hn
  · have habs := decimal_injective (List.append_cancel_left h)
    omega
  · exact absurd h.symm (hsign _ _)
  · exact absurd h (hsign _ _)
  · have habs := decimal_injective h
    omega

/-- `nextConnId_` when `c` connections have been accepted. -/
def connIdOf (c : ConnId) : Int := (1 + c : Int).bmod (2 ^ 32)

theorem connIdOf_zero : connIdOf 0 = 1 := by decide

theorem nextInt_connIdOf (c : ConnId) : nextInt (connIdOf c) = connIdOf (c + 1) := by
  unfold nextInt connIdOf
  rw [Int.bmod_add_bmod, Nat.cast_add, Nat.cast_one, Int.add_assoc]

/-- Two connections get the same number if they are so many accepts apart. -/
theorem connIdOf_eq_iff {c d : ConnId} (h : c ≤ d) :
    connIdOf c = connIdOf d ↔ 2 ^ 32 ∣ d - c := by
  unfold connIdOf
  rw [eq_comm, Int.bmod_eq_bmod_iff_bmod_sub_eq_zero, ← Int.dvd_iff_bmod_eq_zero]
  have hsub : (1 + d : Int) - (1 + c) = ((d - c : Nat) : Int) := by
    rw [Nat.cast_sub h]
    ring
  rw [hsub]
  exact Int.natCast_dvd_natCast

/-- The name of the connection behind `c` others. -/
def nameOf (hostPost : Bytes) (c : ConnId) : Bytes :=
  hostPost ++ ascii ['#'] ++ decimalInt (connIdOf c)

theorem nameOf_inj {hostPost : Bytes} {c d : ConnId} (h : nameOf hostPost c = nameOf hostPost d) :
    connIdOf c = connIdOf d :=
  decimalInt_injective (List.append_cancel_left h)

/-! ## What a step does to the server -/

/-- The effect is a call of `TcpServer::removeConnectionInLoop`, by itself or
through `runInLoop`. -/
def Effect.Removes (t : Thread) (k : TcpConnection) : Effect → Prop
  | .removeConnectionInLoop => True
  | .closeCallback => k.closeCallback_ = .server ∧ t = some 0
  | .queueInLoop _ | .storeThenQueue _ _ => False

namespace World

variable {w w' : World} {t : Thread} {c : ConnId} {a : Action} {k : TcpConnection} {y : ConnRun}
  {l : Label}

theorem queueInLoop_server (w : World) (t : Thread) (ℓ : LoopId) (f : Functor) :
    (w.queueInLoop t ℓ f).server = w.server := by
  unfold queueInLoop
  split <;> rfl

theorem removeConnectionInLoop_server (h : w.removeConnectionInLoop t k = .ok w') :
    w'.server = (w.eraseConnection k.name_).server := by
  unfold removeConnectionInLoop at h
  split_ifs at h
  cases h
  rw [queueInLoop_server]

theorem effect_server {e : Effect} (h : w.effect t k e = .ok w') :
    w'.server = w.server ∨
    e.Removes t k ∧ w'.server = (w.eraseConnection k.name_).server := by
  cases e with
  | queueInLoop f =>
      cases h
      exact .inl (queueInLoop_server w t k.loop_ f)
  | storeThenQueue state f =>
      cases h
      exact .inl rfl
  | removeConnectionInLoop => exact .inr ⟨trivial, removeConnectionInLoop_server h⟩
  | closeCallback =>
      have h : w.closeCallback t k = .ok w' := h
      unfold closeCallback at h
      split at h
      · rename_i hcb
        split_ifs at h with halive ht
        · exact .inr ⟨⟨hcb, ht⟩, removeConnectionInLoop_server h⟩
        · cases h
          exact .inl (queueInLoop_server w t 0 _)
      · split_ifs at h
        cases h
        exact .inl (queueInLoop_server _ t k.loop_ _)
      · cases h
        exact .inl (queueInLoop_server w t k.loop_ _)

theorem eraseConnection_twice (w : World) (name : Bytes) :
    ((w.eraseConnection name).eraseConnection name).server = (w.eraseConnection name).server := by
  have hmap : (w.server.connections_.erase name).erase name =
      w.server.connections_.erase name := by
    apply Std.ExtTreeMap.ext_getElem?
    intro other
    rw [Std.ExtTreeMap.getElem?_erase, Std.ExtTreeMap.getElem?_erase]
    split_ifs <;> rfl
  simp only [eraseConnection, hmap]

theorem eraseConnection_congr {v : World} (h : v.server = w.server) (name : Bytes) :
    (v.eraseConnection name).server = (w.eraseConnection name).server := by
  simp only [eraseConnection, h]

/-- A list of effects leaves the server as it is, or erases the name of its
connection. -/
theorem effects_server {es : List Effect} (h : es.foldlM (effect t k) w = .ok w') :
    w'.server = w.server ∨
    (∃ e ∈ es, e.Removes t k) ∧ w'.server = (w.eraseConnection k.name_).server := by
  induction es generalizing w with
  | nil =>
      cases h
      exact .inl rfl
  | cons e es ih =>
      simp only [List.foldlM_cons, bind_eq_ok] at h
      obtain ⟨v, hv, h⟩ := h
      rcases effect_server hv with hsame | ⟨hremoves, herased⟩
      · rcases ih h with hsame' | ⟨⟨e', he', hremoves'⟩, herased'⟩
        · exact .inl (hsame'.trans hsame)
        · refine .inr ⟨⟨e', List.mem_cons_of_mem e he', hremoves'⟩, ?_⟩
          exact herased'.trans (eraseConnection_congr hsame k.name_)
      · refine .inr ⟨⟨e, List.mem_cons_self, hremoves⟩, ?_⟩
        rcases ih h with hsame' | ⟨-, herased'⟩
        · exact hsame'.trans herased
        · rw [herased', eraseConnection_congr herased, eraseConnection_twice]

/-- The step runs `removeConnectionInLoop` for the connection. -/
def Removes (w : World) (l : Label) (c : ConnId) : Prop :=
  ∃ t a k y, w.action l = some (t, c, a) ∧ (w.prepare l).conns c = some k ∧
    a.run ⟨t, ((w.prepare l).loops k.loop_).epoller_, k, []⟩ = .ok y ∧
    ∃ e ∈ y.effects, e.Removes t y.conn

/-- Behind the bookkeeping of a step the server is as it is, or an entry is
erased by its connection. -/
theorem step_server (h : w.step l = .ok w') :
    w'.server = (w.prepare l).server ∨
    ∃ c k, w.Removes l c ∧ (w.prepare l).conns c = some k ∧
      w'.server = ((w.prepare l).eraseConnection k.name_).server := by
  unfold step at h
  cases haction : w.action l with
  | none =>
      rw [haction] at h
      cases h
      exact .inl rfl
  | some act =>
      obtain ⟨t, c, a⟩ := act
      rw [haction] at h
      have h : (w.prepare l).onConn t c a = .ok w' := h
      unfold onConn at h
      cases hk : (w.prepare l).conns c with
      | none =>
          rw [hk] at h
          cases h
      | some k =>
          rw [hk] at h
          simp only [bind_eq_ok] at h
          obtain ⟨y, hrun, h⟩ := h
          have hname : y.conn.name_ = k.name_ := (Action.run_spec hrun).name
          rcases effects_server h with hsame | ⟨hremoves, herased⟩
          · exact .inl hsame
          · refine .inr ⟨c, k, ⟨t, a, k, y, haction, hk, hrun, hremoves⟩, hk, ?_⟩
            rw [herased, hname]
            rfl

/-! ## The invariant -/

/-- The step accepts a connection while another one exists that was accepted a
multiple of `2 ^ 32` accepts before. -/
def Collides (w : World) : Label → Prop
  | .accept _ => ∃ c k, w.conns c = some k ∧ 2 ^ 32 ∣ w.nextConn - c
  | _ => False

structure Registry (hostPost : Bytes) (w : World) : Prop where
  host : w.server.hostPost_ = hostPost
  next : w.server.nextConnId_ = connIdOf w.nextConn
  named : ∀ c k, w.conns c = some k → k.name_ = nameOf hostPost c
  apart : ∀ c d k k', w.conns c = some k → w.conns d = some k' → k.name_ = k'.name_ → c = d
  stored : ∀ (name : Bytes) c, w.server.connections_[name]? = some c →
    ∃ k, w.conns c = some k ∧ k.name_ = name

variable {hostPost : Bytes}

theorem registry_init {server : TcpServer} (client : TcpClient) (hid : server.nextConnId_ = 1) :
    Registry server.hostPost_ (World.init server client) where
  host := rfl
  next := by
    show server.nextConnId_ = connIdOf 0
    rw [hid, connIdOf_zero]
  named := fun _ _ h => by cases h
  apart := fun _ _ _ _ h => by cases h
  stored := fun _ _ h => by simp [World.init] at h

/-- The name of the next connection. -/
theorem Registry.nextName (h : Registry hostPost w) :
    w.server.nextName = nameOf hostPost w.nextConn := by
  rw [TcpServer.nextName, h.host, h.next, nameOf]

/-- It is nobody's name. -/
theorem Registry.new_name (h : Registry hostPost w) (hsound : Sound w) {fd : Fd}
    (hcollides : ¬ Collides w (.accept fd)) (hk : w.conns c = some k) :
    k.name_ ≠ w.server.nextName := by
  intro heq
  rw [h.named c k hk, h.nextName] at heq
  have hlt := hsound.fresh c k hk
  exact hcollides ⟨c, k, hk, (connIdOf_eq_iff hlt.le).mp (nameOf_inj heq)⟩

/-- Steps that leave the connections and the server's registry alone. -/
theorem Registry.of_same (h : Registry hostPost w) (hconns : w'.conns = w.conns)
    (hnext : w'.nextConn = w.nextConn) (hhost : w'.server.hostPost_ = w.server.hostPost_)
    (hid : w'.server.nextConnId_ = w.server.nextConnId_)
    (hmap : ∀ (name : Bytes) c, w'.server.connections_[name]? = some c →
      w.server.connections_[name]? = some c) : Registry hostPost w' where
  host := hhost.trans h.host
  next := by rw [hid, hnext, h.next]
  named := by rw [hconns]; exact h.named
  apart := by rw [hconns]; exact h.apart
  stored := by
    intro name c hc
    rw [hconns]
    exact h.stored name c (hmap name c hc)

/-- The server's part in `newConnectionCallback`. -/
theorem newConnectionCallback_server (w : World) (fd : Fd) :
    (w.newConnectionCallback fd).server.hostPost_ = w.server.hostPost_ ∧
    (w.newConnectionCallback fd).server.nextConnId_ = nextInt w.server.nextConnId_ ∧
    (w.newConnectionCallback fd).server.connections_ =
      w.server.connections_.insert w.server.nextName w.nextConn ∧
    (w.newConnectionCallback fd).server.alive = w.server.alive := by
  refine ⟨?_, rfl, rfl, ?_⟩
  · show w.server.getNextLoop.2.hostPost_ = _
    unfold TcpServer.getNextLoop
    split <;> rfl
  · show w.server.getNextLoop.2.alive = _
    unfold TcpServer.getNextLoop
    split <;> rfl

theorem Registry.accept (h : Registry hostPost w) (hsound : Sound w) {fd : Fd}
    (hcollides : ¬ Collides w (.accept fd)) : Registry hostPost (w.newConnectionCallback fd) := by
  obtain ⟨hhost, hid, hmap, -⟩ := newConnectionCallback_server w fd
  have hcases : ∀ d k', (w.newConnectionCallback fd).conns d = some k' →
      (d = w.nextConn ∧ k'.name_ = w.server.nextName) ∨ (d ≠ w.nextConn ∧ w.conns d = some k') := by
    intro d k' hd
    by_cases hdn : d = w.nextConn
    · subst hdn
      have hself : (w.newConnectionCallback fd).conns w.nextConn = some (w.newTcpConnection
        w.server.getNextLoop.1 w.server.nextName fd .server w.server.writeCompleteCallback_) :=
        Function.update_self _ _ _
      rw [hself] at hd
      cases hd
      exact .inl ⟨rfl, rfl⟩
    · have hother : (w.newConnectionCallback fd).conns d = w.conns d :=
        Function.update_of_ne hdn _ _
      exact .inr ⟨hdn, hother ▸ hd⟩
  refine ⟨hhost.trans h.host, ?_, ?_, ?_, ?_⟩
  · rw [hid, h.next, nextInt_connIdOf]
    rfl
  · intro d k' hd
    rcases hcases d k' hd with ⟨rfl, hname⟩ | ⟨-, hd⟩
    · rw [hname, h.nextName]
    · exact h.named d k' hd
  · intro d e k₁ k₂ hd he hname
    rcases hcases d k₁ hd with ⟨rfl, hname₁⟩ | ⟨-, hd⟩
    · rcases hcases e k₂ he with ⟨rfl, -⟩ | ⟨-, he⟩
      · rfl
      · exact absurd (hname.symm.trans hname₁) (h.new_name hsound hcollides he)
    · rcases hcases e k₂ he with ⟨rfl, hname₂⟩ | ⟨-, he⟩
      · exact absurd (hname.trans hname₂) (h.new_name hsound hcollides hd)
      · exact h.apart d e k₁ k₂ hd he hname
  · intro name d hd
    rw [hmap, Std.ExtTreeMap.getElem?_insert] at hd
    split_ifs at hd with hname
    · rw [Std.LawfulEqCmp.compare_eq_iff_eq] at hname
      cases hd
      exact ⟨_, Function.update_self _ _ _, hname⟩
    · obtain ⟨k', hk', hname'⟩ := h.stored name d hd
      have hdn : d ≠ w.nextConn := by
        rintro rfl
        rw [hsound.next] at hk'
        cases hk'
      exact ⟨k', (Function.update_of_ne hdn _ _).trans hk', hname'⟩

theorem Registry.release (h : Registry hostPost w) (hen : w.Enabled (.release c)) :
    Registry hostPost (w.prepare (.release c)) := by
  cases hk : w.conns c with
  | none =>
      simp only [World.prepare, hk]
      exact h
  | some k =>
      have hconns : (w.prepare (.release c)).conns = Function.update w.conns c none := by
        simp only [World.prepare, hk]
        rfl
      have hserver := release_server w c
      have hnext : (w.prepare (.release c)).nextConn = w.nextConn := by
        simp only [World.prepare, hk]
        rfl
      have hold : ∀ d k', (w.prepare (.release c)).conns d = some k' → w.conns d = some k' := by
        intro d k' hd
        rw [hconns] at hd
        by_cases hdc : d = c
        · subst hdc
          simp at hd
        · rwa [Function.update_of_ne hdc] at hd
      refine ⟨hserver ▸ h.host, ?_, fun d k' hd => h.named d k' (hold d k' hd),
        fun d e k₁ k₂ hd he => h.apart d e k₁ k₂ (hold d k₁ hd) (hold e k₂ he), ?_⟩
      · rw [hserver, hnext]
        exact h.next
      · intro name d hd
        rw [hserver] at hd
        obtain ⟨k', hk', hname⟩ := h.stored name d hd
        have hdc : d ≠ c := by
          rintro rfl
          exact hen (.inl ⟨name, hd⟩)
        exact ⟨k', by rw [hconns, Function.update_of_ne hdc, hk'], hname⟩

theorem Registry.prepare (h : Registry hostPost w) (hsound : Sound w) (hen : w.Enabled l)
    (hserver : ServerOnly l) (hcollides : ¬ Collides w l) : Registry hostPost (w.prepare l) := by
  cases l with
  | accept fd => exact h.accept hsound hcollides
  | release c => exact h.release hen
  | newConnection fd peer => cases hserver
  | advance i =>
      refine h.of_same ?_ ?_ ?_ ?_ ?_
      · simp only [World.prepare, World.advance]
        split <;> rfl
      · simp only [World.prepare, World.advance]
        split <;> rfl
      · exact congrArg TcpServer.hostPost_ (advance_server w i)
      · exact congrArg TcpServer.nextConnId_ (advance_server w i)
      · intro name c hc
        rwa [show (w.prepare (.advance i)).server = w.server from advance_server w i] at hc
  | destroyServerEnd =>
      refine h.of_same rfl rfl rfl rfl fun name c hc => ?_
      simp [World.prepare] at hc
  | _ => exact h.of_same rfl rfl rfl rfl fun _ _ hc => hc

/-! ## Steps -/

/-- A connection behind an action had its name before, -/
theorem Acted.name_before (h : Acted w t c a w' k y) {d : ConnId} {k' : TcpConnection}
    (hd : w'.conns d = some k') : ∃ k₀, w.conns d = some k₀ ∧ k'.name_ = k₀.name_ := by
  rcases h.cases hd with ⟨rfl, rfl⟩ | ⟨-, hd⟩
  · exact ⟨k, h.before, h.ran.name⟩
  · exact ⟨k', hd, rfl⟩

/-- and keeps it. -/
theorem Acted.name_after (h : Acted w t c a w' k y) {d : ConnId} {k₀ : TcpConnection}
    (hd : w.conns d = some k₀) : ∃ k', w'.conns d = some k' ∧ k'.name_ = k₀.name_ := by
  by_cases hdc : d = c
  · subst hdc
    rw [h.before] at hd
    cases hd
    exact ⟨y.conn, h.after, h.ran.name⟩
  · refine ⟨k₀, ?_, rfl⟩
    rw [h.conns, Function.update_of_ne hdc, hd]

theorem Registry.acted (h : Registry hostPost w) (hact : Acted w t c a w' k y)
    (hhost : w'.server.hostPost_ = w.server.hostPost_)
    (hid : w'.server.nextConnId_ = w.server.nextConnId_) : Registry hostPost w' where
  host := hhost.trans h.host
  next := by rw [hid, hact.nextConn, h.next]
  named := by
    intro d k' hd
    obtain ⟨k₀, hk₀, hname⟩ := hact.name_before hd
    rw [hname, h.named d k₀ hk₀]
  apart := by
    intro d e k₁ k₂ hd he hname
    obtain ⟨k₃, hk₃, hname₁⟩ := hact.name_before hd
    obtain ⟨k₄, hk₄, hname₂⟩ := hact.name_before he
    exact h.apart d e k₃ k₄ hk₃ hk₄ (hname₁.symm.trans (hname.trans hname₂))
  stored := by
    intro name d hd
    obtain ⟨k₀, hk₀, hname⟩ := h.stored name d (hact.connections name d hd)
    obtain ⟨k', hk', hname'⟩ := hact.name_after hk₀
    exact ⟨k', hk', hname'.trans hname⟩

theorem Registry.step (h : Registry hostPost w) (hsound : Sound w) (hstep : reactor.Step w l w')
    (hserver : ServerOnly l) (hcollides : ¬ Collides w l) : Registry hostPost w' := by
  obtain ⟨hen, hstep⟩ := hstep
  have hpre := h.prepare hsound hen hserver hcollides
  rcases step_cases hstep with rfl | ⟨t, c, a, k, y, -, hact⟩
  · exact hpre
  · rcases step_server hstep with hsame | ⟨d, k', -, -, herased⟩
    · exact hpre.acted hact (by rw [hsame]) (by rw [hsame])
    · exact hpre.acted hact (by rw [herased]; rfl) (by rw [herased]; rfl)

/-- A dead server stays dead. -/
theorem step_alive (hstep : w.step l = .ok w') (halive : w'.server.alive = true) :
    w.server.alive = true ∧ l ≠ .destroyServerEnd := by
  have hpre : (w.prepare l).server.alive = true := by
    rcases step_server hstep with hsame | ⟨d, k, -, -, herased⟩
    · rwa [hsame] at halive
    · rwa [herased] at halive
  cases l with
  | accept fd => exact ⟨(newConnectionCallback_server w fd).2.2.2.symm.trans hpre, by simp⟩
  | advance i =>
      rw [show (w.prepare (.advance i)).server = w.server from advance_server w i] at hpre
      exact ⟨hpre, by simp⟩
  | release c =>
      rw [release_server] at hpre
      exact ⟨hpre, by simp⟩
  | destroyServerEnd => cases hpre
  | _ => exact ⟨hpre, by simp⟩

/-- The bookkeeping of a step takes no entry away. -/
theorem Registry.prepare_entry (h : Registry hostPost w) (hsound : Sound w)
    (hcollides : ¬ Collides w l) (hl : l ≠ .destroyServerEnd) {name : Bytes} {d : ConnId}
    (hd : w.server.connections_[name]? = some d) :
    (w.prepare l).server.connections_[name]? = some d := by
  cases l with
  | accept fd =>
      obtain ⟨k, hk, hname⟩ := h.stored name d hd
      have hne : w.server.nextName ≠ name :=
        fun heq => h.new_name hsound hcollides hk (hname.trans heq.symm)
      show (w.newConnectionCallback fd).server.connections_[name]? = some d
      rw [(newConnectionCallback_server w fd).2.2.1, Std.ExtTreeMap.getElem?_insert, if_neg, hd]
      rwa [Std.LawfulEqCmp.compare_eq_iff_eq]
  | advance i =>
      rw [show (w.prepare (.advance i)).server = w.server from advance_server w i]
      exact hd
  | release c =>
      rw [release_server]
      exact hd
  | destroyServerEnd => exact absurd rfl hl
  | _ => exact hd

/-- A step takes an entry away only in `removeConnectionInLoop` for its
connection. -/
theorem Registry.keeps (h : Registry hostPost w) (hsound : Sound w) (hstep : reactor.Step w l w')
    (hserver : ServerOnly l) (hcollides : ¬ Collides w l) (halive : w'.server.alive = true)
    {name : Bytes} {d : ConnId} (hd : w.server.connections_[name]? = some d) :
    w'.server.connections_[name]? = some d ∨ w.Removes l d := by
  obtain ⟨hen, hstep⟩ := hstep
  have hl := (step_alive hstep halive).2
  have hpre := h.prepare hsound hen hserver hcollides
  have hentry := h.prepare_entry hsound hcollides hl hd
  rcases step_server hstep with hsame | ⟨c, k, hremoves, hk, herased⟩
  · exact .inl (by rw [hsame, hentry])
  · by_cases hname : k.name_ = name
    · -- names tell connections apart
      obtain ⟨k', hk', hname'⟩ := hpre.stored name d hentry
      have heq := hpre.apart c d k k' hk hk' (hname.trans hname'.symm)
      exact .inr (heq ▸ hremoves)
    · refine .inl ?_
      rw [herased]
      show ((w.prepare l).server.connections_.erase k.name_)[name]? = some d
      rw [Std.ExtTreeMap.getElem?_erase, if_neg, hentry]
      rwa [Std.LawfulEqCmp.compare_eq_iff_eq]

/-- An accept removes nothing. -/
theorem not_removes_accept {fd : Fd} : ¬ w.Removes (.accept fd) c := by
  rintro ⟨t, a, k, y, haction, -, hrun, e, he, hremoves⟩
  cases haction
  simp only [Action.run] at hrun
  split at hrun
  · rw [(ConnRun.establishConnection_ok hrun).2.2.1] at he
    cases he
  · cases hrun
    cases List.mem_singleton.mp he
    exact hremoves

theorem accept_entry {fd : Fd} (hstep : w.step (.accept fd) = .ok w') :
    w'.server.connections_[w.server.nextName]? = some w.nextConn := by
  rcases step_server hstep with hsame | ⟨c, k, hremoves, -⟩
  · rw [hsame]
    show (w.newConnectionCallback fd).server.connections_[_]? = _
    rw [(newConnectionCallback_server w fd).2.2.1, Std.ExtTreeMap.getElem?_insert_self]
  · exact absurd hremoves not_removes_accept

/-- The connection is in `connections_`, under its own name. -/
def Stored (w : World) (c : ConnId) : Prop :=
  ∃ k, w.conns c = some k ∧ w.server.connections_[k.name_]? = some c

theorem Registry.of_entry (h : Registry hostPost w) {name : Bytes}
    (hc : w.server.connections_[name]? = some c) : Stored w c := by
  obtain ⟨k, hk, rfl⟩ := h.stored name c hc
  exact ⟨k, hk, hc⟩

end World

open World

/-- What `connections_` is for, over a run from its beginning. -/
structure KeepsRegistry (start : World) (ls : List Label) (w : World) : Prop where
  /-- What is stored is stored under its own name, -/
  own : ∀ (name : Bytes) c, w.server.connections_[name]? = some c →
    ∃ k, w.conns c = some k ∧ k.name_ = name
  /-- an accepted connection is stored until its `removeConnectionInLoop` runs, -/
  kept : ∀ pre fd post v, ls = pre ++ .accept fd :: post → reactor.Run start pre v →
    w.server.alive = true → Stored w v.nextConn ∨
      ∃ mid l rest u, post = mid ++ l :: rest ∧
        reactor.Run start (pre ++ .accept fd :: mid) u ∧ u.Removes l v.nextConn
  /-- and no step takes another connection's entry away. -/
  alone : ∀ pre l post v v', ls = pre ++ l :: post → reactor.Run start pre v →
    reactor.Step v l v' → v'.server.alive = true →
    ∀ (name : Bytes) c, v.server.connections_[name]? = some c →
      v'.server.connections_[name]? = some c ∨ v.Removes l c

/-- A server on its own, none of whose accepts collides. -/
def spaced : System World Label Fault :=
  reactor.restrict fun w l => ServerOnly l ∧ ¬ Collides w l

theorem spaced_registry {hostPost : Bytes} {w w' : World} {ls : List Label}
    (hrun : spaced.Run w ls w') (h : Sound w ∧ Registry hostPost w) :
    Sound w' ∧ Registry hostPost w' := by
  apply hrun.invariant h
  rintro v l v' ⟨hsound, hregistry⟩ hstep
  obtain ⟨hstep, hserver, hcollides⟩ := System.restrict_step.mp hstep
  exact ⟨hsound.step hstep, hregistry.step hsound hstep hserver hcollides⟩

/-- An entry stays over a run that does not remove it. -/
theorem spaced_entry {hostPost : Bytes} {w w' : World} {ls : List Label} {name : Bytes}
    {c : ConnId} (hrun : (spaced.restrict fun v l => ¬ v.Removes l c).Run w ls w')
    (h : Sound w ∧ Registry hostPost w) (hc : w.server.connections_[name]? = some c)
    (halive : w'.server.alive = true) : w'.server.connections_[name]? = some c := by
  have hkeep := hrun.invariant (I := fun v => (Sound v ∧ Registry hostPost v) ∧
    (v.server.alive = true → v.server.connections_[name]? = some c)) ⟨h, fun _ => hc⟩ ?_
  · exact hkeep.2 halive
  · rintro v l v' ⟨⟨hsound, hregistry⟩, hentry⟩ hstep
    obtain ⟨hstep, hremoves⟩ := System.restrict_step.mp hstep
    obtain ⟨hstep, hserver, hcollides⟩ := System.restrict_step.mp hstep
    refine ⟨⟨hsound.step hstep, hregistry.step hsound hstep hserver hcollides⟩, fun halive => ?_⟩
    have hbefore := hentry (step_alive hstep.2 halive).1
    exact (hregistry.keeps hsound hstep hserver hcollides halive hbefore).resolve_right hremoves

/-- Over every run of a server in which no connection is accepted while one
exists that was accepted a multiple of `2 ^ 32` accepts before. -/
theorem registry_kept {server : TcpServer} {client : TcpClient} {ls : List Label} {w : World}
    (hid : server.nextConnId_ = 1) (hrun : spaced.Run (World.init server client) ls w) :
    KeepsRegistry (World.init server client) ls w := by
  have hinit := And.intro (sound_init server client) (registry_init client hid)
  -- where a prefix of the run ends
  have hprefix : ∀ pre l post v, ls = pre ++ l :: post →
      reactor.Run (World.init server client) pre v →
      (Sound v ∧ Registry server.hostPost_ v) ∧
      ∃ v', spaced.Step v l v' ∧ spaced.Run v' post w := by
    intro pre l post v hls hv
    rw [hls] at hrun
    obtain ⟨u, hpre, hpost⟩ := hrun.split
    cases hv.unique hpre.of_restrict
    cases hpost with
    | cons hstep hrest => exact ⟨spaced_registry hpre hinit, _, hstep, hrest⟩
  refine ⟨(spaced_registry hrun hinit).2.stored, ?_, ?_⟩
  · intro pre fd post v hls hv halive
    obtain ⟨hinv, v', hstep, hrest⟩ := hprefix pre _ post v hls hv
    obtain ⟨hreal, -⟩ := System.restrict_step.mp hstep
    have hinv' := spaced_registry (.cons hstep (.nil v')) hinv
    rcases hrest.restrict_or_first fun u l => ¬ u.Removes l v.nextConn with
      hall | ⟨mid, l, rest, u, u', rfl, hmid, -, hremoves, -⟩
    · have hentry := spaced_entry hall hinv' (accept_entry hreal.2) halive
      exact .inl ((spaced_registry hrun hinit).2.of_entry hentry)
    · refine .inr ⟨mid, l, rest, u, rfl, ?_, not_not.mp hremoves⟩
      exact hv.append (.cons hreal hmid.of_restrict.of_restrict)
  · intro pre l post v v' hls hv hstep halive name c hc
    obtain ⟨⟨hsound, hregistry⟩, u, hstep', -⟩ := hprefix pre l post v hls hv
    obtain ⟨-, hserver, hcollides⟩ := System.restrict_step.mp hstep'
    exact hregistry.keeps hsound hstep hserver hcollides halive hc

/-- Where only the first connection has been written. -/
theorem eq_zero_of_update {k : TcpConnection} {c : ConnId} {first second : Option TcpConnection}
    (h : Function.update (Function.update (fun _ => none) 0 first) 0 second c = some k) :
    c = 0 := by
  by_contra hc
  rw [Function.update_of_ne hc, Function.update_of_ne hc] at h
  cases h

/-- Two connections, one behind the other. -/
theorem registry_kept_two : ∃ ls w, spaced.Run (World.init {} {}) ls w ∧ w.nextConn = 2 ∧
    w.server.alive = true ∧ KeepsRegistry (World.init {} {}) ls w := by
  have hrun : ∃ w, spaced.Run (World.init {} {}) [.poll 0 [], .accept 7, .accept 8] w ∧
      w.nextConn = 2 ∧ w.server.alive = true := by
    refine ⟨_, .cons ⟨⟨?_, trivial, id⟩, rfl⟩ (.cons ⟨⟨?_, trivial, ?_⟩, rfl⟩
      (.cons ⟨⟨?_, trivial, ?_⟩, rfl⟩ (.nil _))), rfl, rfl⟩
    · exact ⟨rfl, not_busy rfl rfl, .nil, by simp⟩
    · exact ⟨rfl, ⟨_, rfl⟩, not_busy rfl rfl, fun _ _ h => by cases h⟩
    · rintro ⟨c, k, hk, -⟩
      cases hk
    · refine ⟨rfl, ⟨_, rfl⟩, not_busy rfl rfl, fun c k hk => ?_⟩
      obtain rfl := eq_zero_of_update hk
      cases hk
      decide
    · rintro ⟨c, k, hk, hdvd⟩
      obtain rfl := eq_zero_of_update hk
      exact absurd hdvd (by decide)
  obtain ⟨w, hrun, hnext, halive⟩ := hrun
  exact ⟨_, w, hrun, hnext, halive, registry_kept rfl hrun⟩

/-! ## The counter comes round -/

/-- A server on its own. -/
def serverAlone : System World Label Fault := reactor.restrict fun _ l => ServerOnly l

/-- A connection of the base loop, at a stage of its life. -/
def guest (c : ConnId) (id : Int) (fd : Fd) (state : State) (event : Events)
    (status : Channel.Status) (log : ConnLog) : TcpConnection where
  self := c
  loop_ := 0
  name_ := ascii ['#'] ++ decimalInt id
  state_ := state
  channel_ := { self := c, fd_ := fd, event_ := event, status_ := status }
  closeCallback_ := .server
  log := log

def readEvents : Events := { epollin := true, epollpri := true }

/-- Behind `establishConnection`. -/
def guest.up (c : ConnId) (id : Int) (fd : Fd) : TcpConnection :=
  guest c id fd .kConnected readEvents .kAdded { connectionCalls := [true] }

/-- The epoller of the base loop, with the first connection on descriptor 7 and
these entries for descriptor 8. -/
def watching (channel : Option ConnId) (kernel : Option (Events × ConnId)) : Epoller where
  channelMap_ := Function.update (Function.update (fun _ => none) 7 (some 0)) 8 channel
  kernel := Function.update (Function.update (fun _ => none) 7 (some (readEvents, 0))) 8 kernel

/-- `enableReading` for a new channel. -/
def Epoller.added (p : Epoller) (fd : Fd) (c : ConnId) : Epoller where
  channelMap_ := Function.update p.channelMap_ fd (some c)
  kernel := Function.update p.kernel fd (some (readEvents, c))

theorem watching_added (c : ConnId) :
    (watching none none).added 8 c = watching (some c) (some (readEvents, c)) := by
  simp only [Epoller.added, watching, Function.update_idem]

theorem watching_first : Epoller.added {} 7 0 = watching none none := by
  simp [Epoller.added, watching]

/-- The first connection is there, and perhaps another one. -/
def visited (c : ConnId) (k : Option TcpConnection) (next : ConnId) (id : Int)
    (connections : Std.ExtTreeMap Bytes ConnId compare) (loop : EventLoop) : World where
  conns := Function.update (Function.update (fun _ => none) 0 (some (guest.up 0 1 7))) c k
  nextConn := next
  loops := Function.update (fun _ => {}) 0 loop
  server := { nextConnId_ := id, connections_ := connections }

section

variable {c next : ConnId} {id id' : Int} {k : Option TcpConnection}
  {m m' : Std.ExtTreeMap Bytes ConnId compare} {loop : EventLoop} {a : Action} {log : ConnLog}
  {p : Epoller} {fs : List Functor}

@[simp] theorem visited_conn : (visited c k next id m loop).conns c = k :=
  Function.update_self _ _ _

@[simp] theorem visited_loop : (visited c k next id m loop).loops 0 = loop := by
  simp [visited]

@[simp] theorem visited_onLoop (f : EventLoop → EventLoop) :
    (visited c k next id m loop).onLoop 0 f = visited c k next id m (f loop) := by
  simp only [onLoop, visited, Function.update_idem, Function.update_self]

theorem visited_not_busy : ¬ (visited c k next id m loop).Busy 0 := not_busy rfl rfl

/-- Code that runs on the other connection. -/
theorem visited_onConn {k : TcpConnection} {y : ConnRun} (hloop : k.loop_ = 0)
    (hrun : a.run ⟨some 0, loop.epoller_, k, []⟩ = .ok y) :
    (visited c (some k) next id m loop).onConn (some 0) c a =
      y.effects.foldlM (effect (some 0) y.conn)
        (visited c (some y.conn) next id m (loop.setEpoller y.epoller)) := by
  unfold onConn
  rw [visited_conn]
  simp only [hloop, visited_loop, hrun, ok_bind]
  congr 1
  simp only [onLoop, visited, Function.update_idem, Function.update_self]

theorem visited_queueInLoop (f : Functor) :
    (visited c k next id m loop).queueInLoop (some 0) 0 f =
      visited c k next id m (loop.enqueue f) := by
  unfold queueInLoop
  rw [if_pos rfl, visited_onLoop]

theorem visited_closeCallback {k' : TcpConnection} (hloop : k'.loop_ = 0)
    (hcb : k'.closeCallback_ = .server) :
    (visited c k next id m loop).closeCallback (some 0) k' =
      .ok (visited c k next id (m.erase k'.name_)
        (loop.enqueue (.destoryConnection k'.self))) := by
  simp only [closeCallback, hcb, removeConnectionInLoop, hloop]
  rw [if_neg (by simp [visited]), if_pos trivial, if_neg (by simp [visited]), if_neg (by simp),
    ← visited_queueInLoop]
  rfl

/-! The four member functions of a visit. -/

theorem guest_establish {fd : Fd} (hmap : p.channelMap_ fd = none) (hkernel : p.kernel fd = none) :
    Action.runEstablish.run ⟨some 0, p, guest c id fd .kConnecting {} .kNew {}, []⟩ =
      .ok ⟨some 0, p.added fd c, guest.up c id fd, []⟩ := by
  simp [Action.run, ConnRun.isInLoopThread, ConnRun.establishConnection,
    ConnRun.assertInLoopThread, ConnRun.onChannel, ConnRun.setState, ConnRun.connectionCallback,
    ConnRun.onLog, Channel.enableReading, Channel.setReading, Epoller.updateChannel,
    Epoller.update, Epoller.added, assert, guest, guest.up, readEvents, hmap, hkernel]

theorem guest_forceClose :
    Action.forceClose.run ⟨some 0, p, guest.up c id 8, []⟩ =
      .ok ⟨some 0, p, guest c id 8 .kDisconnecting readEvents .kAdded { connectionCalls := [true] },
        [.queueInLoop (.forceCloseInLoop c)]⟩ := rfl

theorem guest_forceCloseInLoop :
    Action.forceCloseInLoop.run ⟨some 0, watching (some c) (some (readEvents, c)),
        guest c id 8 .kDisconnecting readEvents .kAdded log, []⟩ =
      .ok ⟨some 0, watching (some c) none, guest c id 8 .kDisconnected {} .kDismissed
        { log with closeCalls := log.closeCalls + 1 }, [.closeCallback]⟩ := by
  simp [Action.run, ConnRun.isInLoopThread, ConnRun.forceCloseInLoop, ConnRun.handleClose,
    ConnRun.assertInLoopThread, ConnRun.onChannel, ConnRun.setState, ConnRun.onLog, ConnRun.emit,
    Channel.disableAll, Channel.setNone, Channel.isNoneEvent, Channel.kNoneEvent_,
    Epoller.updateChannel, Epoller.update, assert, guest, watching, readEvents]

theorem guest_destoryConnection :
    Action.destoryConnection.run ⟨some 0, watching (some c) none,
        guest c id 8 .kDisconnected {} .kDismissed log, []⟩ =
      .ok ⟨some 0, watching none none, guest c id 8 .kDisconnected {} .kNew
        { log with destroyed := true }, []⟩ := by
  simp [Action.run, ConnRun.isInLoopThread, ConnRun.destoryConnection, ConnRun.stopIfConnected,
    ConnRun.assertInLoopThread, ConnRun.onChannel, ConnRun.onLog, Channel.isNoneEvent,
    Channel.kNoneEvent_, Epoller.removeChannel, assert, guest, watching]

theorem visited_freshFd : (visited c none next id m loop).FreshFd 8 := by
  intro d k hd
  simp only [visited, Function.update_apply] at hd
  split_ifs at hd
  cases hd
  decide

/-- Nobody holds a connection that is not in `connections_`. -/
theorem visited_not_held (hm : ∀ name : Bytes, m[name]? ≠ some c) :
    ¬ (visited c k next id m ⟨p, [], .events []⟩).Held c := by
  have hloops : ∀ ℓ, (visited c k next id m ⟨p, [], .events []⟩).loops ℓ = ⟨p, [], .events []⟩ ∨
      (visited c k next id m ⟨p, [], .events []⟩).loops ℓ = {} := by
    intro ℓ
    simp only [visited, Function.update_apply]
    split_ifs
    · exact .inl rfl
    · exact .inr rfl
  rintro (⟨name, hname⟩ | h | h | ⟨ℓ, f, hf, -⟩ | ⟨h, hh, -⟩ |
    ⟨ℓ, revents, inMessage, active, hphase⟩)
  · exact hm name hname
  · cases h
  · cases h
  · rcases hloops ℓ with heq | heq <;> rw [heq] at hf <;> cases hf
  · cases hh
  · rcases hloops ℓ with heq | heq <;> rw [heq] at hphase <;> cases hphase

/-! The steps of a visit. -/

theorem visited_accept : serverAlone.Step
    (visited c none c id m ⟨watching none none, [], .events []⟩) (.accept 8)
    (visited c (some (guest.up c id 8)) (c + 1) (nextInt id)
      (m.insert (ascii ['#'] ++ decimalInt id) c)
      ⟨watching (some c) (some (readEvents, c)), [], .events []⟩) := by
  refine ⟨⟨⟨rfl, ⟨_, by rw [visited_loop]⟩, visited_not_busy, visited_freshFd⟩, trivial⟩, ?_⟩
  have hprepare : (visited c none c id m ⟨watching none none, [], .events []⟩).prepare (.accept 8) =
      visited c (some (guest c id 8 .kConnecting {} .kNew {})) (c + 1) (nextInt id)
        (m.insert (ascii ['#'] ++ decimalInt id) c) ⟨watching none none, [], .events []⟩ := by
    simp only [World.prepare, newConnectionCallback, visited, alloc, Function.update_idem]
    rfl
  show World.onConn (World.prepare _ (.accept 8)) (some 0) c .runEstablish = _
  rw [hprepare, visited_onConn rfl (guest_establish rfl rfl), ← watching_added]
  rfl

theorem visited_forceClose : serverAlone.Step
    (visited c (some (guest.up c id 8)) next id' m ⟨p, [], .events []⟩) (.forceClose (some 0) c)
    (visited c (some (guest c id 8 .kDisconnecting readEvents .kAdded
      { connectionCalls := [true] })) next id' m ⟨p, [.forceCloseInLoop c], .events []⟩) := by
  refine ⟨⟨⟨fun _ _ _ => by simp, by simp⟩, trivial⟩, ?_⟩
  show World.onConn (visited c _ next id' m ⟨p, [], .events []⟩) (some 0) c .forceClose = _
  rw [visited_onConn rfl guest_forceClose]
  show Except.ok (queueInLoop _ (some 0) 0 _) = _
  rw [visited_queueInLoop]
  rfl

theorem visited_closes (herase : m.erase (ascii ['#'] ++ decimalInt id) = m') : serverAlone.Step
    (visited c (some (guest c id 8 .kDisconnecting readEvents .kAdded log)) next id' m
      ⟨watching (some c) (some (readEvents, c)), [], .functors [.forceCloseInLoop c]⟩)
    (.runFunctor 0 (.wrote 0))
    (visited c (some (guest c id 8 .kDisconnected {} .kDismissed
      { log with closeCalls := log.closeCalls + 1 })) next id' m'
      ⟨watching (some c) none, [.destoryConnection c], .functors []⟩) := by
  refine ⟨⟨⟨_, _, by rw [visited_loop], visited_not_busy, Nat.zero_le _⟩, trivial⟩, ?_⟩
  simp only [serverAlone, System.restrict, reactor, step, action, visited_loop, Functor.action,
    Functor.conn, Option.map_some, World.prepare, visited_onLoop]
  rw [visited_onConn rfl (by exact guest_forceCloseInLoop)]
  simp only [List.foldlM_cons, List.foldlM_nil, effect]
  rw [visited_closeCallback rfl rfl, ← herase]
  rfl

theorem visited_destroys : serverAlone.Step
    (visited c (some (guest c id 8 .kDisconnected {} .kDismissed log)) next id' m
      ⟨watching (some c) none, [], .functors [.destoryConnection c]⟩)
    (.runFunctor 0 (.wrote 0))
    (visited c (some (guest c id 8 .kDisconnected {} .kNew { log with destroyed := true }))
      next id' m ⟨watching none none, [], .functors []⟩) := by
  refine ⟨⟨⟨_, _, by rw [visited_loop], visited_not_busy, Nat.zero_le _⟩, trivial⟩, ?_⟩
  simp only [serverAlone, System.restrict, reactor, step, action, visited_loop, Functor.action,
    Functor.conn, Option.map_some, World.prepare, visited_onLoop]
  rw [visited_onConn rfl (by exact guest_destoryConnection)]
  rfl

/-- Another connection that is not there leaves no trace, -/
theorem update_first_none (hc : c ≠ 0) :
    Function.update (Function.update (fun _ => none) 0 (some (guest.up 0 1 7))) c none =
      Function.update (fun _ => none) (0 : ConnId) (some (guest.up 0 1 7)) := by
  rw [Function.update_eq_self_iff, Function.update_of_ne hc]

/-- so it does not matter which one it is not. -/
theorem visited_none {d : ConnId} (hc : c ≠ 0) (hd : d ≠ 0) :
    visited c none next id m loop = visited d none next id m loop := by
  simp only [visited, update_first_none hc, update_first_none hd]

theorem visited_self : visited 0 (some (guest.up 0 1 7)) next id m loop =
    visited 1 none next id m loop := by
  simp only [visited, Function.update_idem, update_first_none Nat.one_ne_zero]

theorem visited_release (hc : c ≠ 0) (hm : ∀ name : Bytes, m[name]? ≠ some c) : serverAlone.Step
    (visited c (some (guest c id 8 .kDisconnected {} .kNew log)) next id' m
      ⟨watching none none, [], .events []⟩) (.release c)
    (visited (c + 1) none next id' m ⟨watching none none, [], .events []⟩) := by
  refine ⟨⟨visited_not_held hm, trivial⟩, ?_⟩
  rw [visited_none (Nat.succ_ne_zero c) hc]
  simp only [serverAlone, System.restrict, reactor, step, action, World.prepare, visited_conn]
  simp only [visited, onLoop, Function.update_idem, Function.update_self, EventLoop.closeFd,
    watching, guest]

/-- `doPendingFunctors`, up to the functors. -/
theorem visited_beginFunctors : serverAlone.Step
    (visited c k next id m ⟨p, fs, .events []⟩) (.beginFunctors 0)
    (visited c k next id m ⟨p, [], .functors fs⟩) := by
  refine ⟨⟨⟨by rw [visited_loop], visited_not_busy⟩, trivial⟩, ?_⟩
  show Except.ok (World.onLoop _ 0 _) = _
  rw [visited_onLoop]
  rfl

/-- From there to the next events, of which there are none. -/
theorem visited_poll : serverAlone.Run
    (visited c k next id m ⟨p, fs, .functors []⟩) [.endFunctors 0, .poll 0 []]
    (visited c k next id m ⟨p, fs, .events []⟩) := by
  have hend : serverAlone.Step (visited c k next id m ⟨p, fs, .functors []⟩) (.endFunctors 0)
      (visited c k next id m ⟨p, fs, .waiting⟩) := by
    refine ⟨⟨⟨by rw [visited_loop], visited_not_busy⟩, trivial⟩, ?_⟩
    show Except.ok (World.onLoop _ 0 _) = _
    rw [visited_onLoop]
    rfl
  have hpoll : serverAlone.Step (visited c k next id m ⟨p, fs, .waiting⟩) (.poll 0 [])
      (visited c k next id m ⟨p, fs, .events []⟩) := by
    refine ⟨⟨⟨by rw [visited_loop], visited_not_busy, .nil, by simp⟩, trivial⟩, ?_⟩
    show Except.ok (World.onLoop _ 0 _) = _
    rw [visited_onLoop]
    rfl
  exact .cons hend (.cons hpoll (.nil _))

/-- A connection is accepted, closed by the user, destroyed and released. -/
theorem visit (hc : c ≠ 0) (hname : m[ascii ['#'] ++ decimalInt id]? = none)
    (hm : ∀ name : Bytes, m[name]? ≠ some c) :
    ∃ ls, serverAlone.Run (visited c none c id m ⟨watching none none, [], .events []⟩) ls
      (visited (c + 1) none (c + 1) (nextInt id) m ⟨watching none none, [], .events []⟩) := by
  have herase : (m.insert (ascii ['#'] ++ decimalInt id) c).erase (ascii ['#'] ++ decimalInt id) =
      m := by
    apply Std.ExtTreeMap.ext_getElem?
    intro other
    rw [Std.ExtTreeMap.getElem?_erase, Std.ExtTreeMap.getElem?_insert]
    split_ifs with h
    · rw [Std.LawfulEqCmp.compare_eq_iff_eq] at h
      rw [← h, hname]
    · rfl
  exact ⟨_, .cons visited_accept (.cons visited_forceClose (.cons visited_beginFunctors
    (.cons (visited_closes herase) (visited_poll.append (.cons visited_beginFunctors
    (.cons visited_destroys (visited_poll.append (.cons (visited_release hc hm) (.nil _)))))))))⟩

end

/-- `connections_` with the first connection. -/
def oneStored : Std.ExtTreeMap Bytes ConnId compare :=
  (∅ : Std.ExtTreeMap Bytes ConnId compare).insert (ascii ['#'] ++ decimalInt 1) 0

theorem oneStored_getElem? (id : Int) :
    oneStored[ascii ['#'] ++ decimalInt id]? = if id = 1 then some 0 else none := by
  rw [oneStored, Std.ExtTreeMap.getElem?_insert]
  split_ifs with h hid hid
  · rfl
  · rw [Std.LawfulEqCmp.compare_eq_iff_eq] at h
    exact absurd (decimalInt_injective (List.append_cancel_left h)).symm hid
  · exact absurd (Std.LawfulEqCmp.compare_eq_iff_eq.mpr (by rw [hid])) h
  · simp

theorem oneStored_ne {c : ConnId} (hc : c ≠ 0) (name : Bytes) : oneStored[name]? ≠ some c := by
  rw [oneStored, Std.ExtTreeMap.getElem?_insert]
  split_ifs
  · exact fun h => hc (Option.some.inj h).symm
  · simp

/-- The first connection is accepted, on descriptor 7. -/
theorem visited_first : serverAlone.Run (World.init {} {}) [.poll 0 [], .accept 7]
    (visited 1 none 1 (connIdOf 1) oneStored ⟨watching none none, [], .events []⟩) := by
  refine .cons ⟨⟨⟨rfl, not_busy rfl rfl, .nil, by simp⟩, trivial⟩, rfl⟩
    (.cons ⟨⟨⟨rfl, ⟨_, rfl⟩, not_busy rfl rfl, fun _ _ h => by cases h⟩, trivial⟩, ?_⟩ (.nil _))
  have hprepare : (World.prepare (World.prepare (World.init {} {}) (.poll 0 [])) (.accept 7)) =
      visited 0 (some (guest 0 1 7 .kConnecting {} .kNew {})) 1 (nextInt 1) oneStored
        ⟨{}, [], .events []⟩ := by
    simp only [World.prepare, newConnectionCallback, visited, alloc, Function.update_idem]
    rfl
  have hid : nextInt 1 = connIdOf 1 := by
    rw [← connIdOf_zero, nextInt_connIdOf]
  show World.onConn (World.prepare (World.prepare (World.init {} {}) (.poll 0 [])) (.accept 7))
    (some 0) 0 .runEstablish = _
  rw [hprepare, visited_onConn rfl (guest_establish rfl rfl), hid, visited_self, ← watching_first]
  rfl

/-- Up to the last number that is not the first one's. -/
theorem visits {n : Nat} (hn : n < 2 ^ 32) : ∃ ls, serverAlone.Run (World.init {} {}) ls
    (visited (n + 1) none (n + 1) (connIdOf (n + 1)) oneStored
      ⟨watching none none, [], .events []⟩) := by
  induction n with
  | zero => exact ⟨_, visited_first⟩
  | succ n ih =>
      obtain ⟨ls, hrun⟩ := ih (by omega)
      have hid : connIdOf (n + 1) ≠ 1 := by
        rw [← connIdOf_zero]
        intro heq
        have hdvd := (connIdOf_eq_iff (Nat.zero_le (n + 1))).mp heq.symm
        exact absurd (Nat.le_of_dvd (by omega) hdvd) (by omega)
      have hnone : oneStored[ascii ['#'] ++ decimalInt (connIdOf (n + 1))]? = none := by
        rw [oneStored_getElem?, if_neg hid]
      obtain ⟨ls', hvisit⟩ := visit (Nat.succ_ne_zero n) hnone (oneStored_ne (Nat.succ_ne_zero n))
      rw [nextInt_connIdOf] at hvisit
      exact ⟨ls ++ ls', hrun.append hvisit⟩

/-- The first connection stays, `2 ^ 32 - 1` others come and go, and the next one
takes its place. -/
theorem not_registry_wrapped : ¬ ∀ server client ls w, server.nextConnId_ = 1 →
    serverAlone.Run (World.init server client) ls w →
    KeepsRegistry (World.init server client) ls w := by
  intro h
  obtain ⟨ls, hrun⟩ := visits (n := 2 ^ 32 - 1) (by omega)
  have hround : connIdOf (2 ^ 32 - 1 + 1) = 1 := by
    rw [← connIdOf_zero]
    exact ((connIdOf_eq_iff (Nat.zero_le _)).mpr (by decide)).symm
  rw [hround] at hrun
  have hstep : serverAlone.Step (visited (2 ^ 32 - 1 + 1) none (2 ^ 32 - 1 + 1) 1 oneStored
    ⟨watching none none, [], .events []⟩) (.accept 8) _ := visited_accept
  have hkeeps := h {} {} _ _ rfl (hrun.append (.cons hstep (.nil _)))
  have hfirst : oneStored[ascii ['#'] ++ decimalInt 1]? = some 0 := by
    rw [oneStored_getElem?, if_pos rfl]
  rcases hkeeps.alone ls _ [] _ _ rfl hrun.of_restrict (System.restrict_step.mp hstep).1 rfl _ 0
    hfirst with hkept | hremoves
  · have hkept : (oneStored.insert (ascii ['#'] ++ decimalInt 1) (2 ^ 32 - 1 + 1))[
        ascii ['#'] ++ decimalInt 1]? = some 0 := hkept
    rw [Std.ExtTreeMap.getElem?_insert_self] at hkept
    exact absurd (Option.some.inj hkept) (by decide)
  · exact not_removes_accept hremoves

end Ham.Net
