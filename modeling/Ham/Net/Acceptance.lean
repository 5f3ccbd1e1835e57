import Ham.Net.Acceptor

/-!
# What becomes of a connection that is accepted

Every connection that reaches the listening socket is in one place
(`Accounted`), and every descriptor that `handleRead` has opened is known to
it (`Owned`): the reserve by `idleFd_`, a connection by the call that is about to close
it. One way is left for a descriptor to get lost: descriptor `0` is taken for a
failure, which can happen once, since nobody ever closes it.
-/

namespace Ham.Net

open Ham.Lib Ham.Lib.Descriptors

variable {Conn : Type}

/-- The connection in the hands of `handleRead`. -/
def AcceptPhase.inHand : AcceptPhase Conn → List Conn
  | .rejecting _ c => [c]
  | .shedding c => c.toList
  | _ => []

/-- `idleFd_` is the reserve, or `-1`. -/
def AcceptPhase.reserved : AcceptPhase Conn → Bool
  | .idle | .rejecting _ _ | .dropping => true
  | _ => false

namespace Acceptor

variable {w w' : Acceptor Conn} {l : AcceptorLabel Conn} {fd : Nat} {c : Conn}

structure Owned (w : Acceptor Conn) : Prop where
  socket : w.files.entry w.acceptSocket_ = some .acceptSocket
  reserve : ∀ fd, w.files.entry fd = some .devNull ↔
    w.phase.reserved = true ∧ w.idleFd_ = some fd
  accepted : ∀ fd c, w.files.entry fd = some (.accepted c) → w.phase = .rejecting fd c ∨
    w.phase = .shedding (some c) ∧ w.idleFd_ = some fd ∨ fd = 0 ∧ w.leaked = [c]
  rejecting : ∀ fd c, w.phase = .rejecting fd c → w.files.entry fd = some (.accepted c) ∧ 0 < fd
  shedding : ∀ c, w.phase = .shedding (some c) →
    ∃ fd, w.idleFd_ = some fd ∧ w.files.entry fd = some (.accepted c) ∧ (w.leaked ≠ [] → fd ≠ 0)
  unheld : w.phase = .shedding none → w.idleFd_ = none
  leaked : w.leaked = [] ∨ ∃ c, w.leaked = [c] ∧ w.files.entry 0 = some (.accepted c)

/-- Every connection is in one place. -/
def Accounted (w : Acceptor Conn) : Prop :=
  (w.arrived : Multiset Conn) =
    ↑w.backlog + ↑w.delivered + ↑w.rejected + ↑w.shed + ↑w.leaked + ↑w.aborted + ↑w.phase.inHand

theorem Constructed.owned (h : Constructed w) : Owned w := by
  obtain ⟨-, -, -, hl, -⟩ := h.lists
  exact {
    socket := h.socket
    reserve := by
      intro fd
      rw [h.devNull fd, h.phase]
      simp [AcceptPhase.reserved]
    accepted := fun fd c hacc => absurd hacc (h.accepted fd c)
    rejecting := by simp [h.phase]
    shedding := by simp [h.phase]
    unheld := by simp [h.phase]
    leaked := .inl hl }

theorem Constructed.accounted (h : Constructed w) : Accounted w := by
  obtain ⟨hd, hr, hs, hl, ha⟩ := h.lists
  simp [Accounted, hd, hr, hs, hl, ha, h.phase, h.backlog, AcceptPhase.inHand]

theorem next_eq (h : w.next = some (fd, c)) :
    w.files.lowest = some fd ∧ w.backlog = c :: w.backlog.tail := by
  unfold next at h
  split at h
  · rename_i fd' c' rest hlow hback
    cases h
    exact ⟨hlow, by rw [hback]; rfl⟩
  · cases h

/-! ## What a failed or a closing call leaves alone -/

@[simp] theorem close_acceptSocket (o : Option Nat) :
    (w.close o).acceptSocket_ = w.acceptSocket_ := by
  cases o <;> rfl

@[simp] theorem close_leaked (o : Option Nat) : (w.close o).leaked = w.leaked := by
  cases o <;> rfl

@[simp] theorem failAccept_files (e : AcceptErrno) : (w.failAccept e).files = w.files := by
  unfold failAccept
  split <;> rfl

theorem failAccept_idleFd (e : AcceptErrno) : (w.failAccept e).idleFd_ = w.idleFd_ := by
  unfold failAccept
  split <;> rfl

theorem failAccept_phase (e : AcceptErrno) : (w.failAccept e).phase = w.phase := by
  unfold failAccept
  split <;> rfl

/-- Behind a failed `accept`: the way into the reserve, or out. -/
theorem goesOn_cases (full : Prop) [Decidable full] :
    (if full then .dropping else .idle : AcceptPhase Conn) = .idle ∨
    (if full then .dropping else .idle : AcceptPhase Conn) = .dropping := by
  split
  · exact .inr rfl
  · exact .inl rfl

/-! ## The descriptors -/

/-- Between the calls nothing but a lost connection is open. -/
theorem Owned.accepted_of (h : Owned w) (hphase : w.phase.inHand = [])
    (hacc : w.files.entry fd = some (.accepted c)) : fd = 0 ∧ w.leaked = [c] := by
  rcases h.accepted fd c hacc with hr | ⟨hs, -⟩ | hzero
  · rw [hr] at hphase
    cases hphase
  · rw [hs] at hphase
    cases hphase
  · exact hzero

/-- The rest of the program gets a descriptor. -/
theorem Owned.handOn (h : Owned w) (hlow : w.files.lowest = some fd) :
    Owned { w with files := w.files.install fd .program } where
  socket := entry_install_of hlow h.socket
  reserve := by
    intro fd'
    rw [← h.reserve fd']
    refine ⟨fun hd => (entry_install_cases hlow hd).resolve_left ?_, entry_install_of hlow⟩
    simp
  accepted := by
    intro fd' c hacc
    refine h.accepted fd' c ((entry_install_cases hlow hacc).resolve_left ?_)
    simp
  rejecting := fun fd' c hp =>
    ⟨entry_install_of hlow (h.rejecting fd' c hp).1, (h.rejecting fd' c hp).2⟩
  shedding := by
    intro c hp
    obtain ⟨fd', hidle, hacc, hne⟩ := h.shedding c hp
    exact ⟨fd', hidle, entry_install_of hlow hacc, hne⟩
  unheld := h.unheld
  leaked := h.leaked.imp_right fun ⟨c, hl, hzero⟩ => ⟨c, hl, entry_install_of hlow hzero⟩

/-- The rest of the program gives one up. -/
theorem Owned.giveUp (h : Owned w) (hfd : w.files.entry fd = some .program) :
    Owned { w with files := w.files.close fd } := by
  have hkeep : ∀ {fd' x}, w.files.entry fd' = some x → x ≠ .program →
      (w.files.close fd).entry fd' = some x := by
    intro fd' x hx hne
    refine entry_close_iff.mpr ⟨?_, hx⟩
    rintro rfl
    exact hne (Option.some.inj (hx.symm.trans hfd))
  exact {
    socket := hkeep h.socket (by simp)
    reserve := by
      intro fd'
      rw [← h.reserve fd']
      exact ⟨fun hd => (entry_close_iff.mp hd).2, fun hd => hkeep hd (by simp)⟩
    accepted := fun fd' c hacc => h.accepted fd' c (entry_close_iff.mp hacc).2
    rejecting := fun fd' c hp =>
      ⟨hkeep (h.rejecting fd' c hp).1 (by simp), (h.rejecting fd' c hp).2⟩
    shedding := by
      intro c hp
      obtain ⟨fd', hidle, hacc, hne⟩ := h.shedding c hp
      exact ⟨fd', hidle, hkeep hacc (by simp), hne⟩
    unheld := h.unheld
    leaked := h.leaked.imp_right fun ⟨c, hl, hzero⟩ => ⟨c, hl, hkeep hzero (by simp)⟩ }

/-- `handleRead` goes on without a system call in between. -/
theorem Owned.movePhase (h : Owned w) (hphase : w.phase = .idle) {phase : AcceptPhase Conn}
    (hp : phase = .idle ∨ phase = .dropping) : Owned { w with phase := phase } where
  socket := h.socket
  reserve := by
    intro fd
    have hres := h.reserve fd
    rw [hphase] at hres
    rcases hp with rfl | rfl <;> exact hres
  accepted := fun fd c hacc => .inr (.inr (h.accepted_of (by rw [hphase]; rfl) hacc))
  rejecting := by rcases hp with rfl | rfl <;> simp
  shedding := by rcases hp with rfl | rfl <;> simp
  unheld := by rcases hp with rfl | rfl <;> simp
  leaked := h.leaked

/-- A connection is accepted where there is no callback. -/
theorem Owned.take (h : Owned w) (hphase : w.phase = .idle) (hlow : w.files.lowest = some fd)
    (hpos : 0 < fd) (c : Conn) :
    Owned { w with files := w.files.install fd (.accepted c), phase := .rejecting fd c } where
  socket := entry_install_of hlow h.socket
  reserve := by
    intro fd'
    have hres := h.reserve fd'
    rw [hphase] at hres
    refine Iff.trans ⟨fun hd => (entry_install_cases hlow hd).resolve_left ?_,
      entry_install_of hlow⟩ hres
    simp
  accepted := by
    intro fd' c' hacc
    rcases entry_install_cases hlow hacc with ⟨rfl, heq⟩ | hold
    · cases heq
      exact .inl rfl
    · exact .inr (.inr (h.accepted_of (by rw [hphase]; rfl) hold))
  rejecting := by
    rintro fd' c' ⟨⟩
    exact ⟨entry_install_self hlow, hpos⟩
  shedding := by simp
  unheld := by simp
  leaked := h.leaked.imp_right fun ⟨c, hl, hzero⟩ => ⟨c, hl, entry_install_of hlow hzero⟩

/-- Descriptor `0` is taken for a failure. -/
theorem Owned.leak (h : Owned w) (hphase : w.phase = .idle) (hlow : w.files.lowest = some 0)
    (c : Conn) {phase : AcceptPhase Conn} (hp : phase = .idle ∨ phase = .dropping) :
    Owned { w with
      files := w.files.install 0 (.accepted c), leaked := w.leaked ++ [c], phase := phase } := by
  have hnone : w.leaked = [] := by
    refine h.leaked.resolve_right ?_
    rintro ⟨c', -, hzero⟩
    exact ne_lowest hlow hzero rfl
  exact {
    socket := entry_install_of hlow h.socket
    reserve := by
      intro fd'
      have hres := h.reserve fd'
      rw [hphase] at hres
      have hsame : phase.reserved = true := by rcases hp with rfl | rfl <;> rfl
      show _ ↔ phase.reserved = true ∧ _
      rw [hsame]
      refine Iff.trans ⟨fun hd => (entry_install_cases hlow hd).resolve_left ?_,
        entry_install_of hlow⟩ hres
      simp
    accepted := by
      intro fd' c' hacc
      rcases entry_install_cases hlow hacc with ⟨rfl, heq⟩ | hold
      · cases heq
        exact .inr (.inr ⟨rfl, by simp [hnone]⟩)
      · have hlost := (h.accepted_of (by rw [hphase]; rfl) hold).2
        rw [hnone] at hlost
        cases hlost
    rejecting := by rcases hp with rfl | rfl <;> simp
    shedding := by rcases hp with rfl | rfl <;> simp
    unheld := by rcases hp with rfl | rfl <;> simp
    leaked := .inr ⟨c, by simp [hnone], entry_install_self hlow⟩ }

/-- A connection is closed that nobody wants. -/
theorem Owned.reject (h : Owned w) (hphase : w.phase = .rejecting fd c) :
    Owned { w with files := w.files.close fd, phase := .idle } := by
  obtain ⟨hmine, hpos⟩ := h.rejecting fd c hphase
  have hkeep : ∀ {fd' x}, w.files.entry fd' = some x → x ≠ .accepted c →
      (w.files.close fd).entry fd' = some x := by
    intro fd' x hx hne
    refine entry_close_iff.mpr ⟨?_, hx⟩
    rintro rfl
    exact hne (Option.some.inj (hx.symm.trans hmine))
  exact {
    socket := hkeep h.socket (by simp)
    reserve := by
      intro fd'
      have hres := h.reserve fd'
      rw [hphase] at hres
      exact Iff.trans ⟨fun hd => (entry_close_iff.mp hd).2, fun hd => hkeep hd (by simp)⟩ hres
    accepted := by
      intro fd' c' hacc
      obtain ⟨hne, hacc⟩ := entry_close_iff.mp hacc
      rcases h.accepted fd' c' hacc with hr | ⟨hs, -⟩ | hzero
      · rw [hphase] at hr
        cases hr
        exact absurd rfl hne
      · rw [hphase] at hs
        cases hs
      · exact .inr (.inr hzero)
    rejecting := by simp
    shedding := by simp
    unheld := by simp
    leaked := h.leaked.imp_right fun ⟨c', hl, hzero⟩ =>
      ⟨c', hl, entry_close_iff.mpr ⟨hpos.ne, hzero⟩⟩ }

/-! ## The reserve -/

/-- The reserve is given up. -/
theorem Owned.closeIdle (h : Owned w) (hphase : w.phase = .dropping) :
    Owned { w.close w.idleFd_ with phase := .draining } := by
  have hres := h.reserve
  rw [hphase] at hres
  have hout : (w.close w.idleFd_).files.entry w.acceptSocket_ = some .acceptSocket ∧
      (∀ fd, (w.close w.idleFd_).files.entry fd ≠ some .devNull) ∧
      ∀ fd c, (w.close w.idleFd_).files.entry fd = some (.accepted c) ↔
        w.files.entry fd = some (.accepted c) := by
    cases hidle : w.idleFd_ with
    | none =>
        refine ⟨h.socket, ?_, fun _ _ => Iff.rfl⟩
        intro fd hd
        have := ((hres fd).mp hd).2
        rw [hidle] at this
        cases this
    | some fd =>
        have hmine := (hres fd).mpr ⟨rfl, hidle⟩
        have hne : ∀ {fd' x}, w.files.entry fd' = some x → x ≠ .devNull → fd' ≠ fd := by
          rintro fd' x hx hne rfl
          exact hne (Option.some.inj (hx.symm.trans hmine))
        refine ⟨entry_close_iff.mpr ⟨hne h.socket (by simp), h.socket⟩, ?_, ?_⟩
        · intro fd' hd
          obtain ⟨hother, hd⟩ := entry_close_iff.mp hd
          have := ((hres fd').mp hd).2
          rw [hidle] at this
          exact hother (Option.some.inj this).symm
        · intro fd' c'
          exact ⟨fun hacc => (entry_close_iff.mp hacc).2,
            fun hacc => entry_close_iff.mpr ⟨hne hacc (by simp), hacc⟩⟩
  obtain ⟨hsocket, hnull, hacc⟩ := hout
  exact {
    socket := by simpa using hsocket
    reserve := fun fd => iff_of_false (hnull fd) (by simp [AcceptPhase.reserved])
    accepted := by
      intro fd c hfd
      have hlost := h.accepted_of (by rw [hphase]; rfl) ((hacc fd c).mp hfd)
      exact .inr (.inr ⟨hlost.1, by simpa using hlost.2⟩)
    rejecting := by simp
    shedding := by simp
    unheld := by simp
    leaked := by
      simp only [close_leaked]
      exact h.leaked.imp_right fun ⟨c, hl, hzero⟩ => ⟨c, hl, (hacc 0 c).mpr hzero⟩ }

/-- A connection is accepted in its place. -/
theorem Owned.drain (h : Owned w) (hphase : w.phase = .draining) (hlow : w.files.lowest = some fd)
    (c : Conn) :
    Owned { w with
      idleFd_ := some fd, files := w.files.install fd (.accepted c), phase := .shedding (some c) } where
  socket := entry_install_of hlow h.socket
  reserve := by
    intro fd'
    refine iff_of_false (fun hd => ?_) (by simp [AcceptPhase.reserved])
    rcases entry_install_cases hlow hd with ⟨-, heq⟩ | hold
    · cases heq
    · have hres := ((h.reserve fd').mp hold).1
      rw [hphase] at hres
      cases hres
  accepted := by
    intro fd' c' hacc
    rcases entry_install_cases hlow hacc with ⟨rfl, heq⟩ | hold
    · cases heq
      exact .inr (.inl ⟨rfl, rfl⟩)
    · exact .inr (.inr (h.accepted_of (by rw [hphase]; rfl) hold))
  rejecting := by simp
  shedding := by
    rintro c' ⟨⟩
    refine ⟨fd, rfl, entry_install_self hlow, fun hleaked => ?_⟩
    obtain ⟨c', -, hzero⟩ := h.leaked.resolve_left hleaked
    exact (ne_lowest hlow hzero).symm
  unheld := by simp
  leaked := h.leaked.imp_right fun ⟨c, hl, hzero⟩ => ⟨c, hl, entry_install_of hlow hzero⟩

/-- The acceptor goes on without a reserve. -/
theorem Owned.dropReserve (h : Owned w) (hphase : w.phase = .draining ∨ w.phase = .reopening)
    {phase : AcceptPhase Conn} (hp : phase = .shedding none ∨ phase = .idle) :
    Owned { w with idleFd_ := none, phase := phase } where
  socket := h.socket
  reserve := by
    intro fd
    refine iff_of_false (fun hd => ?_) (by simp)
    have hres := ((h.reserve fd).mp hd).1
    rcases hphase with hphase | hphase <;> rw [hphase] at hres <;> cases hres
  accepted := by
    intro fd c hacc
    refine .inr (.inr (h.accepted_of ?_ hacc))
    rcases hphase with hphase | hphase <;> rw [hphase] <;> rfl
  rejecting := by rcases hp with rfl | rfl <;> simp
  shedding := by rcases hp with rfl | rfl <;> simp
  unheld := fun _ => rfl
  leaked := h.leaked

/-- The connection that was accepted in place of the reserve is closed. -/
theorem Owned.shed (h : Owned w) {held : Option Conn} (hphase : w.phase = .shedding held) :
    Owned { w.close w.idleFd_ with phase := .reopening } := by
  have hnull : ∀ fd, w.files.entry fd ≠ some .devNull := by
    intro fd hd
    have hres := ((h.reserve fd).mp hd).1
    rw [hphase] at hres
    cases hres
  cases held with
  | none =>
      rw [h.unheld hphase]
      exact {
        socket := h.socket
        reserve := fun fd => iff_of_false (hnull fd) (by simp [AcceptPhase.reserved])
        accepted := by
          intro fd c hacc
          exact .inr (.inr (h.accepted_of (by rw [hphase]; rfl) hacc))
        rejecting := by simp
        shedding := by simp
        unheld := by simp
        leaked := h.leaked }
  | some c =>
      obtain ⟨fd, hidle, hmine, hzero⟩ := h.shedding c hphase
      rw [hidle]
      exact {
        socket := by
          refine entry_close_iff.mpr ⟨fun heq => ?_, h.socket⟩
          have heq : w.acceptSocket_ = fd := heq
          cases hmine.symm.trans (heq ▸ h.socket)
        reserve := fun fd' => iff_of_false (fun hd => hnull fd' (entry_close_iff.mp hd).2)
          (by simp [AcceptPhase.reserved])
        accepted := by
          intro fd' c' hacc
          obtain ⟨hne, hacc⟩ := entry_close_iff.mp hacc
          rcases h.accepted fd' c' hacc with hr | ⟨-, hidle'⟩ | hlost
          · rw [hphase] at hr
            cases hr
          · exact absurd (Option.some.inj (hidle'.symm.trans hidle)) hne
          · exact .inr (.inr hlost)
        rejecting := by simp
        shedding := by simp
        unheld := by simp
        leaked := by
          refine h.leaked.imp_right fun ⟨c', hl, hentry⟩ => ⟨c', hl, ?_⟩
          exact entry_close_iff.mpr ⟨(hzero (by simp [hl])).symm, hentry⟩ }

/-- `/dev/null` is open again. -/
theorem Owned.reopen (h : Owned w) (hphase : w.phase = .reopening)
    (hlow : w.files.lowest = some fd) :
    Owned { w with
      idleFd_ := some fd, files := w.files.install fd .devNull, phase := .idle } where
  socket := entry_install_of hlow h.socket
  reserve := by
    intro fd'
    constructor
    · intro hd
      rcases entry_install_cases hlow hd with ⟨rfl, -⟩ | hold
      · exact ⟨rfl, rfl⟩
      · have hres := ((h.reserve fd').mp hold).1
        rw [hphase] at hres
        cases hres
    · rintro ⟨-, hidle⟩
      obtain rfl : fd = fd' := Option.some.inj hidle
      exact entry_install_self hlow
  accepted := by
    intro fd' c' hacc
    rcases entry_install_cases hlow hacc with ⟨-, heq⟩ | hold
    · cases heq
    · exact .inr (.inr (h.accepted_of (by rw [hphase]; rfl) hold))
  rejecting := by simp
  shedding := by simp
  unheld := by simp
  leaked := h.leaked.imp_right fun ⟨c, hl, hzero⟩ => ⟨c, hl, entry_install_of hlow hzero⟩

theorem Owned.failAccept (h : Owned w) (e : AcceptErrno) : Owned (w.failAccept e) := by
  unfold Acceptor.failAccept
  split <;> exact { h with }

theorem Owned.handleRead (h : Owned w) {failure : Option AcceptErrno} (hphase : w.phase = .idle)
    (hw : w.handleRead failure = .ok w') : Owned w' := by
  unfold Acceptor.handleRead at hw
  split at hw
  · rename_i connfd c hnext
    obtain ⟨hlow, -⟩ := next_eq hnext
    simp only at hw
    split at hw
    · rename_i hpos
      split at hw
      · cases hw
        exact { h.handOn hlow with }
      · cases hw
        exact { h.take hphase hlow hpos c with }
    · rename_i hzero
      obtain rfl : connfd = 0 := by omega
      cases hw
      exact { h.leak hphase hlow c (goesOn_cases (w.errno = some .EMFILE)) with }
  · cases hw
    exact h
  · rename_i next e
    split at hw
    · cases hw
      exact (h.failAccept e).movePhase ((failAccept_phase e).trans hphase)
        (goesOn_cases (e = .EMFILE))
    · cases hw

theorem Owned.step (h : Owned w) (hen : w.Enabled l) (hw : w.step l = .ok w') : Owned w' := by
  cases l with
  | arrive c =>
      cases hw
      exact { h with }
  | accept failure => exact h.handleRead hen.1 hw
  | reject =>
      obtain ⟨connfd, c, hphase⟩ := hen
      simp only [Acceptor.step, hphase] at hw
      cases hw
      exact { h.reject hphase with }
  | closeIdle =>
      cases hw
      exact h.closeIdle hen
  | acceptIdle failure =>
      obtain ⟨hphase, hcan⟩ := hen
      cases hw
      unfold Acceptor.acceptIdle
      split
      · rename_i fd c hnext
        exact { h.drain hphase (next_eq hnext).1 c with }
      · exact h
      · rename_i next e
        exact (h.failAccept e).dropReserve (.inl ((failAccept_phase e).trans hphase)) (.inl rfl)
  | closeAccepted =>
      obtain ⟨c, hphase⟩ := hen
      simp only [Acceptor.step, hphase] at hw
      cases hw
      exact { h.shed hphase with }
  | reopen failure =>
      obtain ⟨hphase, hcan⟩ := hen
      cases hw
      unfold Acceptor.reopen
      split
      · rename_i fd hlow
        exact h.reopen hphase hlow
      · exact h
      · exact { h.dropReserve (.inr hphase) (.inr rfl) with }
  | openOther =>
      simp only [Acceptor.step] at hw
      split at hw
      · rename_i fd hlow
        cases hw
        exact h.handOn hlow
      · cases hw
        exact h
  | closeOther fd =>
      cases hw
      exact h.giveUp hen
  | setErrno errno =>
      cases hw
      exact { h with }

/-! ## The connections -/

theorem Accounted.failAccept (h : Accounted w) (e : AcceptErrno) : Accounted (w.failAccept e) := by
  unfold Acceptor.failAccept
  split
  · -- the aborted connection goes from one list to the other
    unfold Accounted at h ⊢
    simp only
    rw [h]
    cases w.backlog with
    | nil => simp
    | cons c rest =>
        simp only [List.tail_cons, List.head?_cons, Option.toList_some, ← Multiset.cons_coe,
          ← Multiset.coe_add, ← Multiset.singleton_add]
        abel
  · exact h

theorem Accounted.movePhase (h : Accounted w) {phase : AcceptPhase Conn}
    (hp : phase.inHand = w.phase.inHand) : Accounted { w with phase := phase } := by
  show (w.arrived : Multiset Conn) = _ + ↑phase.inHand
  rw [hp]
  exact h

theorem Accounted.close (h : Accounted w) (o : Option Nat) : Accounted (w.close o) := by
  cases o <;> exact h

theorem Accounted.handleRead (h : Accounted w) {failure : Option AcceptErrno}
    (hphase : w.phase = .idle) (hw : w.handleRead failure = .ok w') : Accounted w' := by
  have hgoesOn : ∀ (full : Prop) [Decidable full],
      (if full then .dropping else .idle : AcceptPhase Conn).inHand = [] := by
    intro full _
    split <;> rfl
  unfold Acceptor.handleRead at hw
  split at hw
  · rename_i connfd c hnext
    obtain ⟨rest, hback⟩ : ∃ rest, w.backlog = c :: rest := ⟨_, (next_eq hnext).2⟩
    have hrest : (w.arrived : Multiset Conn) =
        {c} + ↑rest + ↑w.delivered + ↑w.rejected + ↑w.shed + ↑w.leaked + ↑w.aborted := by
      have h := h
      simp only [Accounted, hback, hphase, AcceptPhase.inHand, ← Multiset.cons_coe,
        ← Multiset.singleton_add] at h
      rw [h]
      simp
    simp only [hback, List.tail_cons] at hw
    split at hw
    · split at hw
      · cases hw
        show (w.arrived : Multiset Conn) = _
        simp only [hrest, hphase, AcceptPhase.inHand, ← Multiset.coe_add, Multiset.coe_singleton,
          Multiset.coe_nil]
        abel
      · cases hw
        show (w.arrived : Multiset Conn) = _
        simp only [hrest, AcceptPhase.inHand, Multiset.coe_singleton]
        abel
    · cases hw
      simp only [Accounted, hgoesOn, hrest, ← Multiset.coe_add, Multiset.coe_singleton,
        Multiset.coe_nil]
      abel
  · cases hw
    exact h
  · rename_i next e
    split at hw
    · cases hw
      refine (h.failAccept e).movePhase ((hgoesOn (e = .EMFILE)).trans ?_)
      rw [failAccept_phase, hphase]
      rfl
    · cases hw

theorem Accounted.step (h : Accounted w) (hen : w.Enabled l) (hw : w.step l = .ok w') :
    Accounted w' := by
  cases l with
  | arrive c =>
      cases hw
      simp only [Accounted, ← Multiset.coe_add] at h ⊢
      rw [h]
      abel
  | accept failure => exact h.handleRead hen.1 hw
  | reject =>
      obtain ⟨connfd, c, hphase⟩ := hen
      simp only [Acceptor.step, hphase] at hw
      cases hw
      simp only [Accounted, hphase, AcceptPhase.inHand, Acceptor.close, ← Multiset.coe_add] at h ⊢
      rw [h]
      simp only [Multiset.coe_nil]
      abel
  | closeIdle =>
      have hphase : w.phase = .dropping := hen
      cases hw
      refine (h.close w.idleFd_).movePhase ?_
      cases w.idleFd_ <;> simp [Acceptor.close, hphase, AcceptPhase.inHand]
  | acceptIdle failure =>
      obtain ⟨hphase, hcan⟩ := hen
      cases hw
      unfold Acceptor.acceptIdle
      split
      · rename_i fd c hnext
        obtain ⟨rest, hback⟩ : ∃ rest, w.backlog = c :: rest := ⟨_, (next_eq hnext).2⟩
        simp only [Accounted, hback, hphase, AcceptPhase.inHand, List.tail_cons,
          Option.toList_some, ← Multiset.cons_coe, ← Multiset.singleton_add] at h ⊢
        rw [h]
        simp only [Multiset.coe_nil]
        abel
      · exact h
      · rename_i next e
        have hgone : Accounted { w.failAccept e with phase := .shedding none } := by
          refine (h.failAccept e).movePhase ?_
          rw [failAccept_phase, hphase]
          rfl
        exact hgone
  | closeAccepted =>
      obtain ⟨c, hphase⟩ := hen
      simp only [Acceptor.step, hphase] at hw
      cases hw
      cases w.idleFd_ <;>
        simp only [Accounted, hphase, AcceptPhase.inHand, Acceptor.close, ← Multiset.coe_add]
          at h ⊢ <;>
        rw [h] <;> simp only [Multiset.coe_nil] <;> abel
  | reopen failure =>
      obtain ⟨hphase, hcan⟩ := hen
      cases hw
      have hidle : Accounted { w with phase := .idle } := h.movePhase (by rw [hphase]; rfl)
      unfold Acceptor.reopen
      split
      · exact hidle
      · exact h
      · exact hidle
  | openOther =>
      simp only [Acceptor.step] at hw
      split at hw <;> cases hw <;> exact h
  | closeOther fd =>
      cases hw
      exact h
  | setErrno errno =>
      cases hw
      exact h

/-- What belongs to the rest of the program is closed by the rest of the
program only. -/
theorem Owned.program_kept (h : Owned w) (hen : w.Enabled l) (hw : w.step l = .ok w')
    (hl : l ≠ .closeOther fd) (hfd : w.files.entry fd = some .program) :
    w'.files.entry fd = some .program := by
  have hkeep : ∀ {fd' x}, w.files.entry fd' = some x → x ≠ .program →
      (w.files.close fd').entry fd = some .program := by
    intro fd' x hx hne
    refine entry_close_iff.mpr ⟨?_, hfd⟩
    rintro rfl
    exact hne (Option.some.inj (hx.symm.trans hfd))
  cases l with
  | accept failure =>
      simp only [Acceptor.step, Acceptor.handleRead] at hw
      split at hw
      · rename_i connfd c hnext
        have hlow := (next_eq hnext).1
        split at hw
        · split at hw <;> cases hw <;> exact entry_install_of hlow hfd
        · cases hw
          exact entry_install_of hlow hfd
      · cases hw
        exact hfd
      · rename_i next e
        split at hw <;> cases hw
        simpa using hfd
  | reject =>
      obtain ⟨connfd, c, hphase⟩ := hen
      simp only [Acceptor.step, hphase] at hw
      cases hw
      exact hkeep (h.rejecting connfd c hphase).1 (by simp)
  | closeIdle =>
      have hphase : w.phase = .dropping := hen
      cases hw
      cases hidle : w.idleFd_ with
      | none => exact hfd
      | some fd' => exact hkeep ((h.reserve fd').mpr ⟨by rw [hphase]; rfl, hidle⟩) (by simp)
  | acceptIdle failure =>
      cases hw
      unfold Acceptor.acceptIdle
      split
      · rename_i fd' c hnext
        exact entry_install_of (next_eq hnext).1 hfd
      · exact hfd
      · simpa using hfd
  | closeAccepted =>
      obtain ⟨held, hphase⟩ := hen
      simp only [Acceptor.step, hphase] at hw
      cases hw
      cases held with
      | none =>
          rw [h.unheld hphase]
          exact hfd
      | some c =>
          obtain ⟨fd', hidle, hmine, -⟩ := h.shedding c hphase
          rw [hidle]
          exact hkeep hmine (by simp)
  | reopen failure =>
      cases hw
      unfold Acceptor.reopen
      split
      · rename_i fd' hlow
        exact entry_install_of hlow hfd
      · exact hfd
      · exact hfd
  | openOther =>
      simp only [Acceptor.step] at hw
      split at hw
      · rename_i fd' hlow
        cases hw
        exact entry_install_of hlow hfd
      · cases hw
        exact hfd
  | closeOther fd' =>
      cases hw
      refine entry_close_iff.mpr ⟨?_, hfd⟩
      rintro rfl
      exact hl rfl
  | arrive c | setErrno errno =>
      cases hw
      exact hfd

end Acceptor

open Acceptor

/-- In every run, whatever other threads do between the system calls: each
connection is waiting, handed on, closed or in the hands of one call, and none
of them twice; a descriptor that the acceptor has opened and not handed on is
the reserve, or of the connection in its hands, or is descriptor `0`, with the
one connection that it can lose; and it closes nothing that belongs to the rest
of the program. -/
theorem acceptor_accounts {w₀ : Acceptor Conn} (hinit : Constructed w₀)
    {ls : List (AcceptorLabel Conn)} {w : Acceptor Conn} (hrun : acceptor.Run w₀ ls w) :
    w.arrived.Perm (w.backlog ++ w.delivered ++ w.rejected ++ w.shed ++ w.leaked ++ w.aborted ++
      w.phase.inHand) ∧
    w.leaked.length ≤ 1 ∧
    (∀ fd c, w.files.entry fd = some (.accepted c) →
      c ∈ w.phase.inHand ∨ fd = 0 ∧ w.leaked = [c]) ∧
    (∀ fd, w.files.entry fd = some .devNull → w.idleFd_ = some fd) ∧
    ∀ l w' fd, acceptor.Step w l w' → l ≠ .closeOther fd →
      w.files.entry fd = some .program → w'.files.entry fd = some .program := by
  have howned : Owned w :=
    hrun.invariant hinit.owned fun _ _ _ h hstep => h.step hstep.1 hstep.2
  have haccounted : Accounted w :=
    hrun.invariant hinit.accounted fun _ _ _ h hstep => h.step hstep.1 hstep.2
  refine ⟨?_, ?_, ?_, ?_, ?_⟩
  · rw [← Multiset.coe_eq_coe]
    simp only [← Multiset.coe_add]
    exact haccounted
  · rcases howned.leaked with hl | ⟨c, hl, -⟩ <;> simp [hl]
  · intro fd c hacc
    rcases howned.accepted fd c hacc with hp | ⟨hp, -⟩ | hlost
    · exact .inl (by simp [hp, AcceptPhase.inHand])
    · exact .inl (by simp [hp, AcceptPhase.inHand])
    · exact .inr hlost
  · exact fun fd hd => ((howned.reserve fd).mp hd).2
  · exact fun l w' fd hstep hl hfd => howned.program_kept hstep.1 hstep.2 hl hfd

/-- Descriptor `0` is free and nobody takes connections: the first one is lost,
the second is closed. -/
theorem acceptor_accounts_zero :
    ∃ (ls : List (AcceptorLabel Char)) (w₀ w : Acceptor Char),
      acceptor.Run w₀ ls w ∧ w.leaked = ['a'] ∧ w.rejected = ['b'] ∧ w.arrived = ['a', 'b'] ∧
      ∀ fd c, w.files.entry fd = some (.accepted c) → c ∈ w.phase.inHand ∨ fd = 0 := by
  let w₀ : Acceptor Char := {
    idleFd_ := some 2, acceptSocket_ := 1, newConnCallback_ := false
    files := [none, some .acceptSocket, some .devNull, none] }
  have hinit : Constructed w₀ := {
    idle := ⟨2, rfl, by decide⟩
    phase := rfl
    devNull := by
      rintro (_ | _ | _ | _ | fd) <;> simp [w₀, entry]
    socket := rfl
    accepted := by
      rintro (_ | _ | _ | _ | fd) c <;> simp [w₀, entry]
    backlog := rfl
    lists := ⟨rfl, rfl, rfl, rfl, rfl⟩ }
  have hrun : ∃ w, acceptor.Run w₀
      [.arrive 'a', .arrive 'b', .accept none, .accept none, .reject] w ∧
      w.leaked = ['a'] ∧ w.rejected = ['b'] ∧ w.arrived = ['a', 'b'] :=
    ⟨_, .cons ⟨trivial, rfl⟩ (.cons ⟨trivial, rfl⟩ (.cons ⟨⟨rfl, rfl⟩, rfl⟩
      (.cons ⟨⟨rfl, rfl⟩, rfl⟩ (.cons ⟨⟨_, _, rfl⟩, rfl⟩ (.nil _))))), rfl, rfl, rfl⟩
  obtain ⟨w, hrun, hleaked, hrejected, harrived⟩ := hrun
  refine ⟨_, w₀, w, hrun, hleaked, hrejected, harrived, fun fd c hacc => ?_⟩
  exact ((acceptor_accounts hinit hrun).2.2.1 fd c hacc).imp_right And.left

end Ham.Net
