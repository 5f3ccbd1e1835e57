import Ham.Net.Acceptance

/-!
# Out of descriptors

`handleRead` keeps a descriptor in reserve: when `accept` fails with `EMFILE` it
gives the reserve up, accepts one connection in its place, closes it, and takes
the reserve again. So a full process still gets rid of the connections that
wait (`storm_drains`), as long as no other thread opens a descriptor while the
reserve is given up.

If one does, the reserve is lost, and `idleFd_` is `-1`. From then on, while the
process stays full, `handleRead` changes nothing: the connections stay where
they are, and the socket stays readable (`lost_reserve_starves`).
-/

namespace Ham.Net

open Ham.Lib Ham.Lib.Descriptors

variable {Conn : Type}

namespace Acceptor

variable {w w' : Acceptor Conn} {l : AcceptorLabel Conn} {fd : Nat} {c : Conn}

/-- No other thread opens a descriptor while the reserve is given up, and
`/dev/null` can be opened if there is a descriptor for it. -/
def Undisturbed (w : Acceptor Conn) : AcceptorLabel Conn → Prop
  | .openOther => w.phase.reserved = true
  | .reopen (some _) => w.files.lowest = none
  | _ => True

/-- The reserve is there, or can be had. -/
structure Reserved (w : Acceptor Conn) : Prop where
  there : w.phase.reserved = true → w.idleFd_ ≠ none
  free : w.phase = .draining ∨ w.phase = .shedding none ∨ w.phase = .reopening →
    w.files.lowest ≠ none

theorem Constructed.kept (h : Constructed w) : Reserved w where
  there := by
    intro _
    obtain ⟨fd, hidle, -⟩ := h.idle
    simp [hidle]
  free := by simp [h.phase]

theorem Reserved.handleRead (h : Reserved w) {failure : Option AcceptErrno}
    (hphase : w.phase = .idle) (hw : w.handleRead failure = .ok w') : Reserved w' := by
  have hthere := h.there (by rw [hphase]; rfl)
  have hgoesOn : ∀ (full : Prop) [Decidable full] (w' : Acceptor Conn), w'.idleFd_ = w.idleFd_ →
      w'.phase = (if full then .dropping else .idle) → Reserved w' := by
    intro full _ w' hidle hp
    refine ⟨fun _ => hidle ▸ hthere, ?_⟩
    rw [hp]
    split <;> simp
  unfold Acceptor.handleRead at hw
  split at hw
  · simp only at hw
    split at hw
    · split at hw <;> cases hw <;> exact ⟨fun _ => hthere, by simp [hphase]⟩
    · cases hw
      exact hgoesOn _ _ rfl rfl
  · cases hw
    exact h
  · rename_i next e
    split at hw <;> cases hw
    exact hgoesOn (e = .EMFILE) _ (failAccept_idleFd e) rfl

theorem Reserved.step (h : Reserved w) (howned : Owned w) (hen : w.Enabled l)
    (hl : w.Undisturbed l) (hw : w.step l = .ok w') : Reserved w' := by
  cases l with
  | arrive c | setErrno errno =>
      cases hw
      exact ⟨h.there, h.free⟩
  | accept failure => exact h.handleRead hen.1 hw
  | reject =>
      obtain ⟨connfd, c, hphase⟩ := hen
      have hthere := h.there (by rw [hphase]; rfl)
      simp only [Acceptor.step, hphase] at hw
      cases hw
      exact ⟨fun _ => hthere, by simp⟩
  | closeIdle =>
      have hphase : w.phase = .dropping := hen
      have hres : w.phase.reserved = true := by rw [hphase]; rfl
      obtain ⟨fd, hidle⟩ := Option.ne_none_iff_exists'.mp (h.there hres)
      cases hw
      rw [hidle]
      refine ⟨by simp [AcceptPhase.reserved], fun _ => ?_⟩
      exact lowest_close_ne (.inr ((howned.reserve fd).mpr ⟨hres, hidle⟩))
  | acceptIdle failure =>
      obtain ⟨hphase, -⟩ := hen
      have hfree := h.free (.inl hphase)
      cases hw
      unfold Acceptor.acceptIdle
      split
      · exact ⟨by simp [AcceptPhase.reserved], by simp⟩
      · exact h
      · exact ⟨by simp [AcceptPhase.reserved], fun _ => by simpa using hfree⟩
  | closeAccepted =>
      obtain ⟨held, hphase⟩ := hen
      simp only [Acceptor.step, hphase] at hw
      cases hw
      refine ⟨by simp [AcceptPhase.reserved], fun _ => ?_⟩
      cases held with
      | none =>
          rw [howned.unheld hphase]
          exact h.free (.inr (.inl hphase))
      | some c =>
          obtain ⟨fd, hidle, hmine, -⟩ := howned.shedding c hphase
          rw [hidle]
          exact lowest_close_ne (.inr hmine)
  | reopen failure =>
      obtain ⟨hphase, -⟩ := hen
      have hfree := h.free (.inr (.inr hphase))
      cases hw
      unfold Acceptor.reopen
      split
      · exact ⟨by simp, by simp⟩
      · exact h
      · exact absurd hl hfree
  | openOther =>
      have hres : w.phase.reserved = true := hl
      have hthere := h.there hres
      simp only [Acceptor.step] at hw
      split at hw
      · cases hw
        refine ⟨fun _ => hthere, ?_⟩
        rintro (hp | hp | hp) <;> rw [show w.phase = _ from hp] at hres <;> cases hres
      · cases hw
        exact h
  | closeOther fd =>
      cases hw
      exact ⟨h.there, fun hp => lowest_close_ne (.inl (h.free hp) : _ ∨ w.files.entry fd = some .program)⟩

/-- One `handleRead` of a full process. -/
theorem shed_one (howned : Owned w) (hphase : w.phase = .idle) (hfull : w.files.Full)
    (hidle : w.idleFd_ = some fd) {rest : List Conn} (hback : w.backlog = c :: rest) :
    (acceptor.restrict Undisturbed).Run w
      [.accept (some .EMFILE), .closeIdle, .acceptIdle none, .closeAccepted, .reopen none]
      { w with errno := some .EMFILE, backlog := rest, shed := w.shed ++ [c] } := by
  have hmine : w.files.entry fd = some .devNull :=
    (howned.reserve fd).mpr ⟨by rw [hphase]; rfl, hidle⟩
  have hnone : w.files.lowest = none := lowest_eq_none.mpr hfull
  have hfree : (w.files.close fd).lowest = some fd := hfull.lowest_close hmine
  have hstep : ∀ {w w' : Acceptor Conn} {l : AcceptorLabel Conn}, w.Enabled l →
      w.Undisturbed l → w.step l = .ok w' → (acceptor.restrict Undisturbed).Step w l w' :=
    fun hen hl hw => System.restrict_step.mpr ⟨⟨hen, hw⟩, hl⟩
  -- the reserve goes, and its descriptor is the one that `accept` finds
  let w₁ : Acceptor Conn := { w with errno := some .EMFILE, phase := .dropping }
  let w₂ : Acceptor Conn := { w₁ with files := w.files.close fd, phase := .draining }
  let w₃ : Acceptor Conn := { w₂ with
    idleFd_ := some fd, files := (w.files.close fd).install fd (.accepted c), backlog := rest
    phase := .shedding (some c) }
  let w₄ : Acceptor Conn := { w₃ with
    files := w.files.close fd, shed := w.shed ++ [c], phase := .reopening }
  have h₁ : w.step (.accept (some .EMFILE)) = .ok w₁ := rfl
  have h₂ : w₁.step .closeIdle = .ok w₂ := by
    show Except.ok { w₁.close w.idleFd_ with phase := .draining } = _
    rw [hidle]
    rfl
  have hnext : w₂.next = some (fd, c) := by
    simp [next, w₂, w₁, hfree, hback]
  have h₃ : w₂.step (.acceptIdle none) = .ok w₃ := by
    have htail : w₂.backlog.tail = rest := by simp [w₂, w₁, hback]
    simp only [Acceptor.step, acceptIdle, hnext, htail]
    rfl
  have h₄ : w₃.step .closeAccepted = .ok w₄ := by
    have hclose : w₃.files.close fd = w.files.close fd := close_install hfree
    simp only [Acceptor.step, w₃, Acceptor.close, Option.toList_some]
    rw [show ((w.files.close fd).install fd (.accepted c)).close fd = _ from hclose]
  have h₅ : w₄.step (.reopen none) =
      .ok { w with errno := some .EMFILE, backlog := rest, shed := w.shed ++ [c] } := by
    have hlow : w₄.files.lowest = some fd := hfree
    have hback' : w₄.files.install fd .devNull = w.files := install_close hmine
    simp only [Acceptor.step, Acceptor.reopen, hlow, hback', w₄, w₃, w₂, w₁]
    rw [← hidle, ← hphase]
  refine .cons (hstep ⟨hphase, ?_⟩ trivial h₁) (.cons (hstep rfl trivial h₂)
    (.cons (hstep ⟨rfl, ?_⟩ trivial h₃) (.cons (hstep ⟨_, rfl⟩ trivial h₄)
    (.cons (hstep ⟨rfl, ?_⟩ trivial h₅) (.nil _)))))
  · exact ⟨iff_of_true rfl hnone, by simp⟩
  · show w₂.next.isSome = true
    rw [hnext]
    rfl
  · intro _
    rw [show w₄.files.lowest = some fd from hfree]
    simp

/-- As many as wait. -/
theorem shed_all (howned : Owned w) (hphase : w.phase = .idle) (hfull : w.files.Full)
    (hidle : w.idleFd_ = some fd) :
    ∃ ls errno, (acceptor.restrict Undisturbed).Run w ls
      { w with errno := errno, backlog := [], shed := w.shed ++ w.backlog } := by
  generalize hback : w.backlog = conns
  induction conns generalizing w with
  | nil =>
      refine ⟨[], w.errno, ?_⟩
      rw [List.append_nil, ← hback]
      exact .nil w
  | cons c rest ih =>
      have hone := shed_one howned hphase hfull hidle hback
      obtain ⟨ls, errno, hrest⟩ := ih (w := { w with
        errno := some .EMFILE, backlog := rest, shed := w.shed ++ [c] })
        { howned with } hphase hfull hidle rfl
      have hrest : (acceptor.restrict Undisturbed).Run
          { w with errno := some .EMFILE, backlog := rest, shed := w.shed ++ [c] } ls
          { w with errno := errno, backlog := [], shed := w.shed ++ c :: rest } := by
        simpa using hrest
      exact ⟨_, errno, hone.append hrest⟩

/-! ## Without the reserve -/

/-- The acceptor and the process as they are when the reserve is lost. -/
structure Starved (w : Acceptor Conn) : Prop where
  full : w.files.Full
  lost : w.idleFd_ = none
  phase : w.phase.inHand = []

theorem Starved.step (h : Starved w) (hen : w.Enabled l) (hl : ∀ fd, l ≠ .closeOther fd)
    (hw : w.step l = .ok w') :
    Starved w' ∧ w'.delivered = w.delivered ∧ w'.rejected = w.rejected ∧ w'.shed = w.shed ∧
    w'.leaked = w.leaked ∧ w'.aborted = w.aborted ∧ w.backlog <+: w'.backlog := by
  have hnone : w.files.lowest = none := lowest_eq_none.mpr h.full
  have hnext : w.next = none := by
    unfold next
    rw [hnone]
  have hkept : ∀ w' : Acceptor Conn, w'.files = w.files → w'.idleFd_ = none →
      w'.phase.inHand = [] → Starved w' := by
    intro w' hfiles hidle hphase
    exact ⟨hfiles ▸ h.full, hidle, hphase⟩
  have hmile : ∀ e, w.CanFail (some e) → e = .EMFILE := fun e hcan => hcan.1.mpr hnone
  cases l with
  | arrive c =>
      cases hw
      exact ⟨hkept _ rfl h.lost h.phase, rfl, rfl, rfl, rfl, rfl, List.prefix_append _ _⟩
  | accept failure =>
      obtain ⟨hphase, hcan⟩ := hen
      cases failure with
      | none =>
          have hsome : w.next.isSome = true := hcan
          rw [hnext] at hsome
          cases hsome
      | some e =>
          obtain rfl := hmile e hcan
          cases hw
          exact ⟨hkept _ rfl h.lost rfl, rfl, rfl, rfl, rfl, rfl, List.prefix_rfl⟩
  | reject =>
      obtain ⟨connfd, c, hphase⟩ := hen
      have hhand := h.phase
      rw [hphase] at hhand
      cases hhand
  | closeIdle =>
      cases hw
      rw [h.lost]
      exact ⟨hkept _ rfl h.lost rfl, rfl, rfl, rfl, rfl, rfl, List.prefix_rfl⟩
  | acceptIdle failure =>
      obtain ⟨hphase, hcan⟩ := hen
      cases failure with
      | none =>
          have hsome : w.next.isSome = true := hcan
          rw [hnext] at hsome
          cases hsome
      | some e =>
          obtain rfl := hmile e hcan
          cases hw
          exact ⟨hkept _ rfl rfl rfl, rfl, rfl, rfl, rfl, rfl, List.prefix_rfl⟩
  | closeAccepted =>
      obtain ⟨held, hphase⟩ := hen
      have hhand := h.phase
      rw [hphase] at hhand
      cases held with
      | some c => cases hhand
      | none =>
          simp only [Acceptor.step, hphase, h.lost] at hw
          cases hw
          exact ⟨hkept _ rfl h.lost rfl, rfl, rfl, List.append_nil _, rfl, rfl, List.prefix_rfl⟩
  | reopen failure =>
      obtain ⟨hphase, hcan⟩ := hen
      cases failure with
      | none => exact absurd hnone (hcan rfl)
      | some e =>
          cases hw
          exact ⟨hkept _ rfl rfl rfl, rfl, rfl, rfl, rfl, rfl, List.prefix_rfl⟩
  | openOther => exact absurd hnone hen
  | closeOther fd => exact absurd rfl (hl fd)
  | setErrno errno =>
      cases hw
      exact ⟨hkept _ rfl h.lost h.phase, rfl, rfl, rfl, rfl, rfl, List.prefix_rfl⟩

end Acceptor

open Acceptor

/-- While no other thread opens a descriptor in the middle of it, `handleRead`
comes back with its reserve; and with the reserve a process without descriptors
can close every connection that waits, and is otherwise as it was. -/
theorem storm_drains {w₀ : Acceptor Conn} (hinit : Constructed w₀)
    {ls : List (AcceptorLabel Conn)} {w : Acceptor Conn}
    (hrun : (acceptor.restrict Undisturbed).Run w₀ ls w) (hphase : w.phase = .idle) :
    (∃ fd, w.idleFd_ = some fd ∧ w.files.entry fd = some .devNull) ∧
    (w.files.Full → ∃ ls' errno, (acceptor.restrict Undisturbed).Run w ls'
      { w with errno := errno, backlog := [], shed := w.shed ++ w.backlog }) := by
  obtain ⟨howned, hreserved⟩ : Owned w ∧ Reserved w := by
    refine hrun.invariant (I := fun w => Owned w ∧ Reserved w) ⟨hinit.owned, hinit.kept⟩ ?_
    rintro w l w' ⟨howned, hreserved⟩ hstep
    obtain ⟨⟨hen, hw⟩, hl⟩ := System.restrict_step.mp hstep
    exact ⟨howned.step hen hw, hreserved.step howned hen hl hw⟩
  have hres : w.phase.reserved = true := by rw [hphase]; rfl
  obtain ⟨fd, hidle⟩ := Option.ne_none_iff_exists'.mp (hreserved.there hres)
  refine ⟨⟨fd, hidle, (howned.reserve fd).mpr ⟨hres, hidle⟩⟩, fun hfull => ?_⟩
  exact shed_all howned hphase hfull hidle

/-- Three descriptors, and two connections that find none. -/
theorem storm_drains_two :
    ∃ (ls : List (AcceptorLabel Char)) (w w' : Acceptor Char),
      (acceptor.restrict Undisturbed).Run w ls w' ∧ w.backlog = ['a', 'b'] ∧
      w'.backlog = [] ∧ w'.shed = ['a', 'b'] := by
  let w₀ : Acceptor Char := {
    idleFd_ := some 2, acceptSocket_ := 1, newConnCallback_ := true
    files := [some .program, some .acceptSocket, some .devNull] }
  have hinit : Constructed w₀ := {
    idle := ⟨2, rfl, by decide⟩
    phase := rfl
    devNull := by
      rintro (_ | _ | _ | fd) <;> simp [w₀, entry]
    socket := rfl
    accepted := by
      rintro (_ | _ | _ | fd) c <;> simp [w₀, entry]
    backlog := rfl
    lists := ⟨rfl, rfl, rfl, rfl, rfl⟩ }
  have hrun : ∃ w, (acceptor.restrict Undisturbed).Run w₀ [.arrive 'a', .arrive 'b'] w ∧
      w.phase = .idle ∧ w.files.Full ∧ w.backlog = ['a', 'b'] ∧ w.shed = [] :=
    ⟨_, .cons ⟨⟨trivial, trivial⟩, rfl⟩ (.cons ⟨⟨trivial, trivial⟩, rfl⟩ (.nil _)), rfl,
      by simp [w₀, Full], rfl, rfl⟩
  obtain ⟨w, hrun, hphase, hfull, hback, hshed⟩ := hrun
  obtain ⟨ls, errno, hdrain⟩ := (storm_drains hinit hrun hphase).2 hfull
  exact ⟨ls, w, _, hdrain, hback, rfl, by simp [hback, hshed]⟩

/-- A process without descriptors and without the reserve: until some descriptor
is closed, whatever `handleRead` does leaves every connection that waits where
it is, and takes no other. -/
theorem lost_reserve_starves {w w' : Acceptor Conn} {ls : List (AcceptorLabel Conn)}
    (hfull : w.files.Full) (hlost : w.idleFd_ = none) (hphase : w.phase = .idle)
    (hrun : acceptor.Run w ls w') (hclose : ∀ fd, .closeOther fd ∉ ls) :
    w'.idleFd_ = none ∧ w.backlog <+: w'.backlog ∧ w'.delivered = w.delivered ∧
    w'.rejected = w.rejected ∧ w'.shed = w.shed := by
  have hmeets : (acceptor.restrict fun _ l => ∀ fd, l ≠ .closeOther fd).Run w ls w' := by
    refine System.run_restrict_labels.mpr ⟨hrun, ?_⟩
    rintro l hl fd rfl
    exact hclose fd hl
  obtain ⟨hstarved, hback, hd, hr, hs⟩ : Starved w' ∧ w.backlog <+: w'.backlog ∧
      w'.delivered = w.delivered ∧ w'.rejected = w.rejected ∧ w'.shed = w.shed := by
    refine hmeets.invariant (I := fun s => Starved s ∧ w.backlog <+: s.backlog ∧
      s.delivered = w.delivered ∧ s.rejected = w.rejected ∧ s.shed = w.shed)
      ⟨⟨hfull, hlost, by rw [hphase]; rfl⟩, List.prefix_rfl, rfl, rfl, rfl⟩ ?_
    rintro s l s' ⟨h, hback, hd, hr, hs⟩ hstep
    obtain ⟨⟨hen, hw⟩, hl⟩ := System.restrict_step.mp hstep
    obtain ⟨h', hd', hr', hs', -, -, hback'⟩ := h.step hen hl hw
    exact ⟨h', hback.trans hback', hd'.trans hd, hr'.trans hr, hs'.trans hs⟩
  exact ⟨hstarved.lost, hback, hd, hr, hs⟩

/-- Another thread takes the descriptor of the reserve, and the next `handleRead`
gets nowhere. -/
theorem lost_reserve_starves_taken :
    ∃ (ls ls' : List (AcceptorLabel Char)) (w₀ w w' : Acceptor Char),
      acceptor.Run w₀ ls w ∧ w₀.idleFd_ = some 2 ∧ acceptor.Run w ls' w' ∧
      w.backlog = ['a'] ∧ ['a'] <+: w'.backlog := by
  let w₀ : Acceptor Char := {
    idleFd_ := some 2, acceptSocket_ := 1, newConnCallback_ := true
    files := [some .program, some .acceptSocket, some .devNull] }
  have hlose : ∃ w, acceptor.Run w₀ [.arrive 'a', .accept (some .EMFILE), .closeIdle, .openOther,
      .acceptIdle (some .EMFILE), .closeAccepted, .reopen (some .EMFILE)] w ∧
      w.files = [some .program, some .acceptSocket, some .program] ∧ w.idleFd_ = none ∧
      w.phase = .idle ∧ w.backlog = ['a'] := by
    refine ⟨_, .cons ⟨trivial, rfl⟩ (.cons ⟨⟨rfl, ?_⟩, rfl⟩ (.cons ⟨rfl, rfl⟩ (.cons ⟨?_, rfl⟩
      (.cons ⟨⟨rfl, ?_⟩, rfl⟩ (.cons ⟨⟨_, rfl⟩, rfl⟩ (.cons ⟨⟨rfl, ?_⟩, rfl⟩ (.nil _))))))),
      rfl, rfl, rfl, rfl⟩
    · exact ⟨iff_of_true rfl rfl, by simp⟩
    · exact Option.some_ne_none 2
    · exact ⟨iff_of_true rfl rfl, by simp⟩
    · simp
  obtain ⟨w, hlose, hfiles, hidle, hphase, hback⟩ := hlose
  have hfull : w.files.Full := by simp [hfiles, Full]
  have hnone := lowest_eq_none.mpr hfull
  have hagain : ∃ w', acceptor.Run w [.accept (some .EMFILE), .closeIdle] w' :=
    ⟨_, .cons ⟨⟨hphase, iff_of_true rfl hnone, by simp⟩, rfl⟩ (.cons ⟨rfl, rfl⟩ (.nil _))⟩
  obtain ⟨w', hagain⟩ := hagain
  have hstarves := (lost_reserve_starves hfull hidle hphase hagain (by simp)).2.1
  rw [hback] at hstarves
  exact ⟨_, _, w₀, w, w', hlose, rfl, hagain, hback, hstarves⟩

end Ham.Net
