import P42Prizes.Frontier
import P42Prizes.Register

/-! # The frontier of a board

The submission manager and the ledger together keep a `Frontier`: the finalized submissions are
its standing records, measured against `bestScoreAtoms` with the floor `minImprovementAtoms`, and
`creditRecoveryEndsAt` is its mark.  `frontier_stepped` says what a step of the board does to it,
if the submission manager is the credit recorder of the ledger: a `finalize` sets a record, a
`voidFinalize` retracts one, and nothing else touches it. -/

namespace P42Prizes

open Reverting Function Transition Finset

/-- The record that a finalized submission stands for. -/
def Entry.standing (x : Entry) : Option (Record Address) :=
  if x.sub.status = .finalized then
    some ⟨x.sub.solver, x.sub.claimedScoreAtoms, x.info.prevBestScoreAtoms, x.info.creditAtoms,
      x.info.prevCreditRecoveryEndsAt⟩
  else none

def SubmissionManager.frontier (l : PayoutLedger) (s : SubmissionManager) : Frontier ℕ Address where
  best := s.bestScoreAtoms
  total := l.totalCreditAtoms
  mark := s.creditRecoveryEndsAt
  credits := l.creditAtomsOf
  records id := (s.entry id).standing
  ids := range (s.submissionCount + 1)

def World.frontier (w : World) : Frontier ℕ Address := w.sm.frontier w.ledger

/-- What a call of the submission manager does to the frontier. -/
inductive FrontierMove (floor : ℕ) (f : Frontier ℕ Address) : ManagerCall → Frontier ℕ Address → Prop
  | rest {c : ManagerCall} {ids : Finset ℕ} :
      (∀ id, c ≠ .voidFinalize id) → f.ids ⊆ ids → FrontierMove floor f c (f.widen ids)
  | set {id : ℕ} {h : Bytes32} {r : Record Address} (t : ℕ) :
      id ∈ f.ids → f.records id = none → f.Measures floor r →
      FrontierMove floor f (.finalize id h) (f.set floor id r t)
  | retract {id : ℕ} {r : Record Address} :
      f.records id = some r → f.best = r.score → r.before ≠ r.score →
      FrontierMove floor f (.voidFinalize id) (f.retract id r)

namespace SubmissionManager

variable {d : Deployment} {e : Env} {l l' : PayoutLedger} {p : BountyPool}
  {s s' : SubmissionManager} {c : ManagerCall} {f : List Frame}

/-- Only `finalize` and `voidFinalize` change which records stand. -/
theorem Turn.standing {id : ℕ} {y : Entry} (h : Turn d e l s c id y)
    (hc : ∀ hash, c ≠ .finalize id hash) (hv : c ≠ .voidFinalize id) :
    y.standing = (s.entry id).standing := by
  have hnone : ∀ status, (s.submissions id).status = status → status ≠ .finalized →
      (s.entry id).standing = .none := by
    intro status hs hne
    have hstatus : (s.entry id).sub.status ≠ .finalized := by
      show (s.submissions id).status ≠ .finalized
      rw [hs]
      exact hne
    exact if_neg hstatus
  cases h with
  | addBond => rfl
  | reveal hs => rw [hnone _ hs (by decide)]; rfl
  | yield hs => rw [hnone _ hs (by decide)]; rfl
  | retire hs =>
      obtain hs | hs | ⟨hs, -⟩ := hs
      · rw [hnone _ hs (by decide)]; rfl
      · rw [hnone _ hs (by decide)]; rfl
      · rw [hnone _ hs (by decide)]; rfl
  | finalize => exact absurd rfl (hc _)
  | release => rfl
  | void => exact absurd rfl hv
  | mark _ hs => rw [hnone _ hs (by decide)]; rfl
  | rearm _ _ hs => rw [hnone _ hs (by decide)]; rfl
  | clear _ hs => rw [hnone _ hs (by decide)]; rfl

theorem Turns.standing {n : ℕ} {entries : ℕ → Entry} (h : Turns d e l s c n entries)
    (hr : Registered s.submissionCount s.entry) (hc : ∀ id hash, c ≠ .finalize id hash)
    (hv : ∀ id, c ≠ .voidFinalize id) :
    (fun id => (entries id).standing) = fun id => (s.entry id).standing := by
  funext j
  by_cases hj : j ≤ s.submissionCount
  · obtain hsame | hturn := h.of_le hj
    · rw [hsame]
    · exact hturn.standing (hc j) (hv j)
  · have hsolver : ¬ (s.entry j).sub.solver ≠ 0 := by
      rw [hr.solver]
      omega
    have hstatus := (hr.status j).mpr (not_not.mp hsolver)
    have hold : (s.entry j).standing = .none := if_neg (by rw [hstatus]; decide)
    rw [hold]
    cases h with
    | none => exact hold
    | @commit sub t _ _ _ hs =>
        by_cases hjc : j = s.submissionCount + 1
        · rw [hjc, update_self]
          exact if_neg (by show sub.status ≠ _; rw [hs]; decide)
        · rw [update_of_ne hjc]
          exact hold
    | @one id y hy =>
        have hid : id ≤ s.submissionCount := (hr.le hy.registered.2.1).2
        rw [update_of_ne (by omega)]
        exact hold
    | @two id id' y y' hy hy' _ =>
        have hid : id ≤ s.submissionCount := (hr.le hy.registered.2.1).2
        have hid' : id' ≤ s.submissionCount := (hr.le hy'.registered.2.1).2
        rw [update_of_ne (by omega), update_of_ne (by omega)]
        exact hold

theorem frontier_ext {f₁ f₂ : Frontier ℕ Address} (hlevel : f₁.toLevel = f₂.toLevel)
    (hcredits : f₁.credits = f₂.credits) (hrecords : f₁.records = f₂.records)
    (hids : f₁.ids = f₂.ids) : f₁ = f₂ := by
  cases f₁
  cases f₂
  simp_all

/-- A call that is no `finalize` and no `voidFinalize` leaves the scores and the ledger alone. -/
theorem Move.rest (h : Move d e l p s c s' l' f) (hc : ∀ id hash, c ≠ .finalize id hash)
    (hv : ∀ id, c ≠ .voidFinalize id) : s'.toFrontierState = s.toFrontierState ∧ l' = l := by
  by_cases hreveal : c.IsReveal
  · refine ⟨congrArg Reserve.frontier (h.reserve_of_reveal hreveal), ?_⟩
    cases h with
    | reveal => rfl
    | administer => rfl
    | retire => rfl
    | rearm => rfl
    | _ => exact hreveal.elim
  · cases h with
    | administer _ hadmin => exact ⟨hadmin.frontier, rfl⟩
    | reveal => exact absurd trivial hreveal
    | finalize => exact absurd rfl (hc _ _)
    | void => exact absurd rfl (hv _)
    | _ => exact ⟨rfl, rfl⟩

theorem standing_eq_none {id : ℕ} (h : (s.submissions id).status ≠ .finalized) :
    (s.entry id).standing = none := if_neg h

theorem standing_of_finalized {id : ℕ} (h : (s.submissions id).status = .finalized) :
    (s.entry id).standing = some ⟨(s.submissions id).solver, (s.submissions id).claimedScoreAtoms,
      (s.finalizeInfo id).prevBestScoreAtoms, (s.finalizeInfo id).creditAtoms,
      (s.finalizeInfo id).prevCreditRecoveryEndsAt⟩ := if_pos h

/-- The record that `finalize` sets. -/
def newRecord (d : Deployment) (id : ℕ) (s : SubmissionManager) : Record Address :=
  ⟨(s.submissions id).solver, (s.submissions id).claimedScoreAtoms, s.bestScoreAtoms,
    s.creditOf d id, s.creditRecoveryEndsAt⟩

theorem gain_eq_advances (id : ℕ) : s.gain d (s.submissions id).claimedScoreAtoms =
    if (s.newRecord d id).Advances d.sm.minImprovementAtoms then
      (s.bestScoreAtoms - (s.submissions id).claimedScoreAtoms).toNat else 0 := rfl

theorem gain_ne_zero_iff (id : ℕ) : s.gain d (s.submissions id).claimedScoreAtoms ≠ 0 ↔
    (s.newRecord d id).Advances d.sm.minImprovementAtoms := by
  rw [gain_eq_advances]
  split
  · rename_i hadv
    have hlt := hadv.1
    simp only [newRecord] at hlt
    simp only [hadv, iff_true]
    omega
  · rename_i hadv
    simp only [hadv, ne_eq, not_true_eq_false]

theorem creditOf_ne_zero {id : ℕ} (h : s.creditOf d id ≠ 0) : s.paidAtCommit id = true ∧
    s.creditOf d id = s.gain d (s.submissions id).claimedScoreAtoms := by
  unfold creditOf at h ⊢
  split
  · rename_i hpaid
    exact ⟨hpaid, rfl⟩
  · rename_i hpaid
    rw [if_neg hpaid] at h
    exact absurd rfl h

/-- `finalize` measures the claim against the frontier. -/
theorem newRecord_measures (l : PayoutLedger) (id : ℕ) :
    (s.frontier l).Measures d.sm.minImprovementAtoms (s.newRecord d id) := by
  refine ⟨rfl, rfl, fun hc => ?_⟩
  change s.creditOf d id ≠ 0 at hc
  obtain ⟨-, hcredit⟩ := creditOf_ne_zero hc
  rw [hcredit] at hc
  have hadv := (gain_ne_zero_iff id).mp hc
  refine ⟨hadv, ?_⟩
  have hlt := hadv.1
  show ((s.creditOf d id : ℕ) : ℤ) = s.bestScoreAtoms - (s.submissions id).claimedScoreAtoms
  simp only [newRecord] at hlt
  rw [hcredit, gain_eq_advances, if_pos hadv]
  omega

theorem finalized_frontier (id : ℕ) (h : Bytes32) (l : PayoutLedger) :
    (s.finalized d e id h p).frontier (if s.creditOf d id = 0 then l
      else l.credit (s.submissions id).solver (s.creditOf d id)) =
    (s.frontier l).set d.sm.minImprovementAtoms id (s.newRecord d id)
      (e.now + creditFinalizeRecoveryDelay) := by
  have hfrontier : (s.finalized d e id h p).toFrontierState =
      { bestScoreAtoms := if s.gain d (s.submissions id).claimedScoreAtoms ≠ 0 then
          (s.submissions id).claimedScoreAtoms else s.bestScoreAtoms
        creditRecoveryEndsAt := if s.creditOf d id ≠ 0 then e.now + creditFinalizeRecoveryDelay
          else s.creditRecoveryEndsAt
        finalizeInfo := update s.finalizeInfo id
          ⟨s.bestScoreAtoms, s.creditOf d id, s.creditRecoveryEndsAt⟩ } := by
    unfold finalized
    dsimp only
    by_cases hc : s.creditOf d id = 0
    · rw [if_pos hc]
      rfl
    · rw [if_neg hc]
      rfl
  refine frontier_ext ?_ ?_ ?_ ?_
  · have hadv := gain_ne_zero_iff (d := d) (s := s) id
    have hbest := congrArg FrontierState.bestScoreAtoms hfrontier
    have hmark := congrArg FrontierState.creditRecoveryEndsAt hfrontier
    simp only [hadv] at hbest
    show Level.mk (s.finalized d e id h p).bestScoreAtoms _
      (s.finalized d e id h p).creditRecoveryEndsAt = Level.mk _ _ _
    rw [hbest, hmark]
    congr 1
    · split
      · rename_i hc
        rw [show (s.newRecord d id).credit = 0 from hc]
        rfl
      · rfl
    · by_cases hc : s.creditOf d id = 0
      · rw [if_neg (not_not.mpr hc), if_pos (show (s.newRecord d id).credit = 0 from hc)]
        rfl
      · rw [if_pos hc, if_neg (show (s.newRecord d id).credit ≠ 0 from hc)]
  · show PayoutLedger.creditAtomsOf (if _ then l else _) = update l.creditAtomsOf _ _
    split
    · rename_i hc
      rw [show (s.newRecord d id).credit = 0 from hc]
      simp [frontier]
    · rfl
  · funext j
    show ((s.finalized d e id h p).entry j).standing =
      update (fun id => (s.entry id).standing) id _ j
    rw [entry_finalized]
    by_cases hj : j = id
    · subst hj
      rw [update_self, update_self]
      rfl
    · rw [update_of_ne hj, update_of_ne hj]
  · show range _ = range _
    rw [finalized_submissionCount]

theorem voided_frontier {id : ℕ} {r : Record Address} (hr : (s.entry id).standing = some r)
    (l : PayoutLedger) :
    (s.voided d id).frontier (if r.credit = 0 then l else l.uncredit r.account r.credit) =
      (s.frontier l).retract id r := by
  have hstatus : (s.submissions id).status = .finalized := by
    by_contra hne
    rw [standing_eq_none hne] at hr
    cases hr
  rw [standing_of_finalized hstatus] at hr
  cases hr
  dsimp only
  refine frontier_ext ?_ ?_ ?_ rfl
  · show Level.mk _ _ _ = Level.mk _ _ _
    congr 1
    · split
      · rename_i hc
        rw [hc]
        rfl
      · rfl
    · by_cases hc : (s.finalizeInfo id).creditAtoms = 0
      · rw [if_pos hc]
        exact if_neg (not_not.mpr hc)
      · rw [if_neg hc]
        exact if_pos hc
  · show PayoutLedger.creditAtomsOf (if _ then l else _) = update l.creditAtomsOf _ _
    split
    · rename_i hc
      rw [hc]
      simp [frontier]
    · rfl
  · funext j
    show ((s.voided d id).entry j).standing = update (fun id => (s.entry id).standing) id none j
    rw [voided, entry_note, entry_payBond, entry_voidAs, update_self, update_idem]
    by_cases hj : j = id
    · subst hj
      rw [update_self, update_self]
      rfl
    · rw [update_of_ne hj, update_of_ne hj]

/-- The frontier sees only the credits of the ledger. -/
theorem frontier_congr {l₁ l₂ : PayoutLedger} (htotal : l₁.totalCreditAtoms = l₂.totalCreditAtoms)
    (hcredits : l₁.creditAtomsOf = l₂.creditAtomsOf) : s.frontier l₁ = s.frontier l₂ := by
  unfold frontier
  rw [htotal, hcredits]

theorem finalize_frontier {id : ℕ} {hash : Bytes32}
    (h : s.finalize d e id hash l p = .ok (s', l')) (hr : Registered s.submissionCount s.entry) :
    FrontierMove d.sm.minImprovementAtoms (s.frontier l) (.finalize id hash) (s'.frontier l') := by
  obtain ⟨-, -, -, hstatus, -, hcase⟩ := finalize_eq_ok.mp h
  have hnone : (s.entry id).standing = none := standing_eq_none (by rw [hstatus]; decide)
  split at hcase
  · obtain ⟨-, -, hcredit, rfl⟩ := finalizePriority_eq_ok.mp hcase
    have hl : (s.finalized d e id hash p).frontier l' = (s.finalized d e id hash p).frontier
        (if s.creditOf d id = 0 then l
          else l.credit (s.submissions id).solver (s.creditOf d id)) := by
      split at hcredit
      · rename_i hc
        rw [if_pos hc, hcredit.2]
      · rename_i hc
        obtain ⟨-, -, -, -, rfl⟩ := PayoutLedger.recordCredit_ok hcredit.2.2
        rw [if_neg hc]
        exact frontier_congr rfl rfl
    have hne : (s.entry id).sub.status ≠ .none := by
      show (s.submissions id).status ≠ .none
      rw [hstatus]
      decide
    rw [hl, finalized_frontier]
    exact .set _ (mem_range.mpr (Nat.lt_succ_of_le (hr.le hne).2)) hnone (newRecord_measures l id)
  · obtain ⟨hdup, rfl⟩ := hcase
    obtain ⟨-, -, rfl⟩ := finalizeDuplicate_eq_ok.mp hdup
    have hstanding : (fun j => ((((s.retire id .revealed .rejected).payBond id
        (s.submissions id).solver).note [.duplicateSubmissionRejected (s.solutionCidHashOf id) id
          (s.prioritySubmissionOf (s.solutionCidHashOf id))]).entry j).standing) =
        fun j => (s.entry j).standing := by
      rw [rejectedEntry_eq]
      funext j
      by_cases hj : j = id
      · subst hj
        rw [update_self, hnone]
        rfl
      · rw [update_of_ne hj]
    have heq : (((s.retire id .revealed .rejected).payBond id (s.submissions id).solver).note
        [.duplicateSubmissionRejected (s.solutionCidHashOf id) id
          (s.prioritySubmissionOf (s.solutionCidHashOf id))]).frontier l' =
        (s.frontier l').widen (range (s.submissionCount + 1)) := frontier_ext rfl rfl hstanding rfl
    rw [heq]
    exact .rest (fun _ => nofun) Subset.rfl

theorem voidFinalize_frontier {id : ℕ} (h : s.voidFinalize d e id l = .ok (s', l')) :
    FrontierMove d.sm.minImprovementAtoms (s.frontier l) (.voidFinalize id) (s'.frontier l') := by
  obtain ⟨-, -, -, -, -, hstatus, hbest, hprev, hcredit, rfl⟩ := voidFinalize_ok h
  have hrec := standing_of_finalized hstatus
  have hl : (s.voided d id).frontier l' = (s.voided d id).frontier
      (if (s.finalizeInfo id).creditAtoms = 0 then l
        else l.uncredit (s.submissions id).solver (s.finalizeInfo id).creditAtoms) := by
    split at hcredit
    · rename_i hc
      rw [if_pos hc, hcredit]
    · rename_i hc
      obtain ⟨-, -, -, -, -, rfl⟩ := PayoutLedger.voidCredit_ok hcredit
      rw [if_neg hc]
      exact frontier_congr rfl rfl
  rw [hl, voided_frontier hrec l]
  exact .retract hrec hbest hprev

/-- Every call of the submission manager is a move of the frontier. -/
theorem frontier_of_run (h : c.run d e l p s = .ok (s', l', f))
    (hr : Registered s.submissionCount s.entry) :
    FrontierMove d.sm.minImprovementAtoms (s.frontier l) c (s'.frontier l') := by
  by_cases hc : ∀ id hash, c ≠ .finalize id hash
  · by_cases hv : ∀ id, c ≠ .voidFinalize id
    · have hmove := move_of_run h
      obtain ⟨hfrontier, rfl⟩ := hmove.rest hc hv
      have hstanding := hmove.turns.standing hr hc hv
      have hcount := hmove.turns.le
      have heq : s'.frontier l' = (s.frontier l').widen (range (s'.submissionCount + 1)) := by
        refine frontier_ext ?_ rfl hstanding rfl
        show Level.mk s'.toFrontierState.bestScoreAtoms _ s'.toFrontierState.creditRecoveryEndsAt = _
        rw [hfrontier]
        rfl
      rw [heq]
      exact .rest hv (range_subset_range.mpr (by omega))
    · simp only [not_forall, not_not] at hv
      obtain ⟨id, rfl⟩ := hv
      simp only [ManagerCall.run, map_eq_ok, Prod.mk.injEq] at h
      obtain ⟨⟨_, _⟩, h, rfl, rfl, rfl⟩ := h
      exact voidFinalize_frontier h
  · simp only [not_forall, not_not] at hc
    obtain ⟨id, hash, rfl⟩ := hc
    simp only [ManagerCall.run, map_eq_ok, Prod.mk.injEq] at h
    obtain ⟨⟨_, _⟩, h, rfl, rfl, rfl⟩ := h
    exact finalize_frontier h hr

theorem Move.creditRecorder (h : Move d e l p s c s' l' f) : l'.creditRecorder = l.creditRecorder := by
  cases h with
  | finalize _ _ _ _ _ hcredit =>
      split at hcredit
      · rw [hcredit]
      · obtain ⟨-, -, -, -, rfl⟩ := PayoutLedger.recordCredit_ok hcredit.2
        rfl
  | void _ _ _ _ _ _ hcredit =>
      split at hcredit
      · rw [hcredit]
      · obtain ⟨-, -, -, -, -, rfl⟩ := PayoutLedger.voidCredit_ok hcredit
        rfl
  | _ => rfl

end SubmissionManager

/-! ### The other contracts -/

/-- The call asks the ledger to change the credit of a solver. -/
def Call.RecordsCredit : Call → Prop
  | .ledger (.recordCredit ..) => True
  | .ledger (.voidCredit ..) => True
  | _ => False

namespace BountyPool

variable {d : Deployment} {e : Env} {l l' : PayoutLedger} {p p' : BountyPool} {c : Call}
  {f : List Frame}

theorem Booked.credits {payout : Payout} (h : Booked d e l p payout l' p') :
    l'.totalCreditAtoms = l.totalCreditAtoms ∧ l'.creditAtomsOf = l.creditAtomsOf ∧
      l'.creditRecorder = l.creditRecorder := by
  cases h <;> exact ⟨rfl, rfl, rfl⟩

theorem PoolMove.credits (h : PoolMove d e l p c l' p' f) (hc : ¬ c.RecordsCredit) :
    l'.totalCreditAtoms = l.totalCreditAtoms ∧ l'.creditAtomsOf = l.creditAtomsOf := by
  cases h with
  | credit => exact absurd trivial hc
  | uncredit => exact absurd trivial hc
  | payout hbooked _ _ => exact ⟨hbooked.credits.1, hbooked.credits.2.1⟩
  | _ => exact ⟨rfl, rfl⟩

/-- The credit recorder is set once. -/
theorem PoolMove.creditRecorder (h : PoolMove d e l p c l' p' f) (hne : l.creditRecorder ≠ 0) :
    l'.creditRecorder = l.creditRecorder := by
  cases h with
  | ledgerAdmin _ hkeep => exact hkeep hne
  | payout hbooked _ _ => exact hbooked.credits.2.2
  | _ => rfl

end BountyPool

/-- Only the credit recorder changes credits. -/
theorem LedgerCall.sender_of_recordsCredit {d : Deployment} {e : Env} {s : SubmissionManager}
    {l l' : PayoutLedger} {p p' : BountyPool} {c : LedgerCall} {f : List Frame}
    (h : c.run d e s l p = .ok (p', l', f)) (hc : (Call.ledger c).RecordsCredit) :
    l.creditRecorder = 0 ∨ e.sender = l.creditRecorder := by
  cases c with
  | recordCredit solver atoms =>
      simp only [LedgerCall.run, map_eq_ok, Prod.mk.injEq] at h
      obtain ⟨_, h, -⟩ := h
      exact (PayoutLedger.recordCredit_ok h).1
  | voidCredit solver atoms =>
      simp only [LedgerCall.run, map_eq_ok, Prod.mk.injEq] at h
      obtain ⟨_, h, -⟩ := h
      exact Or.inr (PayoutLedger.voidCredit_ok h).1
  | _ => exact hc.elim

/-! ### The steps of the board -/

/-- What a step of the board means for the frontier. -/
inductive FrontierStepped (d : Deployment) (w : World) (a : Action) (w' : World) : Prop
  | quiet (ids : Finset ℕ) : (∀ sender value ext c, a ≠ .call sender value ext (.manager c)) →
      w.frontier.ids ⊆ ids → w'.frontier = w.frontier.widen ids → FrontierStepped d w a w'
  | call {sender : Address} {value : ℕ} {ext : External} (c : ManagerCall) :
      a = .call sender value ext (.manager c) →
      FrontierMove d.sm.minImprovementAtoms w.frontier c w'.frontier → FrontierStepped d w a w'

/-- The step does not change the credit of a solver past the submission manager. -/
def Action.KeepsCredit : Action → Prop
  | .call _ _ _ c => ¬ c.RecordsCredit
  | _ => True

theorem frontier_stepped {d : Deployment} {w w' : World} {a : Action} (h : w.step d a = some w')
    (hr : SubmissionManager.Registered w.sm.submissionCount w.sm.entry) (ha : a.KeepsCredit) :
    FrontierStepped d w a w' := by
  have hsame : ∀ {l : PayoutLedger}, l.totalCreditAtoms = w.ledger.totalCreditAtoms →
      l.creditAtomsOf = w.ledger.creditAtomsOf →
      w.sm.frontier l = w.frontier.widen w.frontier.ids :=
    fun htotal hcredits => SubmissionManager.frontier_congr htotal hcredits
  cases stepped_of_step h with
  | tick block => exact .quiet _ (fun _ _ _ _ => nofun) Subset.rfl rfl
  | forceManager amount => exact .quiet _ (fun _ _ _ _ => nofun) Subset.rfl rfl
  | forceChallenge amount => exact .quiet _ (fun _ _ _ _ => nofun) Subset.rfl rfl
  | forcePool amount => exact .quiet _ (fun _ _ _ _ => nofun) Subset.rfl rfl
  | @manager sender value ext c s l f _ _ _ hrun =>
      have hmove := SubmissionManager.frontier_of_run hrun hr
      exact .call c rfl hmove
  | @challenge sender value ext c c' s f hsender _ _ hrun =>
      obtain hs | ⟨hook, hhook, his⟩ :=
        (ChallengeManager.move_of_run hsender.ne.1 hrun).hook w.ledger w.pool
      · rw [hs]
        exact .quiet _ (fun _ _ _ _ => nofun) Subset.rfl rfl
      · have hmove := SubmissionManager.frontier_of_run hhook hr
        generalize hf : s.frontier w.ledger = f' at hmove
        cases hmove with
        | rest _ hids => exact .quiet _ (fun _ _ _ _ => nofun) hids hf
        | set => cases his
        | retract => cases his
  | ledger _ hrun =>
      obtain ⟨htotal, hcredits⟩ := (LedgerCall.move_of_run hrun).credits ha
      exact .quiet _ (fun _ _ _ _ => nofun) Subset.rfl (hsame htotal hcredits)
  | pool _ _ _ hrun =>
      obtain ⟨htotal, hcredits⟩ := (PoolCall.move_of_run hrun).credits ha
      exact .quiet _ (fun _ _ _ _ => nofun) Subset.rfl (hsame htotal hcredits)
  | finishManager => exact .quiet _ (fun _ _ _ _ => nofun) Subset.rfl rfl
  | finishChallenge => exact .quiet _ (fun _ _ _ _ => nofun) Subset.rfl rfl
  | finishPayout _ hl =>
      refine .quiet _ (fun _ _ _ _ => nofun) Subset.rfl ?_
      obtain rfl | ⟨ev, rfl⟩ := hl
      · rfl
      · rfl

/-! ### The credit recorder -/

/-- The credit recorder is set once. -/
theorem creditRecorder_step {d : Deployment} {w w' : World} {a : Action}
    (h : w.step d a = some w') (hne : w.ledger.creditRecorder ≠ 0) :
    w'.ledger.creditRecorder = w.ledger.creditRecorder := by
  cases stepped_of_step h with
  | manager _ _ _ hrun => exact (SubmissionManager.move_of_run hrun).creditRecorder
  | ledger _ hrun => exact (LedgerCall.move_of_run hrun).creditRecorder hne
  | pool _ _ _ hrun => exact (PoolCall.move_of_run hrun).creditRecorder hne
  | finishPayout _ hl =>
      obtain rfl | ⟨ev, rfl⟩ := hl
      · rfl
      · rfl
  | _ => rfl

theorem Deployment.wired_protocol {d : Deployment} {C : World → Action → Prop} {w : World}
    (h : d.wired.Reachable C w) : d.protocol.Reachable C w := by
  obtain ⟨w₀, as, hinit, hrun⟩ := h
  refine ⟨w₀, as, hinit.1, ?_⟩
  clear hinit
  induction hrun with
  | refl s => exact .refl s
  | step hc hs _ ih => exact .step hc hs ih

/-- With the submission manager as the recorder, no account changes a credit. -/
theorem keepsCredit_of_wired {d : Deployment} {w w' : World} {a : Action}
    (h : w.step d a = some w') (hrec : w.ledger.creditRecorder = d.submissionManager) :
    a.KeepsCredit := by
  cases stepped_of_step h with
  | @ledger sender ext c p l f hsender hrun =>
      intro hc
      obtain hzero | heq := c.sender_of_recordsCredit hrun hc
      · exact d.addresses_ne.1 (hzero.symm.trans hrec)
      · exact hsender.ne.2.1 (heq.trans hrec)
  | manager => exact not_false
  | challenge => exact not_false
  | pool => exact not_false
  | _ => exact trivial

end P42Prizes
