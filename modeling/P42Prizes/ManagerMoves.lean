import P42Prizes.Protocol

/-! # What a call of the submission manager does

Every successful call of the submission manager is one of a few moves (`Move`), each of them a
plain update of the storage: `addCommit`, `addBond`, `recordReveal` and `publish` a reveal,
`retire` an open submission, `finalizeAs`, `voidAs`, `markAs` challenged, `rearmAs` revealed,
`payBond` and `withdraw`.  `move_of_run` reads the move off the code; every invariant of the
submission manager is proved move by move. -/

namespace P42Prizes

open Reverting Function

/-- An event that says nothing about bonds and reveals. -/
def ManagerEvent.IsNote : ManagerEvent → Prop
  | committed .. => False
  | revealed .. => False
  | bondToppedUp .. => False
  | submissionBondClaimable .. => False
  | bondClaimed .. => False
  | _ => True

def ManagerCall.IsReveal : ManagerCall → Prop
  | reveal .. => True
  | _ => False

/-- The calls about the funding authorization. -/
def ManagerCall.IsFunding : ManagerCall → Prop
  | authorizeFunding .. => True
  | cancelFundingAuthorization _ => True
  | armFunding _ => True
  | _ => False

/-- The reveal names the solver and the two hashes the submission was committed with, a CID that
can be stored and the improvement over the seed. -/
structure RevealInstance.Binds (d : Deployment) (r : RevealInstance) (sub : Submission) : Prop where
  solver : r.solver = sub.solver
  commitment : r.commitment = sub.commitment
  commitDaHash : r.commitDaHash = sub.commitDaHash
  cid : r.solutionCid ≠ [] ∧ r.solutionCid.length ≤ maxSolutionCidBytes
  improvement : (r.improvementAtoms : ℤ) = d.sm.seedScoreAtoms - r.claimedScoreAtoms

namespace SubmissionManager

variable (d : Deployment) (e : Env) (l l' : PayoutLedger) (s s' : SubmissionManager)

/-! ### The updates -/

def note (evs : List ManagerEvent) : SubmissionManager := { s with logs := evs ++ s.logs }

def dropOpen : SubmissionManager := { s with openSubmissionCount := s.openSubmissionCount - 1 }

def dropRevealed : SubmissionManager :=
  { s with revealedSubmissionCount := s.revealedSubmissionCount - 1 }

def addRevealed : SubmissionManager :=
  { s with revealedSubmissionCount := s.revealedSubmissionCount + 1 }

def dropChallenged : SubmissionManager :=
  { s with challengedSubmissionCount := s.challengedSubmissionCount - 1 }

def addChallenged : SubmissionManager :=
  { s with challengedSubmissionCount := s.challengedSubmissionCount + 1 }

/-- The events of `_makeBondClaimable`. -/
def bondEvents (id : ℕ) (claimant : Address) : List ManagerEvent :=
  if (s.submissions id).bondWei = 0 then []
  else [.submissionBondClaimable id claimant (s.submissions id).bondWei]

/-- The effect of `_makeBondClaimable`. -/
def payBond (id : ℕ) (claimant : Address) : SubmissionManager :=
  { s with
    submissions := update s.submissions id { s.submissions id with bondWei := 0 }
    claimableBondWei := update s.claimableBondWei claimant
      (s.claimableBondWei claimant + (s.submissions id).bondWei)
    logs := s.bondEvents id claimant ++ s.logs }

/-- An open submission leaves the open set with status `target`. -/
def retire (id : ℕ) (source target : SubmissionStatus) : SubmissionManager :=
  { s with
    submissions := update s.submissions id { s.submissions id with status := target }
    revealedSubmissionCount :=
      s.revealedSubmissionCount - if source = .revealed then 1 else 0
    challengedSubmissionCount :=
      s.challengedSubmissionCount - if source = .challenged then 1 else 0
    openSubmissionCount := s.openSubmissionCount - 1 }

/-- A new submission. -/
def addCommit (sub : Submission) (committedBlock committedActiveAt : ℕ) (paid : Bool) :
    SubmissionManager :=
  { s with
    submissionCount := s.submissionCount + 1
    submissions := update s.submissions (s.submissionCount + 1) sub
    committedBlockOf := update s.committedBlockOf (s.submissionCount + 1) committedBlock
    committedActiveAtOf := update s.committedActiveAtOf (s.submissionCount + 1) committedActiveAt
    paidAtCommit := update s.paidAtCommit (s.submissionCount + 1) paid
    openSubmissionCount := s.openSubmissionCount + 1 }

def addBond (id value : ℕ) : SubmissionManager :=
  { s with
    submissions := update s.submissions id
      { s.submissions id with bondWei := (s.submissions id).bondWei + value } }

/-- A recorded reveal takes the priority of its CID hash. -/
def publish (id : ℕ) : SubmissionManager :=
  { s with
    submissions := update s.submissions id { s.submissions id with status := .revealed }
    prioritySubmissionOf := update s.prioritySubmissionOf (s.solutionCidHashOf id) id
    revealedSubmissionCount := s.revealedSubmissionCount + 1 }

/-- A revealed submission is finalized with the given marginal, of which `creditAtoms` is paid. -/
def finalizeAs (id : ℕ) (permanenceHash : Bytes32) (marginal creditAtoms : ℕ) :
    SubmissionManager :=
  { s with
    submissions := update s.submissions id { s.submissions id with
      permanenceHash := permanenceHash
      status := .finalized }
    revealedSubmissionCount := s.revealedSubmissionCount - 1
    openSubmissionCount := s.openSubmissionCount - 1
    finalizeInfo := update s.finalizeInfo id
      ⟨s.bestScoreAtoms, creditAtoms, s.creditRecoveryEndsAt⟩
    bestScoreAtoms :=
      if marginal ≠ 0 then (s.submissions id).claimedScoreAtoms else s.bestScoreAtoms
    creditRecoveryEndsAt :=
      if creditAtoms ≠ 0 then e.now + creditFinalizeRecoveryDelay else s.creditRecoveryEndsAt }

/-- A finalized submission is voided. -/
def voidAs (id : ℕ) : SubmissionManager :=
  { s with
    submissions := update s.submissions id { s.submissions id with status := .voided }
    bestScoreAtoms := (s.finalizeInfo id).prevBestScoreAtoms
    creditRecoveryEndsAt :=
      if (s.finalizeInfo id).creditAtoms ≠ 0 then (s.finalizeInfo id).prevCreditRecoveryEndsAt
      else s.creditRecoveryEndsAt }

/-- A revealed submission is challenged. -/
def markAs (id : ℕ) : SubmissionManager :=
  { s with
    submissions := update s.submissions id { s.submissions id with status := .challenged }
    revealedSubmissionCount := s.revealedSubmissionCount - 1
    challengedSubmissionCount := s.challengedSubmissionCount + 1 }

/-- A challenged submission goes back to `revealed`. -/
def rearmAs (id challengeEndsAt : ℕ) : SubmissionManager :=
  { s with
    submissions := update s.submissions id { s.submissions id with
      status := .revealed
      challengeEndsAt := challengeEndsAt }
    revealedSubmissionCount := s.revealedSubmissionCount + 1
    challengedSubmissionCount := s.challengedSubmissionCount - 1 }

def withdraw (claimant : Address) : SubmissionManager :=
  { s with
    claiming := true
    claimableBondWei := update s.claimableBondWei claimant 0
    balance := s.balance - s.claimableBondWei claimant }

/-! ### Internal functions -/

/-- Crediting the bond of `id` to `claimant` does not overflow. -/
def BondFits (id : ℕ) (claimant : Address) : Prop :=
  s.claimableBondWei claimant + (s.submissions id).bondWei < 2 ^ 256 ∨ (s.submissions id).bondWei = 0

theorem makeBondClaimable_eq_ok {id : ℕ} {claimant : Address} :
    s.makeBondClaimable id claimant = .ok s' ↔
      s.BondFits id claimant ∧ s.payBond id claimant = s' := by
  unfold makeBondClaimable BondFits
  by_cases h : (s.submissions id).bondWei = 0
  · have hsub : { s.submissions id with bondWei := 0 } = s.submissions id := by rw [← h]
    have hpay : s.payBond id claimant = s := by
      simp only [payBond, hsub, update_eq_self, h, add_zero, bondEvents, if_true, List.nil_append]
    simp only [h, if_true, pure_eq_ok, or_true, true_and, hpay]
  · simp only [h, if_false, bind_eq_ok, checkedAdd_eq_ok, pure_eq_ok, or_false, payBond, bondEvents,
      modify, emit, List.singleton_append, and_assoc, exists_and_left, exists_eq_left']

@[simp] theorem decrementOpenSubmission_eq : s.decrementOpenSubmission = s.dropOpen := by
  unfold decrementOpenSubmission dropOpen
  split
  · rfl
  · have h : s.openSubmissionCount - 1 = s.openSubmissionCount := by omega
    rw [h]

theorem decrementRevealed_eq_ok :
    s.decrementRevealed = .ok s' ↔ 1 ≤ s.revealedSubmissionCount ∧ s.dropRevealed = s' := by
  simp only [decrementRevealed, dropRevealed, bind_eq_ok, checkedSub_eq_ok, pure_eq_ok, and_assoc,
    exists_and_left, exists_eq_left']

theorem incrementRevealed_eq_ok :
    s.incrementRevealed = .ok s' ↔
      s.revealedSubmissionCount + 1 < 2 ^ 256 ∧ s.addRevealed = s' := by
  simp only [incrementRevealed, addRevealed, bind_eq_ok, checkedAdd_eq_ok, pure_eq_ok, and_assoc,
    exists_and_left, exists_eq_left']

theorem decrementChallenged_eq_ok :
    s.decrementChallenged = .ok s' ↔ 1 ≤ s.challengedSubmissionCount ∧ s.dropChallenged = s' := by
  simp only [decrementChallenged, dropChallenged, bind_eq_ok, checkedSub_eq_ok, pure_eq_ok,
    and_assoc, exists_and_left, exists_eq_left']

theorem incrementChallenged_eq_ok :
    s.incrementChallenged = .ok s' ↔
      s.challengedSubmissionCount + 1 < 2 ^ 256 ∧ s.addChallenged = s' := by
  simp only [incrementChallenged, addChallenged, bind_eq_ok, checkedAdd_eq_ok, pure_eq_ok,
    and_assoc, exists_and_left, exists_eq_left']

theorem requireSubmission_eq_ok {id : ℕ} {sub : Submission} :
    s.requireSubmission id = .ok sub ↔
      (s.submissions id).solver ≠ 0 ∧ s.submissions id = sub := by
  simp only [requireSubmission, bind_eq_ok, revertIf_eq_ok, pure_eq_ok, exists_const, ne_eq]

theorem requireStatus_eq_ok {sub : Submission} {status : SubmissionStatus} {u : Unit} :
    requireStatus sub status = .ok u ↔ sub.status = status := by
  simp only [requireStatus, revertIf_eq_ok, ne_eq, not_not]

theorem onlyOwner_eq_ok {u : Unit} : onlyOwner d e = .ok u ↔ e.sender = d.sm.owner := by
  simp only [onlyOwner, revertIf_eq_ok, ne_eq, not_not]

theorem onlyChallengeManager_eq_ok {u : Unit} :
    s.onlyChallengeManager e = .ok u ↔ e.sender = s.challengeManager := by
  simp only [onlyChallengeManager, revertIf_eq_ok, ne_eq, not_not]

section updates

variable {s} {id : ℕ} {claimant : Address} {status : SubmissionStatus}

@[simp] theorem setStatus_submissions : (s.setStatus id status).submissions =
    update s.submissions id { s.submissions id with status := status } := rfl

@[simp] theorem dropRevealed_submissions : s.dropRevealed.submissions = s.submissions := rfl

@[simp] theorem bondFits_setStatus :
    (s.setStatus id status).BondFits id claimant ↔ s.BondFits id claimant := by
  simp only [BondFits, setStatus_submissions, update_self]
  rfl

@[simp] theorem bondFits_dropRevealed :
    s.dropRevealed.BondFits id claimant ↔ s.BondFits id claimant := Iff.rfl

@[simp] theorem bondFits_dropChallenged :
    s.dropChallenged.BondFits id claimant ↔ s.BondFits id claimant := Iff.rfl

end updates

/-! ### Calls that retire a submission -/

variable {d e l l' s s'}

theorem expireRevealed_eq_ok {id : ℕ} : s.expireRevealed d e id = .ok s' ↔
    s.pausedAll = false ∧ (s.submissions id).solver ≠ 0 ∧ (s.submissions id).status = .revealed ∧
    (s.submissions id).challengeEndsAt + d.sm.challengeWindowSeconds < 2 ^ 64 ∧
    (s.submissions id).challengeEndsAt + d.sm.challengeWindowSeconds ≤ e.now ∧
    s.expiryGraceUntil ≤ e.now ∧ 1 ≤ s.revealedSubmissionCount ∧ s.BondFits id d.sm.treasury ∧
    ((s.retire id .revealed .rejected).payBond id d.sm.treasury).note
      [.submissionExpired id .revealed] = s' := by
  simp only [expireRevealed, bind_eq_ok, revertIf_eq_ok, requireSubmission_eq_ok,
    requireStatus_eq_ok, checkedAdd_eq_ok, decrementRevealed_eq_ok, makeBondClaimable_eq_ok,
    decrementOpenSubmission_eq, pure_eq_ok, exists_const, and_assoc, exists_and_left,
    exists_eq_left', not_lt, Bool.not_eq_true, bondFits_dropRevealed, bondFits_setStatus]
  rfl

theorem expireCommitted_ok {id : ℕ} (h : s.expireCommitted d e id = .ok s') :
    s.pausedAll = false ∧ (s.submissions id).solver ≠ 0 ∧ (s.submissions id).status = .committed ∧
    (∃ activeNow, s.activeTimestamp e = .ok activeNow ∧
      s.committedActiveAtOf id + d.sm.challengeWindowSeconds ≤ activeNow) ∧
    s.expiryGraceUntil ≤ e.now ∧
    s' = ((s.retire id .committed .rejected).payBond id d.sm.treasury).note
      [.submissionExpired id .committed] := by
  simp only [expireCommitted, bind_eq_ok, revertIf_eq_ok, requireSubmission_eq_ok,
    requireStatus_eq_ok, checkedAdd_eq_ok, exists_const, and_assoc, exists_and_left,
    exists_eq_left', Bool.not_eq_true] at h
  obtain ⟨hp, hsolver, hstatus, activeNow, hactive, -, h⟩ := h
  split at h
  · simp only [bind_eq_ok, reduceCtorEq, and_false, exists_false] at h
  · rename_i hlate
    simp only [bind_eq_ok, revertIf_eq_ok, makeBondClaimable_eq_ok, decrementOpenSubmission_eq,
      pure_eq_ok, exists_const, and_assoc, exists_and_left, exists_eq_left', not_lt] at h
    exact ⟨hp, hsolver, hstatus, ⟨activeNow, hactive, not_lt.mp hlate⟩, h.1, h.2.2.symm⟩

/-- The effect of `_rejectSupersededIfRevealed`. -/
def supersede (id priorityId : ℕ) (s : SubmissionManager) : SubmissionManager :=
  if (s.submissions priorityId).status = .revealed then
    ((s.retire priorityId .revealed .rejected).payBond priorityId
      (s.submissions priorityId).solver).note
        [.duplicateSubmissionRejected (s.solutionCidHashOf id) priorityId id]
  else s

theorem rejectSupersededIfRevealed_ok {id priorityId : ℕ} {h : Bytes32}
    (hh : s.solutionCidHashOf id = h)
    (hok : s.rejectSupersededIfRevealed priorityId h id = .ok s') :
    s' = s.supersede id priorityId := by
  unfold rejectSupersededIfRevealed at hok
  unfold supersede
  by_cases hs : (s.submissions priorityId).status = .revealed
  · simp only [hs, ne_eq, not_true_eq_false, if_false, bind_eq_ok, decrementRevealed_eq_ok,
      makeBondClaimable_eq_ok, decrementOpenSubmission_eq, pure_eq_ok, and_assoc, exists_and_left,
      exists_eq_left', dropRevealed_submissions, setStatus_submissions, update_self] at hok
    obtain ⟨-, -, rfl⟩ := hok
    subst hh
    rw [if_pos hs]
    rfl
  · simp only [ne_eq, hs, not_false_eq_true, if_true, pure_eq_ok] at hok
    rw [if_neg hs, hok]

theorem requireCommitOpen_eq_ok {id : ℕ} {u : Unit} : s.requireCommitOpen d e id = .ok u ↔
    ∃ activeNow, s.activeTimestamp e = .ok activeNow ∧
      s.committedActiveAtOf id + d.sm.challengeWindowSeconds < 2 ^ 64 ∧
      activeNow < s.committedActiveAtOf id + d.sm.challengeWindowSeconds := by
  simp only [requireCommitOpen, bind_eq_ok, checkedAdd_eq_ok, and_assoc, exists_and_left,
    exists_eq_left']
  refine exists_congr (fun activeNow => and_congr_right (fun _ => and_congr_right (fun _ => ?_)))
  split
  · rename_i h
    simp only [bind_eq_ok, reduceCtorEq, and_false, exists_false, false_iff]
    omega
  · rename_i h
    simp only [pure_eq_ok, true_iff]
    omega

/-- What `_assignDuplicatePriority` leaves behind when `id` takes the priority. -/
def takePriority (id : ℕ) (h : Bytes32) (s : SubmissionManager) : SubmissionManager :=
  let published := ((s.setSolutionCidHash id h).publish id).note [.duplicatePriorityAssigned h id]
  if s.prioritySubmissionOf h = 0 then published
  else published.supersede id (s.prioritySubmissionOf h)

/-- What `_assignDuplicatePriority` leaves behind when another submission has the priority. -/
def yieldPriority (id : ℕ) (h : Bytes32) (s : SubmissionManager) : SubmissionManager :=
  (((s.setSolutionCidHash id h).retire id .committed .rejected).payBond id
    (s.submissions id).solver).note [.duplicateSubmissionRejected h id (s.prioritySubmissionOf h)]

theorem assignDuplicatePriority_ok {id : ℕ} {h : Bytes32}
    (hok : s.assignDuplicatePriority id h = .ok s') :
    s' = if s.prioritySubmissionOf h = 0 ∨ id < s.prioritySubmissionOf h then s.takePriority id h
      else s.yieldPriority id h := by
  have hprio : (s.setSolutionCidHash id h).prioritySubmissionOf = s.prioritySubmissionOf := rfl
  simp only [assignDuplicatePriority, hprio] at hok
  split at hok
  · rename_i hfirst
    rw [if_pos hfirst]
    simp only [bind_eq_ok, incrementRevealed_eq_ok, and_assoc, exists_and_left, exists_eq_left'] at hok
    obtain ⟨-, hok⟩ := hok
    have hhash : ((s.setSolutionCidHash id h).solutionCidHashOf id) = h := update_self _ _ _
    have hpub : ((((s.setSolutionCidHash id h).setPriority h id).setStatus id .revealed).addRevealed).emit
        (.duplicatePriorityAssigned h id) =
        ((s.setSolutionCidHash id h).publish id).note [.duplicatePriorityAssigned h id] := by
      unfold publish
      rw [hhash]
      rfl
    rw [hpub] at hok
    unfold takePriority
    split at hok
    · rename_i hp
      rw [if_neg hp]
      exact rejectSupersededIfRevealed_ok hhash hok
    · rename_i hp
      rw [if_pos (not_not.mp hp)]
      exact (pure_eq_ok.mp hok).symm
  · rename_i hfirst
    rw [if_neg hfirst]
    simp only [bind_eq_ok, makeBondClaimable_eq_ok, decrementOpenSubmission_eq, pure_eq_ok,
      and_assoc, exists_and_left, exists_eq_left', setStatus_submissions, update_self] at hok
    obtain ⟨-, rfl⟩ := hok
    rfl

theorem reveal_ok {id : ℕ} {cid salt solution : Bytes} {claimed : ℤ} {improvement : ℕ}
    (h : s.reveal d e id cid claimed improvement salt solution = .ok s') :
    s.pausedAll = false ∧ (s.submissions id).solver ≠ 0 ∧ e.sender = (s.submissions id).solver ∧
    (s.submissions id).status = .committed ∧ s.requireCommitMature e id = .ok () ∧
    s.requireCommitOpen d e id = .ok () ∧
    requireRevealable d e (s.submissions id) cid claimed improvement salt solution = .ok () ∧
    ∃ r : RevealInstance, r.submissionId = id ∧ r.solutionCid = cid ∧
      r.claimedScoreAtoms = claimed ∧ r.challengeEndsAt = e.now + d.sm.challengeWindowSeconds ∧
      r.Binds d (s.submissions id) ∧ ∃ recorded, recorded = s.recordReveal d e id r
          (e.now + d.sm.challengeWindowSeconds * maxCumulativeDisputeWindows) ∧
        s' = (if s.prioritySubmissionOf (d.crypto.keccak256 cid) = 0 ∨
            id < s.prioritySubmissionOf (d.crypto.keccak256 cid) then
          recorded.takePriority id (d.crypto.keccak256 cid)
          else recorded.yieldPriority id (d.crypto.keccak256 cid)).emit
            (.revealed id e.sender cid improvement claimed r.challengeEndsAt solution.length
              (d.revealInstanceHash r)) := by
  simp only [reveal, bind_eq_ok, revertIf_eq_ok, requireSubmission_eq_ok, requireStatus_eq_ok,
    checkedAdd_eq_ok, pure_eq_ok, and_assoc, exists_and_left, exists_eq_left',
    Bool.not_eq_true, Unique.exists_iff, not_not, ne_eq] at h
  obtain ⟨hp, hsolver, hsender, hstatus, hmature, hopen, hreq, -, -, s₁, hs₁, rfl⟩ := h
  let r : RevealInstance := ⟨id, (s.submissions id).solver, (s.submissions id).commitment,
    (s.submissions id).commitDaHash, cid, claimed, improvement, e.now + d.sm.challengeWindowSeconds⟩
  have hbinds : r.Binds d (s.submissions id) := by
    simp only [requireRevealable, bind_eq_ok, revertIf_eq_ok, checkedSubInt_eq_ok, Unique.exists_iff,
      List.length_eq_zero_iff, gt_iff_lt, not_lt, ne_eq, not_not] at hreq
    obtain ⟨hcid, hle, -, -, _, ⟨-, rfl⟩, himprovement, -⟩ := hreq
    exact ⟨rfl, rfl, rfl, ⟨hcid, hle⟩, himprovement⟩
  refine ⟨hp, hsolver, hsender, hstatus, hmature, hopen, hreq, r, rfl, rfl, rfl, rfl, hbinds, _, rfl,
    ?_⟩
  rw [assignDuplicatePriority_ok hs₁]
  rfl

/-- What `commit` promises about the new submission besides its solver, bond and status: it came
before the funding deadline and claims nothing yet. -/
structure Accepts (d : Deployment) (e : Env) (sub : Submission) (s : SubmissionManager) : Prop where
  inTime : e.now ≤ PayoutLedger.fundingDeadline d
  committedAt : sub.committedAt = e.now
  claimed : sub.claimedScoreAtoms = (s.submissions (s.submissionCount + 1)).claimedScoreAtoms

theorem commit_ok {commitment commitDaHash : Bytes32} {p : BountyPool}
    (h : s.commit d e commitment commitDaHash l p = .ok s') :
    s.pausedAll = false ∧ l.closed = false ∧ s.submissionCount + 1 < 2 ^ 256 ∧
    ∃ required activeAt sub, requiredPostingBondForPool d
        (if s.fundingArmed then d.pc.fundingCap else p.accountedBalance) = .ok required ∧
      required ≤ e.value ∧ s.activeTimestamp e = .ok activeAt ∧
      e.now ≤ PayoutLedger.fundingDeadline d ∧
      sub = { s.submissions (s.submissionCount + 1) with
        solver := e.sender, commitment := commitment, commitDaHash := commitDaHash
        bondWei := e.value, poolAtSubmissionWei := p.accountedBalance, requiredBondWei := required
        committedAt := e.now, status := .committed } ∧
      s' = (s.addCommit sub (e.block.number % 2 ^ 64) activeAt s.fundingArmed).emit
        (.committed (s.submissionCount + 1) e.sender commitment commitDaHash e.value
          p.accountedBalance required s.fundingArmed (e.block.number % 2 ^ 64)) := by
  simp only [commit, bind_eq_ok, revertIf_eq_ok, checkedAdd_eq_ok, pure_eq_ok, and_assoc,
    exists_and_left, exists_eq_left', Bool.not_eq_true, not_lt, Unique.exists_iff] at h
  obtain ⟨hp, -, hclosed, htime, -, -, -, required, hreq, hval, hcount, activeAt, hactive, -, rfl⟩ := h
  exact ⟨hp, hclosed, hcount, required, activeAt, _, hreq, hval, hactive, htime, rfl, rfl⟩

theorem topUpBond_ok {id : ℕ} (h : s.topUpBond e id = .ok s') :
    (s.submissions id).solver ≠ 0 ∧
    ((s.submissions id).status = .committed ∨ (s.submissions id).status = .revealed ∨
      (s.submissions id).status = .challenged) ∧
    s' = (s.addBond id e.value).emit
      (.bondToppedUp id e.sender e.value ((s.submissions id).bondWei + e.value)) := by
  simp only [topUpBond, bind_eq_ok, revertIf_eq_ok, require_eq_ok, requireSubmission_eq_ok,
    checkedAdd_eq_ok, pure_eq_ok, and_assoc, exists_and_left, exists_eq_left', exists_const,
    not_and, not_not, ne_eq] at h
  obtain ⟨hsolver, -, hstatus, -, -, rfl⟩ := h
  refine ⟨hsolver, by tauto, rfl⟩

/-! ### Finalize and void -/

/-- The marginal of a claim against the live frontier. -/
def gain (d : Deployment) (claimed : ℤ) (s : SubmissionManager) : ℕ :=
  if claimed < s.bestScoreAtoms ∧ d.sm.minImprovementAtoms ≤ (s.bestScoreAtoms - claimed).toNat then
    (s.bestScoreAtoms - claimed).toNat
  else 0

theorem frontierMarginal_eq_ok {claimed : ℤ} {m : ℕ} : s.frontierMarginal d claimed = .ok m ↔
    (claimed < s.bestScoreAtoms → s.bestScoreAtoms - claimed < 2 ^ 255) ∧ s.gain d claimed = m := by
  unfold frontierMarginal gain
  by_cases h : claimed < s.bestScoreAtoms
  · simp only [h, if_true, bind_eq_ok, checkedSubInt_eq_ok, pure_eq_ok, true_and, forall_const,
      and_assoc, exists_and_left, exists_eq_left']
    constructor
    · rintro ⟨-, hlt, heq⟩
      exact ⟨hlt, heq⟩
    · rintro ⟨hlt, heq⟩
      exact ⟨by omega, hlt, heq⟩
  · simp only [h, if_false, pure_eq_ok, false_and, false_implies, true_and]

theorem requireCollateral_eq_ok {sub : Submission} {u : Unit} :
    requireCollateral d sub = .ok u ↔
      ∃ required, requiredPostingBondForPool d d.pc.fundingCap = .ok required ∧
        required ≤ sub.bondWei := by
  simp only [requireCollateral, bind_eq_ok, revertIf_eq_ok, not_lt]

theorem finalizeDuplicate_eq_ok {id : ℕ} {solver : Address} :
    s.finalizeDuplicate id solver = .ok s' ↔
      1 ≤ s.revealedSubmissionCount ∧ s.BondFits id solver ∧
      ((s.retire id .revealed .rejected).payBond id solver).note
        [.duplicateSubmissionRejected (s.solutionCidHashOf id) id
          (s.prioritySubmissionOf (s.solutionCidHashOf id))] = s' := by
  simp only [finalizeDuplicate, bind_eq_ok, decrementRevealed_eq_ok, makeBondClaimable_eq_ok,
    decrementOpenSubmission_eq, pure_eq_ok, and_assoc, exists_and_left, exists_eq_left',
    bondFits_dropRevealed, bondFits_setStatus]
  rfl

/-- The credit `finalize` pays. -/
def creditOf (d : Deployment) (id : ℕ) (s : SubmissionManager) : ℕ :=
  if s.paidAtCommit id then s.gain d (s.submissions id).claimedScoreAtoms else 0

@[simp] theorem bondFits_recordFinalize {id : ℕ} {claimant : Address} {hash : Bytes32} {n : ℕ} :
    (s.recordFinalize id hash n).BondFits id claimant ↔ s.BondFits id claimant := by
  simp only [BondFits, recordFinalize, modify, update_self]

theorem payCredit_eq_ok {id n : ℕ} {solver : Address} : s.payCredit d e id solver n l = .ok (s', l') ↔
    e.now + creditFinalizeRecoveryDelay < 2 ^ 64 ∧
    l.recordCredit d { e with sender := d.submissionManager } solver n = .ok l' ∧
    { s with creditRecoveryEndsAt := e.now + creditFinalizeRecoveryDelay }.emit
      (.creditRecoveryWindowAdvanced id s.creditRecoveryEndsAt
        (e.now + creditFinalizeRecoveryDelay)) = s' := by
  simp only [payCredit, bind_eq_ok, checkedAdd_eq_ok, pure_eq_ok, and_assoc, exists_and_left,
    exists_eq_left', Prod.mk.injEq, and_congr_right_iff]
  intro _
  constructor
  · rintro ⟨_, hl, hs, rfl⟩
    exact ⟨hl, hs⟩
  · rintro ⟨hl, hs⟩
    exact ⟨_, hl, hs, rfl⟩

/-- The events of `finalize`, newest first. -/
def finalizeEvents (d : Deployment) (e : Env) (id : ℕ) (permanenceHash : Bytes32) (p : BountyPool)
    (s : SubmissionManager) : List ManagerEvent :=
  .finalized id (s.submissions id).solver (s.creditOf d id) (s.submissions id).claimedScoreAtoms
      (if s.gain d (s.submissions id).claimedScoreAtoms ≠ 0 then
        (s.submissions id).claimedScoreAtoms else s.bestScoreAtoms) permanenceHash
      p.accountedBalance ::
    if s.creditOf d id = 0 then []
    else [.creditRecoveryWindowAdvanced id s.creditRecoveryEndsAt
      (e.now + creditFinalizeRecoveryDelay)]

/-- What `finalize` leaves behind for the submission that has priority. -/
def finalized (d : Deployment) (e : Env) (id : ℕ) (permanenceHash : Bytes32) (p : BountyPool)
    (s : SubmissionManager) : SubmissionManager :=
  let s₁ := s.finalizeAs e id permanenceHash (s.gain d (s.submissions id).claimedScoreAtoms)
    (s.creditOf d id)
  (if s.creditOf d id = 0 then s₁.payBond id (s.submissions id).solver else s₁).note
    (s.finalizeEvents d e id permanenceHash p)

theorem finalizePriority_eq_ok {id : ℕ} {permanenceHash : Bytes32} {p : BountyPool} :
    s.finalizePriority d e id permanenceHash (s.submissions id) l p = .ok (s', l') ↔
      ((s.submissions id).claimedScoreAtoms < s.bestScoreAtoms →
        s.bestScoreAtoms - (s.submissions id).claimedScoreAtoms < 2 ^ 255) ∧
      1 ≤ s.revealedSubmissionCount ∧
      (if s.creditOf d id = 0 then s.BondFits id (s.submissions id).solver ∧ l' = l
      else requireCollateral d (s.submissions id) = .ok () ∧
        e.now + creditFinalizeRecoveryDelay < 2 ^ 64 ∧
        l.recordCredit d { e with sender := d.submissionManager } (s.submissions id).solver
          (s.creditOf d id) = .ok l') ∧
      s.finalized d e id permanenceHash p = s' := by
  have hcredit : (if s.paidAtCommit id then s.gain d (s.submissions id).claimedScoreAtoms else 0) =
      s.creditOf d id := rfl
  simp only [finalizePriority, bind_eq_ok, frontierMarginal_eq_ok, and_assoc, exists_and_left,
    exists_eq_left', decrementRevealed_eq_ok, hcredit, Unique.exists_iff]
  by_cases hc : s.creditOf d id = 0
  · simp only [hc, ne_eq, not_true_eq_false, if_false, if_true, pure_eq_ok, true_and,
      makeBondClaimable_eq_ok, bondFits_recordFinalize, bondFits_dropRevealed, and_assoc,
      exists_and_left, exists_eq_left', Prod.mk.injEq, decrementOpenSubmission_eq, finalized,
      finalizeEvents, finalizeAs]
    refine and_congr_right (fun _ => and_congr_right (fun _ => and_congr_right (fun _ => ?_)))
    exact and_comm.trans (and_congr_left (fun _ => eq_comm))
  · simp only [hc, ne_eq, not_false_eq_true, if_true, if_false, pure_eq_ok, exists_eq_left',
      Prod.exists, payCredit_eq_ok, Prod.mk.injEq, and_assoc, exists_and_left, finalized,
      finalizeEvents, finalizeAs, decrementOpenSubmission_eq]
    constructor
    · rintro ⟨hrange, hcoll, hcount, hnow, _, _, hl, rfl, hs, rfl⟩
      exact ⟨hrange, hcount, hcoll, hnow, hl, hs⟩
    · rintro ⟨hrange, hcount, hcoll, hnow, hl, hs⟩
      exact ⟨hrange, hcoll, hcount, hnow, _, _, hl, rfl, hs, rfl⟩

theorem finalize_eq_ok {id : ℕ} {permanenceHash : Bytes32} {p : BountyPool} :
    s.finalize d e id permanenceHash l p = .ok (s', l') ↔
      s.pausedAll = false ∧ (s.submissions id).solver ≠ 0 ∧
      e.sender = (s.submissions id).solver ∧ (s.submissions id).status = .revealed ∧
      (s.submissions id).challengeEndsAt ≤ e.now ∧
      if s.prioritySubmissionOf (s.solutionCidHashOf id) = id then
        s.finalizePriority d e id permanenceHash (s.submissions id) l p = .ok (s', l')
      else s.finalizeDuplicate id (s.submissions id).solver = .ok s' ∧ l' = l := by
  simp only [finalize, requireWindowPassed, bind_eq_ok, revertIf_eq_ok, requireSubmission_eq_ok, requireStatus_eq_ok,
    exists_const, and_assoc, exists_and_left, exists_eq_left', not_lt, Bool.not_eq_true, ne_eq,
    not_not, ite_not]
  refine and_congr_right (fun _ => and_congr_right (fun _ => and_congr_right (fun _ =>
    and_congr_right (fun _ => and_congr_right (fun _ => ?_)))))
  split
  · rfl
  · simp only [bind_eq_ok, pure_eq_ok, Prod.mk.injEq]
    constructor
    · rintro ⟨_, h, rfl, rfl⟩
      exact ⟨h, rfl⟩
    · rintro ⟨h, rfl⟩
      exact ⟨_, h, rfl, rfl⟩

theorem releaseFinalizedBond_ok {id : ℕ} (h : s.releaseFinalizedBond id l = .ok s') :
    l.closed = true ∧ (s.submissions id).solver ≠ 0 ∧ (s.submissions id).status = .finalized ∧
    s' = s.payBond id (s.submissions id).solver := by
  simp only [releaseFinalizedBond, bind_eq_ok, revertIf_eq_ok, requireSubmission_eq_ok,
    requireStatus_eq_ok, makeBondClaimable_eq_ok, exists_const, and_assoc, exists_and_left,
    exists_eq_left', Bool.not_eq_false] at h
  obtain ⟨hclosed, hsolver, hstatus, -, -, rfl⟩ := h
  exact ⟨hclosed, hsolver, hstatus, rfl⟩

/-- What `voidFinalize` leaves behind. -/
def voided (d : Deployment) (id : ℕ) (s : SubmissionManager) : SubmissionManager :=
  let info := s.finalizeInfo id
  ((s.voidAs id).payBond id
    (if info.creditAtoms = 0 then (s.submissions id).solver else d.sm.treasury)).note
    (.finalizeVoided id (s.submissions id).solver info.creditAtoms info.prevBestScoreAtoms ::
      if info.creditAtoms = 0 then []
      else [.creditRecoveryWindowRestored id s.creditRecoveryEndsAt info.prevCreditRecoveryEndsAt])

theorem voidFinalize_ok {id : ℕ} (h : s.voidFinalize d e id l = .ok (s', l')) :
    e.sender = d.sm.owner ∧ s.pausedAll = true ∧ s.revealedSubmissionCount = 0 ∧
    s.challengedSubmissionCount = 0 ∧ (s.submissions id).solver ≠ 0 ∧
    (s.submissions id).status = .finalized ∧
    s.bestScoreAtoms = (s.submissions id).claimedScoreAtoms ∧
    (s.finalizeInfo id).prevBestScoreAtoms ≠ (s.submissions id).claimedScoreAtoms ∧
    (if (s.finalizeInfo id).creditAtoms = 0 then l' = l
      else l.voidCredit { e with sender := d.submissionManager } (s.submissions id).solver
        (s.finalizeInfo id).creditAtoms = .ok l') ∧
    s' = s.voided d id := by
  simp only [voidFinalize, bind_eq_ok, revertIf_eq_ok, requireSubmission_eq_ok, onlyOwner_eq_ok,
    requireStatus_eq_ok, exists_const, and_assoc, exists_and_left, exists_eq_left', ne_eq, not_or,
    not_not, Bool.not_eq_false] at h
  obtain ⟨hsender, hp, hrev, hch, hsolver, hstatus, hbest, hprev, ⟨s₁, l₁⟩, hcase, heq⟩ := h
  refine ⟨hsender, hp, hrev, hch, hsolver, hstatus, hbest, hprev, ?_⟩
  simp only [pure_eq_ok, Prod.mk.injEq] at heq
  obtain ⟨rfl, rfl⟩ := heq
  by_cases hc : (s.finalizeInfo id).creditAtoms = 0
  · simp only [hc, gt_iff_lt, lt_irrefl, if_false, bind_eq_ok, makeBondClaimable_eq_ok, pure_eq_ok,
      and_assoc, exists_and_left, exists_eq_left', Prod.mk.injEq] at hcase
    obtain ⟨-, rfl, rfl⟩ := hcase
    simp only [hc, if_true, true_and, voided, voidAs, ne_eq, not_true_eq_false, if_false]
    rfl
  · simp only [gt_iff_lt, Nat.pos_of_ne_zero hc, if_true, voidCredit, bind_eq_ok,
      makeBondClaimable_eq_ok, pure_eq_ok, and_assoc, exists_and_left, exists_eq_left',
      Prod.mk.injEq] at hcase
    obtain ⟨_, hl, -, rfl, rfl⟩ := hcase
    simp only [hc, if_false, voided, voidAs, ne_eq, not_false_eq_true, if_true]
    exact ⟨hl, rfl⟩

/-! ### Challenge hooks -/

theorem markChallenged_eq_ok {id : ℕ} : s.markChallenged e id = .ok s' ↔
    e.sender = s.challengeManager ∧ (s.submissions id).solver ≠ 0 ∧
    (s.submissions id).status = .revealed ∧
    s.objectiveClearedRevealInstanceHashOf id ≠ s.revealInstanceHashOf id ∧
    e.now < (s.submissions id).challengeEndsAt ∧ 1 ≤ s.revealedSubmissionCount ∧
    s.challengedSubmissionCount + 1 < 2 ^ 256 ∧
    (s.markAs id).note [.submissionChallenged id e.sender] = s' := by
  simp only [markChallenged, requireWindowOpen, bind_eq_ok, revertIf_eq_ok, requireSubmission_eq_ok,
    requireStatus_eq_ok, onlyChallengeManager_eq_ok, decrementRevealed_eq_ok,
    incrementChallenged_eq_ok, pure_eq_ok, exists_const, and_assoc, exists_and_left,
    exists_eq_left', ge_iff_le, not_le]
  rfl

theorem rejectChallenged_eq_ok {id : ℕ} {beneficiary : Address} :
    s.dropChallenged.rejectChallenged id beneficiary = .ok s' ↔
      beneficiary ≠ 0 ∧ s.BondFits id beneficiary ∧
      (s.retire id .challenged .rejected).payBond id beneficiary = s' := by
  simp only [rejectChallenged, bind_eq_ok, require_eq_ok, makeBondClaimable_eq_ok,
    decrementOpenSubmission_eq, pure_eq_ok, exists_const, and_assoc, exists_and_left,
    exists_eq_left', bondFits_setStatus, bondFits_dropChallenged]
  rfl

theorem rejectDuplicate_eq_ok {id : ℕ} :
    s.dropChallenged.rejectDuplicate id = .ok s' ↔
      s.BondFits id (s.submissions id).solver ∧
      ((s.retire id .challenged .rejected).payBond id (s.submissions id).solver).note
        [.duplicateSubmissionRejected (s.solutionCidHashOf id) id
          (s.prioritySubmissionOf (s.solutionCidHashOf id))] = s' := by
  simp only [rejectDuplicate, bind_eq_ok, makeBondClaimable_eq_ok, decrementOpenSubmission_eq,
    pure_eq_ok, and_assoc, exists_and_left, exists_eq_left', bondFits_setStatus,
    bondFits_dropChallenged, setStatus_submissions, update_self]
  rfl

theorem rearm_eq_ok {id endsAt : ℕ} :
    s.dropChallenged.rearm id endsAt = .ok s' ↔
      s.revealedSubmissionCount + 1 < 2 ^ 256 ∧ s.rearmAs id endsAt = s' := by
  simp only [rearm, bind_eq_ok, incrementRevealed_eq_ok, pure_eq_ok, and_assoc, exists_and_left,
    exists_eq_left']
  have h : modify id (fun sub => { sub with challengeEndsAt := endsAt })
      (s.dropChallenged.setStatus id .revealed).addRevealed = s.rearmAs id endsAt := by
    simp only [modify, addRevealed, setStatus, dropChallenged, rearmAs, update_self, update_idem]
  rw [h]
  rfl

theorem boundedRearmDeadline_eq_ok {id t : ℕ} : s.boundedRearmDeadline d e id = .ok t ↔
    e.now + d.sm.challengeWindowSeconds < 2 ^ 64 ∧
      min (e.now + d.sm.challengeWindowSeconds) (s.maxDisputeEndsAtOf id) = t := by
  simp only [boundedRearmDeadline, bind_eq_ok, checkedAdd_eq_ok, pure_eq_ok, and_assoc,
    exists_and_left, exists_eq_left']

/-- The submission has the priority of its CID hash. -/
def HasPriority (id : ℕ) (s : SubmissionManager) : Prop :=
  s.prioritySubmissionOf (s.solutionCidHashOf id) = id

instance (id : ℕ) (s : SubmissionManager) : Decidable (s.HasPriority id) :=
  inferInstanceAs (Decidable (_ = _))

theorem resolveChallenge_eq_ok {id : ℕ} {wins : Bool} {beneficiary : Address} :
    s.resolveChallenge d e id wins beneficiary = .ok s' ↔
      e.sender = s.challengeManager ∧ (s.submissions id).solver ≠ 0 ∧
      (s.submissions id).status = .challenged ∧ 1 ≤ s.challengedSubmissionCount ∧
      ∃ s₁, (if wins then beneficiary ≠ 0 ∧ s.BondFits id beneficiary ∧
            (s.retire id .challenged .rejected).payBond id beneficiary = s₁
          else if s.HasPriority id then
            e.now + d.sm.challengeWindowSeconds < 2 ^ 64 ∧
            s.revealedSubmissionCount + 1 < 2 ^ 256 ∧
            s.rearmAs id (min (e.now + d.sm.challengeWindowSeconds) (s.maxDisputeEndsAtOf id)) = s₁
          else s.BondFits id (s.submissions id).solver ∧
            ((s.retire id .challenged .rejected).payBond id (s.submissions id).solver).note
              [.duplicateSubmissionRejected (s.solutionCidHashOf id) id
                (s.prioritySubmissionOf (s.solutionCidHashOf id))] = s₁) ∧
        s₁.emit (.submissionChallengeResolved id wins) = s' := by
  simp only [resolveChallenge, bind_eq_ok, requireSubmission_eq_ok, requireStatus_eq_ok,
    onlyChallengeManager_eq_ok, decrementChallenged_eq_ok, pure_eq_ok, exists_const, and_assoc,
    exists_and_left, exists_eq_left']
  refine and_congr_right (fun _ => and_congr_right (fun _ => and_congr_right (fun _ =>
    and_congr_right (fun _ => exists_congr (fun s₁ => and_congr_left (fun _ => ?_))))))
  cases wins with
  | true => simp only [if_true, rejectChallenged_eq_ok]
  | false =>
      have hprio : s.dropChallenged.prioritySubmissionOf (s.dropChallenged.solutionCidHashOf id) = id
          ↔ s.HasPriority id := Iff.rfl
      simp only [Bool.false_eq_true, if_false, ne_eq, ite_not, hprio]
      split
      · simp only [bind_eq_ok, boundedRearmDeadline_eq_ok, and_assoc, exists_and_left,
          exists_eq_left', rearm_eq_ok]
        rfl
      · exact rejectDuplicate_eq_ok

theorem cancelChallenge_ok {id : ℕ} (h : s.cancelChallenge d e id = .ok s') :
    e.sender = s.challengeManager ∧ (s.submissions id).solver ≠ 0 ∧
    (s.submissions id).status = .challenged ∧
    ((¬ s.HasPriority id ∧
        s' = (((s.retire id .challenged .rejected).payBond id (s.submissions id).solver).note
          [.duplicateSubmissionRejected (s.solutionCidHashOf id) id
            (s.prioritySubmissionOf (s.solutionCidHashOf id))]).note
              [.submissionChallengeCancelled id 0]) ∨
      (s.HasPriority id ∧ ∃ t, t = min (e.now + d.sm.challengeWindowSeconds) (s.maxDisputeEndsAtOf id) ∧
        s' = (s.rearmAs id t).note [.submissionChallengeCancelled id t])) := by
  simp only [cancelChallenge, bind_eq_ok, requireSubmission_eq_ok, requireStatus_eq_ok,
    onlyChallengeManager_eq_ok, decrementChallenged_eq_ok, exists_const, and_assoc,
    exists_and_left, exists_eq_left'] at h
  obtain ⟨hsender, hsolver, hstatus, -, h⟩ := h
  refine ⟨hsender, hsolver, hstatus, ?_⟩
  split at h
  · rename_i hprio
    simp only [bind_eq_ok, rejectDuplicate_eq_ok, pure_eq_ok, and_assoc, exists_and_left,
      exists_eq_left'] at h
    obtain ⟨-, rfl⟩ := h
    exact Or.inl ⟨hprio, rfl⟩
  · rename_i hprio
    simp only [bind_eq_ok, boundedRearmDeadline_eq_ok, rearm_eq_ok, pure_eq_ok, and_assoc,
      exists_and_left, exists_eq_left'] at h
    obtain ⟨-, -, rfl⟩ := h
    exact Or.inr ⟨not_not.mp hprio, _, rfl, rfl⟩

theorem resolveObjectiveChallenge_ok {id : ℕ} {wins : Bool} {beneficiary : Address}
    (h : s.resolveObjectiveChallenge e id wins beneficiary = .ok s') :
    e.sender = s.challengeManager ∧ (s.submissions id).solver ≠ 0 ∧
    (s.submissions id).status = .challenged ∧
    ((wins = true ∧ beneficiary ≠ 0 ∧
        s' = ((s.retire id .challenged .rejected).payBond id beneficiary).note
          [.submissionChallengeResolved id wins]) ∨
      (wins = false ∧ ¬ s.HasPriority id ∧
        s' = (((s.retire id .challenged .rejected).payBond id (s.submissions id).solver).note
          [.duplicateSubmissionRejected (s.solutionCidHashOf id) id
            (s.prioritySubmissionOf (s.solutionCidHashOf id))]).note
              [.submissionChallengeResolved id wins]) ∨
      (wins = false ∧ s.HasPriority id ∧
        s' = ((s.rearmAs id e.now).clearReveal id).note [.submissionChallengeResolved id wins])) := by
  simp only [resolveObjectiveChallenge, bind_eq_ok, requireSubmission_eq_ok, requireStatus_eq_ok,
    onlyChallengeManager_eq_ok, decrementChallenged_eq_ok, pure_eq_ok, exists_const, and_assoc,
    exists_and_left, exists_eq_left'] at h
  obtain ⟨hsender, hsolver, hstatus, -, s₁, hcase, rfl⟩ := h
  refine ⟨hsender, hsolver, hstatus, ?_⟩
  cases wins with
  | true =>
      simp only [if_true, rejectChallenged_eq_ok] at hcase
      obtain ⟨hben, -, rfl⟩ := hcase
      exact Or.inl ⟨rfl, hben, rfl⟩
  | false =>
      right
      simp only [Bool.false_eq_true, if_false] at hcase
      split at hcase
      · rename_i hprio
        rw [rejectDuplicate_eq_ok] at hcase
        obtain ⟨-, rfl⟩ := hcase
        exact Or.inl ⟨rfl, hprio, rfl⟩
      · rename_i hprio
        simp only [bind_eq_ok, rearm_eq_ok, pure_eq_ok, and_assoc, exists_and_left,
          exists_eq_left'] at hcase
        obtain ⟨-, rfl⟩ := hcase
        exact Or.inr ⟨rfl, not_not.mp hprio, rfl⟩

theorem claimBond_ok {amount : ℕ} (h : s.claimBond e = .ok (amount, s')) :
    s.claiming = false ∧ amount = s.claimableBondWei e.sender ∧ amount ≠ 0 ∧
    amount ≤ s.balance ∧ s' = s.withdraw e.sender := by
  simp only [claimBond, bind_eq_ok, require_eq_ok, revertIf_eq_ok, pure_eq_ok, exists_const,
    not_or, not_lt, Prod.mk.injEq] at h
  obtain ⟨hclaiming, hne, ⟨hle, -⟩, rfl, rfl⟩ := h
  exact ⟨hclaiming, rfl, hne, hle, rfl⟩

/-! ### Administration -/

/-- What a call may do to the pauses. -/
inductive PauseMove (d : Deployment) (e : Env) (p : PauseState) : PauseState → Prop
  | keep (b : Bool) : PauseMove d e p { p with pausedNewActions := b }
  | arm : p.pausedAll = false → p.expiryGraceUntil ≤ e.now →
      PauseMove d e p { p with pausedAll := true, pausedAllAt := e.now }
  | clear : p.pausedAll = true → p.pausedAllAt ≤ e.now →
      PauseMove d e p { p with
        pausedAll := false
        totalPausedAllSeconds := p.totalPausedAllSeconds + (e.now - p.pausedAllAt)
        expiryGraceUntil := e.now + d.sm.challengeWindowSeconds }

/-- `signature` is a valid signature of the authority over `a`. -/
def FundingSigned (d : Deployment) (authority : Address) (a : FundingAuthorization)
    (signature : Bytes) : Prop :=
  requireFundingSignature d authority a signature = .ok ()

/-- The three funding authorities signed, each in its role. -/
structure AuthoritiesSigned (d : Deployment) (authorizationDigest : Bytes32) (expiresAt nonce : ℕ)
    (signatures : Bytes × Bytes × Bytes) : Prop where
  productionLaunch : FundingSigned d d.sm.productionLaunchAuthority
    ⟨d.crypto.productionLaunchAuthorityRole, authorizationDigest, expiresAt, nonce⟩ signatures.1
  independentSecurity : FundingSigned d d.sm.independentSecurityAuthority
    ⟨d.crypto.independentSecurityAuthorityRole, authorizationDigest, expiresAt, nonce⟩
    signatures.2.1
  governance : FundingSigned d d.sm.governanceAuthority
    ⟨d.crypto.governanceAuthorityRole, authorizationDigest, expiresAt, nonce⟩ signatures.2.2

/-- What a call may do to the funding authorization. -/
inductive FundingMove (d : Deployment) (e : Env) (q : FundingState) :
    ManagerCall → FundingState → Prop
  | keep {c : ManagerCall} : ¬ c.IsFunding → FundingMove d e q c q
  | authorize {digest : Bytes32} {expiresAt : ℕ} {signatures : Bytes × Bytes × Bytes} :
      digest ≠ 0 → q.fundingArmed = false →
      (q.authorizedFundingDigest = 0 ∨ q.fundingAuthorizationExpiresAt < e.now) →
      e.now ≤ expiresAt →
      AuthoritiesSigned d digest expiresAt q.fundingAuthorizationNonce signatures →
      FundingMove d e q (.authorizeFunding digest expiresAt q.fundingAuthorizationNonce signatures)
        { q with
          fundingAuthorizationNonce := q.fundingAuthorizationNonce + 1
          authorizedFundingDigest := digest
          fundingAuthorizationExpiresAt := expiresAt }
  | cancel : q.fundingArmed = false → q.authorizedFundingDigest ≠ 0 →
      e.now ≤ q.fundingAuthorizationExpiresAt →
      FundingMove d e q (.cancelFundingAuthorization q.authorizedFundingDigest)
        { q with
          authorizedFundingDigest := 0
          fundingAuthorizationExpiresAt := 0
          fundingAuthorizationNonce := q.fundingAuthorizationNonce + 1 }
  | arm : q.fundingArmed = false → q.authorizedFundingDigest ≠ 0 →
      e.now ≤ q.fundingAuthorizationExpiresAt → d.sm.armNotBefore ≤ e.now →
      FundingMove d e q (.armFunding q.authorizedFundingDigest)
        { q with
          fundingArmed := true
          armedAt := e.now
          fundingAuthorizationDigest := q.authorizedFundingDigest }

/-- Nothing changes but the pauses, the funding authorization and the pointer to the challenge
manager. -/
structure Administers (d : Deployment) (e : Env) (c : ManagerCall) (s s' : SubmissionManager) :
    Prop where
  register : s'.toRegisterState = s.toRegisterState
  frontier : s'.toFrontierState = s.toFrontierState
  bonds : s'.toBondState = s.toBondState
  pause : PauseMove d e s.toPauseState s'.toPauseState
  funding : FundingMove d e s.toFundingState c s'.toFundingState
  manager : s.challengeManager = 0 ∨ s'.challengeManager = s.challengeManager
  logs : ∃ evs, (∀ ev ∈ evs, ev.IsNote) ∧ s'.logs = evs ++ s.logs

/-- A call that leaves the pauses alone. -/
theorem Administers.of_funding {c : ManagerCall} {s₁ s₂ : SubmissionManager}
    (evs : List ManagerEvent)
    (hp : s₂.toPauseState = s₁.toPauseState) (hr : s₂.toRegisterState = s₁.toRegisterState)
    (hf : s₂.toFrontierState = s₁.toFrontierState) (hb : s₂.toBondState = s₁.toBondState)
    (hq : FundingMove d e s₁.toFundingState c s₂.toFundingState)
    (hm : s₁.challengeManager = 0 ∨ s₂.challengeManager = s₁.challengeManager)
    (hevs : ∀ ev ∈ evs, ev.IsNote) (hl : s₂.logs = evs ++ s₁.logs) : Administers d e c s₁ s₂ :=
  ⟨hr, hf, hb, by rw [hp]; exact PauseMove.keep s₁.pausedNewActions, hq, hm, evs, hevs, hl⟩

theorem clearPausedAll_eq_ok : s.clearPausedAll d e = .ok s' ↔
    s.pausedAllAt ≤ e.now ∧ s.totalPausedAllSeconds + (e.now - s.pausedAllAt) < 2 ^ 64 ∧
    e.now + d.sm.challengeWindowSeconds < 2 ^ 64 ∧
    { s with
      totalPausedAllSeconds := s.totalPausedAllSeconds + (e.now - s.pausedAllAt)
      pausedAll := false
      expiryGraceUntil := e.now + d.sm.challengeWindowSeconds }.emit (.allActionsPaused false) =
        s' := by
  simp only [clearPausedAll, bind_eq_ok, checkedSub_eq_ok, checkedAdd_eq_ok, pure_eq_ok, and_assoc,
    exists_and_left, exists_eq_left']

theorem setPausedNewActions_ok {paused : Bool} (h : s.setPausedNewActions d e paused = .ok s') :
    Administers d e (.setPausedNewActions paused) s s' := by
  simp only [setPausedNewActions, bind_eq_ok, onlyOwner_eq_ok, pure_eq_ok, exists_const] at h
  obtain ⟨-, rfl⟩ := h
  exact ⟨rfl, rfl, rfl, PauseMove.keep paused, .keep not_false, Or.inr rfl,
    [.newActionsPaused paused],
    by simp [ManagerEvent.IsNote], rfl⟩

theorem setPausedAll_ok {paused : Bool} (h : s.setPausedAll d e paused = .ok s') :
    Administers d e (.setPausedAll paused) s s' := by
  simp only [setPausedAll, bind_eq_ok, onlyOwner_eq_ok, exists_const] at h
  obtain ⟨-, h⟩ := h
  cases paused with
  | true =>
      simp only [if_true, bind_eq_ok, armPausedAll, pure_eq_ok] at h
      obtain ⟨s₁, hs₁, rfl⟩ := h
      split at hs₁
      · rw [pure_eq_ok] at hs₁
        subst hs₁
        exact ⟨rfl, rfl, rfl, PauseMove.keep s.pausedNewActions, .keep not_false, Or.inr rfl,
          [.allActionsPaused true], by simp [ManagerEvent.IsNote], rfl⟩
      · rename_i hp
        simp only [bind_eq_ok, revertIf_eq_ok, pure_eq_ok, exists_const, not_lt] at hs₁
        obtain ⟨hgrace, rfl⟩ := hs₁
        exact ⟨rfl, rfl, rfl, PauseMove.arm (Bool.not_eq_true _ ▸ hp) hgrace, .keep not_false,
          Or.inr rfl, [.allActionsPaused true], by simp [ManagerEvent.IsNote], rfl⟩
  | false =>
      simp only [Bool.false_eq_true, if_false, bind_eq_ok, revertIf_eq_ok, exists_const,
        clearPausedAll_eq_ok, Bool.not_eq_false] at h
      obtain ⟨hp, hat, -, -, rfl⟩ := h
      exact ⟨rfl, rfl, rfl, PauseMove.clear hp hat, .keep not_false, Or.inr rfl,
        [.allActionsPaused false], by simp [ManagerEvent.IsNote], rfl⟩

theorem recoverPausedAll_eq_ok : s.recoverPausedAll d e = .ok s' ↔
    s.pausedAll = true ∧ s.pausedAllAt + pausedAllRecoveryDelay < 2 ^ 64 ∧
    s.pausedAllAt + pausedAllRecoveryDelay ≤ e.now ∧ ∃ s₁, s.clearPausedAll d e = .ok s₁ ∧
    s₁.emit (.allActionsPauseRecovered e.sender (s.pausedAllAt + pausedAllRecoveryDelay)) = s' := by
  simp only [recoverPausedAll, bind_eq_ok, revertIf_eq_ok, checkedAdd_eq_ok, pure_eq_ok,
    exists_const, and_assoc, exists_and_left, exists_eq_left', Bool.not_eq_false, not_lt]

theorem recoverPausedAll_ok (h : s.recoverPausedAll d e = .ok s') :
    Administers d e .recoverPausedAll s s' := by
  rw [recoverPausedAll_eq_ok] at h
  obtain ⟨hp, -, -, s₁, hs₁, rfl⟩ := h
  rw [clearPausedAll_eq_ok] at hs₁
  obtain ⟨hat, -, -, rfl⟩ := hs₁
  exact ⟨rfl, rfl, rfl, PauseMove.clear hp hat, .keep not_false, Or.inr rfl,
    [.allActionsPauseRecovered e.sender _, .allActionsPaused false],
    by simp [ManagerEvent.IsNote], rfl⟩

theorem authorizeFunding_ok {digest : Bytes32} {expiresAt nonce : ℕ}
    {signatures : Bytes × Bytes × Bytes}
    (h : s.authorizeFunding d e digest expiresAt nonce signatures = .ok s') :
    Administers d e (.authorizeFunding digest expiresAt nonce signatures) s s' := by
  simp only [authorizeFunding, bind_eq_ok, revertIf_eq_ok, checkedAdd_eq_ok, pure_eq_ok,
    Unique.exists_iff, and_assoc, exists_and_left, exists_eq_left', not_and_or, not_not, not_le,
    not_lt, ne_eq, Bool.not_eq_true] at h
  obtain ⟨-, -, hzero, harmed, hold, hexpires, rfl, hlaunch, hsecurity, hgov, -, rfl⟩ := h
  have hq := FundingMove.authorize (d := d) (e := e) (q := s.toFundingState) hzero harmed hold
    hexpires ⟨hlaunch, hsecurity, hgov⟩
  exact Administers.of_funding [_, _] rfl rfl rfl rfl hq (Or.inr rfl)
    (by simp [ManagerEvent.IsNote]) rfl

theorem cancelFundingAuthorization_ok {digest : Bytes32}
    (h : s.cancelFundingAuthorization d e digest = .ok s') :
    Administers d e (.cancelFundingAuthorization digest) s s' := by
  simp only [cancelFundingAuthorization, bind_eq_ok, onlyOwner_eq_ok, revertIf_eq_ok,
    checkedAdd_eq_ok, pure_eq_ok, exists_const, and_assoc, exists_and_left, exists_eq_left',
    not_or, not_not, not_lt, ne_eq, Bool.not_eq_true] at h
  obtain ⟨-, harmed, rfl, hzero, hexpires, -, rfl⟩ := h
  exact Administers.of_funding [_] rfl rfl rfl rfl (.cancel harmed hzero hexpires) (Or.inr rfl)
    (by simp [ManagerEvent.IsNote]) rfl

theorem armFunding_ok {digest : Bytes32} (h : s.armFunding d e digest = .ok s') :
    Administers d e (.armFunding digest) s s' := by
  simp only [armFunding, bind_eq_ok, onlyOwner_eq_ok, revertIf_eq_ok, pure_eq_ok,
    Unique.exists_iff, not_not, not_lt, ne_eq, Bool.not_eq_true] at h
  obtain ⟨-, -, harmed, hzero, rfl, hexpires, hwindow, rfl⟩ := h
  exact Administers.of_funding [_] rfl rfl rfl rfl (.arm harmed hzero hexpires hwindow)
    (Or.inr rfl) (by simp [ManagerEvent.IsNote]) rfl

theorem setChallengeManager_ok {a : Address} (h : s.setChallengeManager d e a = .ok s') :
    Administers d e (.setChallengeManager a) s s' := by
  simp only [setChallengeManager, bind_eq_ok, onlyOwner_eq_ok, require_eq_ok, revertIf_eq_ok,
    pure_eq_ok, exists_const, ne_eq, not_not] at h
  obtain ⟨-, -, hzero, rfl⟩ := h
  exact Administers.of_funding [_] rfl rfl rfl rfl (.keep not_false) (Or.inl hzero)
    (by simp [ManagerEvent.IsNote]) rfl

/-! ### The moves -/

/-- What a successful call does to the submission manager and the ledger, and the call it leaves
suspended. -/
inductive Move (d : Deployment) (e : Env) (l : PayoutLedger) (p : BountyPool)
    (s : SubmissionManager) :
    ManagerCall → SubmissionManager → PayoutLedger → List Frame → Prop
  | administer {c : ManagerCall} {s' : SubmissionManager} :
      ¬ c.IsReveal → Administers d e c s s' → Move d e l p s c s' l []
  | commit {commitment commitDaHash : Bytes32} {sub : Submission} {required activeAt : ℕ} :
      s.pausedAll = false → l.closed = false → s.submissionCount + 1 < 2 ^ 256 →
      requiredPostingBondForPool d (if s.fundingArmed then d.pc.fundingCap
        else p.accountedBalance) = .ok required →
      required ≤ e.value → s.activeTimestamp e = .ok activeAt →
      sub.solver = e.sender → sub.bondWei = e.value → sub.status = .committed →
      s.Accepts d e sub →
      Move d e l p s (.commit commitment commitDaHash)
        ((s.addCommit sub (e.block.number % 2 ^ 64) activeAt s.fundingArmed).emit
          (.committed (s.submissionCount + 1) e.sender commitment commitDaHash e.value
            p.accountedBalance required s.fundingArmed (e.block.number % 2 ^ 64))) l []
  | addBond {id : ℕ} :
      (s.submissions id).solver ≠ 0 →
      ((s.submissions id).status = .committed ∨ (s.submissions id).status = .revealed ∨
        (s.submissions id).status = .challenged) →
      Move d e l p s (.topUpBond id) ((s.addBond id e.value).emit
        (.bondToppedUp id e.sender e.value ((s.submissions id).bondWei + e.value))) l []
  | reveal {id improvement : ℕ} {cid salt solution : Bytes} {claimed : ℤ} {r : RevealInstance}
      {maxDisputeEndsAt : ℕ} {recorded : SubmissionManager} :
      s.pausedAll = false → (s.submissions id).solver ≠ 0 → (s.submissions id).status = .committed →
      s.requireCommitOpen d e id = .ok () →
      claimed < d.sm.seedScoreAtoms → minScoreAtomsBound < claimed →
      r.submissionId = id → r.solutionCid = cid → r.claimedScoreAtoms = claimed →
      r.challengeEndsAt = e.now + d.sm.challengeWindowSeconds →
      maxDisputeEndsAt = e.now + d.sm.challengeWindowSeconds * maxCumulativeDisputeWindows →
      recorded = s.recordReveal d e id r maxDisputeEndsAt → r.Binds d (s.submissions id) →
      Move d e l p s (.reveal id cid claimed improvement salt solution)
        ((if s.prioritySubmissionOf (d.crypto.keccak256 cid) = 0 ∨
            id < s.prioritySubmissionOf (d.crypto.keccak256 cid) then
          recorded.takePriority id (d.crypto.keccak256 cid)
          else recorded.yieldPriority id (d.crypto.keccak256 cid)).emit
            (.revealed id e.sender cid improvement claimed r.challengeEndsAt solution.length
              (d.revealInstanceHash r))) l []
  | retire {c : ManagerCall} {id : ℕ} {source : SubmissionStatus} {claimant : Address}
      (notReveal : ¬ c.IsReveal) (evs : List ManagerEvent) :
      (s.submissions id).solver ≠ 0 → (s.submissions id).status = source →
      (source = .committed ∨ source = .revealed ∨
        source = .challenged ∧ e.sender = s.challengeManager) →
      (∀ ev ∈ evs, ev.IsNote) →
      Move d e l p s c (((s.retire id source .rejected).payBond id claimant).note evs) l []
  | finalize {id : ℕ} {permanenceHash : Bytes32} {l' : PayoutLedger} :
      s.pausedAll = false → (s.submissions id).solver ≠ 0 → (s.submissions id).status = .revealed →
      (s.submissions id).challengeEndsAt ≤ e.now → s.HasPriority id →
      (if s.creditOf d id = 0 then l' = l
        else requireCollateral d (s.submissions id) = .ok () ∧
          l.recordCredit d { e with sender := d.submissionManager } (s.submissions id).solver
            (s.creditOf d id) = .ok l') →
      Move d e l p s (.finalize id permanenceHash) (s.finalized d e id permanenceHash p) l' []
  | release {id : ℕ} :
      l.closed = true → (s.submissions id).solver ≠ 0 → (s.submissions id).status = .finalized →
      Move d e l p s (.releaseFinalizedBond id) (s.payBond id (s.submissions id).solver) l []
  | void {id : ℕ} {l' : PayoutLedger} :
      s.revealedSubmissionCount = 0 → s.challengedSubmissionCount = 0 →
      (s.submissions id).solver ≠ 0 → (s.submissions id).status = .finalized →
      s.bestScoreAtoms = (s.submissions id).claimedScoreAtoms →
      (s.finalizeInfo id).prevBestScoreAtoms ≠ (s.submissions id).claimedScoreAtoms →
      (if (s.finalizeInfo id).creditAtoms = 0 then l' = l
        else l.voidCredit { e with sender := d.submissionManager } (s.submissions id).solver
          (s.finalizeInfo id).creditAtoms = .ok l') →
      Move d e l p s (.voidFinalize id) (s.voided d id) l' []
  | mark {id : ℕ} :
      e.sender = s.challengeManager → (s.submissions id).solver ≠ 0 →
      (s.submissions id).status = .revealed →
      s.objectiveClearedRevealInstanceHashOf id ≠ s.revealInstanceHashOf id →
      e.now < (s.submissions id).challengeEndsAt →
      Move d e l p s (.markChallenged id) ((s.markAs id).note [.submissionChallenged id e.sender]) l []
  | rearm {c : ManagerCall} {id t : ℕ} (evs : List ManagerEvent) :
      (∃ beneficiary, c = .resolveChallenge id false beneficiary) ∨ c = .cancelChallenge id →
      e.sender = s.challengeManager → (s.submissions id).solver ≠ 0 →
      (s.submissions id).status = .challenged → s.HasPriority id →
      t = min (e.now + d.sm.challengeWindowSeconds) (s.maxDisputeEndsAtOf id) →
      (∀ ev ∈ evs, ev.IsNote) → Move d e l p s c ((s.rearmAs id t).note evs) l []
  | clear {id : ℕ} {beneficiary : Address} (evs : List ManagerEvent) :
      e.sender = s.challengeManager → (s.submissions id).solver ≠ 0 →
      (s.submissions id).status = .challenged → s.HasPriority id → (∀ ev ∈ evs, ev.IsNote) →
      Move d e l p s (.resolveObjectiveChallenge id false beneficiary)
        (((s.rearmAs id e.now).clearReveal id).note evs) l []
  | withdraw :
      s.claiming = false → s.claimableBondWei e.sender ≠ 0 →
      s.claimableBondWei e.sender ≤ s.balance →
      Move d e l p s .claimBond (s.withdraw e.sender) l
        [.managerBond e.sender (s.claimableBondWei e.sender)]

/-- Every successful call of the submission manager is a move. -/
theorem move_of_run {c : ManagerCall} {p : BountyPool} {f : List Frame}
    (h : c.run d e l p s = .ok (s', l', f)) : Move d e l p s c s' l' f := by
  cases c with
  | setPausedNewActions paused =>
      simp only [ManagerCall.run, map_eq_ok, Prod.mk.injEq] at h
      obtain ⟨_, h, rfl, rfl, rfl⟩ := h
      exact .administer (by exact not_false) (setPausedNewActions_ok h)
  | setPausedAll paused =>
      simp only [ManagerCall.run, map_eq_ok, Prod.mk.injEq] at h
      obtain ⟨_, h, rfl, rfl, rfl⟩ := h
      exact .administer (by exact not_false) (setPausedAll_ok h)
  | recoverPausedAll =>
      simp only [ManagerCall.run, map_eq_ok, Prod.mk.injEq] at h
      obtain ⟨_, h, rfl, rfl, rfl⟩ := h
      exact .administer (by exact not_false) (recoverPausedAll_ok h)
  | authorizeFunding digest expiresAt nonce signatures =>
      simp only [ManagerCall.run, map_eq_ok, Prod.mk.injEq] at h
      obtain ⟨_, h, rfl, rfl, rfl⟩ := h
      exact .administer (by exact not_false) (authorizeFunding_ok h)
  | cancelFundingAuthorization digest =>
      simp only [ManagerCall.run, map_eq_ok, Prod.mk.injEq] at h
      obtain ⟨_, h, rfl, rfl, rfl⟩ := h
      exact .administer (by exact not_false) (cancelFundingAuthorization_ok h)
  | armFunding digest =>
      simp only [ManagerCall.run, map_eq_ok, Prod.mk.injEq] at h
      obtain ⟨_, h, rfl, rfl, rfl⟩ := h
      exact .administer (by exact not_false) (armFunding_ok h)
  | setChallengeManager a =>
      simp only [ManagerCall.run, map_eq_ok, Prod.mk.injEq] at h
      obtain ⟨_, h, rfl, rfl, rfl⟩ := h
      exact .administer (by exact not_false) (setChallengeManager_ok h)
  | commit commitment commitDaHash =>
      simp only [ManagerCall.run, map_eq_ok, Prod.mk.injEq] at h
      obtain ⟨_, h, rfl, rfl, rfl⟩ := h
      obtain ⟨hp, hclosed, hcount, required, activeAt, sub, hreq, hval, hactive, htime, hsub, rfl⟩ :=
        commit_ok h
      exact .commit hp hclosed hcount hreq hval hactive (by rw [hsub]) (by rw [hsub]) (by rw [hsub])
        ⟨htime, by rw [hsub], by rw [hsub]⟩
  | topUpBond id =>
      simp only [ManagerCall.run, map_eq_ok, Prod.mk.injEq] at h
      obtain ⟨_, h, rfl, rfl, rfl⟩ := h
      obtain ⟨hsolver, hstatus, rfl⟩ := topUpBond_ok h
      exact .addBond hsolver hstatus
  | reveal id cid claimed improvement salt solution =>
      simp only [ManagerCall.run, map_eq_ok, Prod.mk.injEq] at h
      obtain ⟨_, h, rfl, rfl, rfl⟩ := h
      obtain ⟨hp, hsolver, -, hstatus, -, hopen, hreq, r, hid, hcid, hclaimed, hends, hbinds,
        recorded, hrec, rfl⟩ := reveal_ok h
      simp only [requireRevealable, bind_eq_ok, revertIf_eq_ok, Unique.exists_iff, ge_iff_le,
        not_le] at hreq
      exact .reveal hp hsolver hstatus hopen hreq.2.2.1 hreq.2.2.2.1 hid hcid hclaimed hends rfl hrec
        hbinds
  | finalize id permanenceHash =>
      simp only [ManagerCall.run, map_eq_ok, Prod.mk.injEq] at h
      obtain ⟨⟨_, _⟩, h, rfl, rfl, rfl⟩ := h
      obtain ⟨hp, hsolver, -, hstatus, hends, hcase⟩ := finalize_eq_ok.mp h
      split at hcase
      · rename_i hprio
        obtain ⟨-, -, hcredit, rfl⟩ := finalizePriority_eq_ok.mp hcase
        refine .finalize hp hsolver hstatus hends hprio ?_
        split at hcredit
        · rename_i hc
          rw [if_pos hc]
          exact hcredit.2
        · rename_i hc
          rw [if_neg hc]
          exact ⟨hcredit.1, hcredit.2.2⟩
      · obtain ⟨hdup, rfl⟩ := hcase
        obtain ⟨-, -, rfl⟩ := finalizeDuplicate_eq_ok.mp hdup
        exact .retire (by exact not_false) [_] hsolver hstatus (Or.inr (Or.inl rfl)) (by simp [ManagerEvent.IsNote])
  | releaseFinalizedBond id =>
      simp only [ManagerCall.run, map_eq_ok, Prod.mk.injEq] at h
      obtain ⟨_, h, rfl, rfl, rfl⟩ := h
      obtain ⟨hclosed, hsolver, hstatus, rfl⟩ := releaseFinalizedBond_ok h
      exact .release hclosed hsolver hstatus
  | voidFinalize id =>
      simp only [ManagerCall.run, map_eq_ok, Prod.mk.injEq] at h
      obtain ⟨⟨_, _⟩, h, rfl, rfl, rfl⟩ := h
      obtain ⟨-, -, hrev, hch, hsolver, hstatus, hbest, hprev, hcredit, rfl⟩ := voidFinalize_ok h
      exact .void hrev hch hsolver hstatus hbest hprev hcredit
  | markChallenged id =>
      simp only [ManagerCall.run, map_eq_ok, Prod.mk.injEq] at h
      obtain ⟨_, h, rfl, rfl, rfl⟩ := h
      obtain ⟨hsender, hsolver, hstatus, hclear, hends, -, -, rfl⟩ := markChallenged_eq_ok.mp h
      exact .mark hsender hsolver hstatus hclear hends
  | resolveChallenge id wins beneficiary =>
      simp only [ManagerCall.run, map_eq_ok, Prod.mk.injEq] at h
      obtain ⟨_, h, rfl, rfl, rfl⟩ := h
      obtain ⟨hsender, hsolver, hstatus, -, s₁, hcase, rfl⟩ := resolveChallenge_eq_ok.mp h
      split at hcase
      · obtain ⟨-, -, rfl⟩ := hcase
        exact .retire (by exact not_false) [_] hsolver hstatus (Or.inr (Or.inr ⟨rfl, hsender⟩))
          (by simp [ManagerEvent.IsNote])
      · rename_i hwins
        obtain rfl : wins = false := by simpa using hwins
        split at hcase
        · rename_i hprio
          obtain ⟨-, -, rfl⟩ := hcase
          exact .rearm [_] (Or.inl ⟨_, rfl⟩) hsender hsolver hstatus hprio rfl
            (by simp [ManagerEvent.IsNote])
        · obtain ⟨-, rfl⟩ := hcase
          exact .retire (by exact not_false) [_, _] hsolver hstatus (Or.inr (Or.inr ⟨rfl, hsender⟩))
            (by simp [ManagerEvent.IsNote])
  | cancelChallenge id =>
      simp only [ManagerCall.run, map_eq_ok, Prod.mk.injEq] at h
      obtain ⟨_, h, rfl, rfl, rfl⟩ := h
      obtain ⟨hsender, hsolver, hstatus, ⟨-, rfl⟩ | ⟨hprio, t, ht, rfl⟩⟩ := cancelChallenge_ok h
      · exact .retire (by exact not_false) [_, _] hsolver hstatus (Or.inr (Or.inr ⟨rfl, hsender⟩))
          (by simp [ManagerEvent.IsNote])
      · exact .rearm [_] (Or.inr rfl) hsender hsolver hstatus hprio ht (by simp [ManagerEvent.IsNote])
  | resolveObjectiveChallenge id wins beneficiary =>
      simp only [ManagerCall.run, map_eq_ok, Prod.mk.injEq] at h
      obtain ⟨_, h, rfl, rfl, rfl⟩ := h
      obtain ⟨hsender, hsolver, hstatus, ⟨-, -, rfl⟩ | ⟨-, -, rfl⟩ | ⟨rfl, hprio, rfl⟩⟩ :=
        resolveObjectiveChallenge_ok h
      · exact .retire (by exact not_false) [_] hsolver hstatus (Or.inr (Or.inr ⟨rfl, hsender⟩)) (by simp [ManagerEvent.IsNote])
      · exact .retire (by exact not_false) [_, _] hsolver hstatus (Or.inr (Or.inr ⟨rfl, hsender⟩))
          (by simp [ManagerEvent.IsNote])
      · exact .clear [_] hsender hsolver hstatus hprio (by simp [ManagerEvent.IsNote])
  | expireCommitted id =>
      simp only [ManagerCall.run, map_eq_ok, Prod.mk.injEq] at h
      obtain ⟨_, h, rfl, rfl, rfl⟩ := h
      obtain ⟨-, hsolver, hstatus, -, -, rfl⟩ := expireCommitted_ok h
      exact .retire (by exact not_false) [_] hsolver hstatus (Or.inl rfl) (by simp [ManagerEvent.IsNote])
  | expireRevealed id =>
      simp only [ManagerCall.run, map_eq_ok, Prod.mk.injEq] at h
      obtain ⟨_, h, rfl, rfl, rfl⟩ := h
      obtain ⟨-, hsolver, hstatus, -, -, -, -, -, rfl⟩ := expireRevealed_eq_ok.mp h
      exact .retire (by exact not_false) [_] hsolver hstatus (Or.inr (Or.inl rfl)) (by simp [ManagerEvent.IsNote])
  | claimBond =>
      simp only [ManagerCall.run, map_eq_ok, Prod.mk.injEq] at h
      obtain ⟨⟨_, _⟩, h, rfl, rfl, rfl⟩ := h
      obtain ⟨hclaiming, rfl, hne, hle, rfl⟩ := claimBond_ok h
      exact .withdraw hclaiming hne hle

end SubmissionManager
end P42Prizes
