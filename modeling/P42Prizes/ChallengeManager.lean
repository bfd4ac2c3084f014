import P42Prizes.SubmissionManager

/-! # The challenge manager

`P42ChallengeManager` takes the counter-bonds of challengers and the decision bonds of the
resolver and settles both when a dispute ends, telling the submission manager the outcome.
Its functions call the submission manager of the board, so they take and return its storage;
those calls are made under the challenge manager's own address (`Deployment.asChallenger`). -/

namespace P42Prizes

open Reverting Function

structure Challenge where
  submissionId : ℕ := 0
  challenger : Address := 0
  reasonHash : Bytes32 := 0
  challengeBondWei : ℕ := 0
  challengedAt : ℕ := 0
  disputeEndsAt : ℕ := 0
  resolved : Bool := false
  decisionPending : Bool := false
  challengerWins : Bool := false
  transcriptHash : Bytes32 := 0
  transcriptURI : Bytes := []
  verdictHash : Bytes32 := 0

/-- The record of a dispute that ended with a decision. -/
def Challenge.settle (ch : Challenge) (challengerWins : Bool) : Challenge :=
  { ch with decisionPending := false, resolved := true, challengerWins := challengerWins }

structure ResolverBond where
  amountWei : ℕ := 0
  releaseAt : ℕ := 0
  slashProofHash : Bytes32 := 0

inductive ChallengeEvent where
  | newActionsPaused (paused : Bool)
  | challenged (submissionId : ℕ) (challenger : Address) (reasonHash : Bytes32)
      (bondWei disputeEndsAt : ℕ) (revealInstanceHash challengeInstanceHash : Bytes32)
  | resolverTranscriptPosted (submissionId : ℕ) (resolver : Address) (transcriptHash : Bytes32)
      (transcriptURI : Bytes) (verdictHash : Bytes32) (resolverBondBeneficiary : Address)
      (resolverBondWei resolverBondReleaseAt : ℕ) (challengerWins : Bool)
      (challengeInstanceHash : Bytes32)
  | resolved (submissionId : ℕ) (challengerWins : Bool) (challengeInstanceHash : Bytes32)
  | resolverDecisionCancelled (submissionId : ℕ) (challenger : Address)
      (proofHash challengeInstanceHash : Bytes32)
  | challengeExpired (submissionId : ℕ) (challenger : Address) (refundedBondWei : ℕ)
      (challengeInstanceHash : Bytes32)
  | resolverBondReleased (submissionId : ℕ) (resolver : Address) (amount : ℕ)
      (challengeInstanceHash : Bytes32)
  | resolverBondSlashed (submissionId : ℕ) (beneficiary : Address) (amount : ℕ)
      (proofHash challengeInstanceHash : Bytes32)
  | objectiveFraudProven (submissionId : ℕ) (proofBeneficiary : Address) (proofHash : Bytes32)
      (correctedChallengerWins : Bool) (resolverBondRewardWei : ℕ)
      (challengeInstanceHash : Bytes32)
  | bondClaimed (claimant : Address) (amount : ℕ)
deriving DecidableEq, Repr

/-- The storage of `P42ChallengeManager`, its ETH and its events, newest first. -/
structure ChallengeManager extends BondState where
  pausedNewActions : Bool := false
  challenges : ℕ → Challenge := fun _ => {}
  challengeRevealInstanceHashOf : ℕ → Bytes32 := fun _ => 0
  challengeInstanceHashOf : ℕ → Bytes32 := fun _ => 0
  resolverBonds : ℕ → ResolverBond := fun _ => {}
  resolverBondBeneficiaryOf : ℕ → Address := fun _ => 0
  logs : List ChallengeEvent := []

/-- The same call data, sent by the challenge manager. -/
def Deployment.asChallenger (d : Deployment) (e : Env) : Env :=
  { e with sender := d.challengeManager, value := 0 }

namespace ChallengeManager

variable (d : Deployment) (e : Env)

/-! ### Writes and guards -/

def emit (ev : ChallengeEvent) (c : ChallengeManager) : ChallengeManager :=
  { c with logs := ev :: c.logs }

def setChallenge (id : ℕ) (ch : Challenge) (c : ChallengeManager) : ChallengeManager :=
  { c with challenges := update c.challenges id ch }

/-- `claimableBondWei[claimant] += amount` -/
def credit (claimant : Address) (amount : ℕ) (c : ChallengeManager) : Outcome ChallengeManager := do
  let claimable ← addU256 (c.claimableBondWei claimant) amount
  pure { c with claimableBondWei := update c.claimableBondWei claimant claimable }

/-- The decision bond of `id` is taken out. -/
def clearResolverBond (id : ℕ) (c : ChallengeManager) : ChallengeManager :=
  { c with
    resolverBonds := update c.resolverBonds id { c.resolverBonds id with amountWei := 0 }
    resolverBondBeneficiaryOf := update c.resolverBondBeneficiaryOf id 0 }

def setSlashProofHash (id : ℕ) (proofHash : Bytes32) (c : ChallengeManager) : ChallengeManager :=
  { c with
    resolverBonds := update c.resolverBonds id
      { c.resolverBonds id with slashProofHash := proofHash } }

def onlyOwner : Outcome Unit := revertIf (e.sender ≠ d.cm.owner) (fail .notOwner)

def onlyResolver : Outcome Unit := revertIf (e.sender ≠ d.cm.resolver) (fail .notResolver)

/-- `_requireChallengeInstance` -/
def requireChallengeInstance (id : ℕ) (expected : Bytes32) (c : ChallengeManager) :
    Outcome Unit := do
  revertIf (expected = 0) (fail .emptyChallengeInstanceHash)
  revertIf (c.challengeInstanceHashOf id ≠ expected)
    (fail .challengeInstanceMismatch [expected.toNat, (c.challengeInstanceHashOf id).toNat])

/-- `_requireRevealInstance` -/
def requireRevealInstance (id : ℕ) (expected : Bytes32) (s : SubmissionManager) :
    Outcome Unit := do
  revertIf (expected = 0) (fail .emptyRevealInstanceHash)
  revertIf (s.revealInstanceHashOf id ≠ expected)
    (fail .revealInstanceMismatch [expected.toNat, (s.revealInstanceHashOf id).toNat])

/-- The challenge named by its instance hash. -/
def requireChallenge (id : ℕ) (expected : Bytes32) (c : ChallengeManager) : Outcome Challenge := do
  revertIf ((c.challenges id).challenger = 0) (fail .unknownChallenge)
  c.requireChallengeInstance id expected
  pure (c.challenges id)

def requiredChallengeBond (disputedEntitlementWei : ℕ) : Outcome ℕ := do
  let scaledDelayValue ← mulDiv disputedEntitlementWei d.cm.betaBps 10000
  let scaledRerunCost ← mulDiv d.cm.rerunCostWei d.cm.rerunCostMultiplierBps 10000
  pure (max (max d.cm.minCounterBondWei scaledDelayValue) scaledRerunCost)

/-- `_resolverBondReleaseAt` -/
def resolverBondReleaseAt (id : ℕ) (s : SubmissionManager) : Outcome ℕ := do
  let proposedReleaseAt ← addU256 e.now d.cm.resolverFraudWindowSeconds
  let settlementDeadline ← s.maxDisputeDeadline id
  revertIf (proposedReleaseAt > settlementDeadline)
    (fail .settlementHorizonExceeded [settlementDeadline, proposedReleaseAt])
  pure proposedReleaseAt

/-! ### Opening a challenge -/

def setPausedNewActions (paused : Bool) (c : ChallengeManager) : Outcome ChallengeManager := do
  onlyOwner d e
  pure ({ c with pausedNewActions := paused }.emit (.newActionsPaused paused))

/-- `_openChallenge` -/
def openChallenge (id : ℕ) (revealInstanceHash reasonHash : Bytes32) (s : SubmissionManager)
    (c : ChallengeManager) : Outcome ChallengeManager := do
  let proposedDisputeEndsAt ← addU64 e.now d.cm.challengeWindowSeconds
  let maxDisputeEndsAt ← s.maxDisputeDeadline id
  let disputeEndsAt := min proposedDisputeEndsAt maxDisputeEndsAt
  let challengeInstanceHash :=
    d.challengeInstanceHash ⟨id, revealInstanceHash, e.sender, reasonHash, e.now, disputeEndsAt⟩
  let c := { c with
    challengeRevealInstanceHashOf := update c.challengeRevealInstanceHashOf id revealInstanceHash
    challengeInstanceHashOf := update c.challengeInstanceHashOf id challengeInstanceHash }
  let c := c.setChallenge id
    { submissionId := id
      challenger := e.sender
      reasonHash := reasonHash
      challengeBondWei := e.value
      challengedAt := e.now
      disputeEndsAt := disputeEndsAt }
  pure (c.emit (.challenged id e.sender reasonHash e.value disputeEndsAt revealInstanceHash
    challengeInstanceHash))

def challenge (id : ℕ) (expectedRevealInstanceHash reasonHash : Bytes32) (l : PayoutLedger)
    (p : BountyPool) (s : SubmissionManager) (c : ChallengeManager) :
    Outcome (ChallengeManager × SubmissionManager) := do
  revertIf c.pausedNewActions (fail .pausedNewActions)
  revertIf (id = 0) (fail .badSubmission)
  revertIf (reasonHash = 0) (fail .emptyReason)
  revertIf ((c.challenges id).challenger ≠ 0) (fail .alreadyChallenged)
  let solver ← s.solverOf id
  revertIf (solver = e.sender) (fail .selfChallenge)
  requireRevealInstance id expectedRevealInstanceHash s
  let entitlement ← s.disputedEntitlementWei d id l p
  let required ← requiredChallengeBond d entitlement
  revertIf (e.value < required) (fail .insufficientChallengeBond [required, e.value])
  let s ← s.markChallenged (d.asChallenger e) id
  let c ← c.openChallenge d e id expectedRevealInstanceHash reasonHash s
  pure (c, s)

/-! ### Decisions of the resolver -/

/-- `_resolve` -/
def resolveAs (id : ℕ) (expectedChallengeInstanceHash : Bytes32) (challengerWins : Bool)
    (transcriptHash : Bytes32) (transcriptURI : Bytes) (verdictHash : Bytes32)
    (resolverBondBeneficiary : Address) (s : SubmissionManager) (c : ChallengeManager) :
    Outcome ChallengeManager := do
  let current ← c.requireChallenge id expectedChallengeInstanceHash
  revertIf (current.resolved = true ∨ current.decisionPending = true) (fail .alreadyResolved)
  revertIf (e.now ≥ current.disputeEndsAt)
    (fail .disputeWindowClosed [current.disputeEndsAt, e.now])
  revertIf (e.value < d.cm.resolverDecisionBondWei)
    (fail .insufficientResolverBond [d.cm.resolverDecisionBondWei, e.value])
  revertIf (transcriptHash = 0) (fail .emptyTranscriptHash)
  revertIf (transcriptURI.length = 0) (fail .emptyTranscriptUri)
  revertIf (transcriptURI.length > maxTranscriptUriBytes)
    (fail .transcriptUriTooLarge [maxTranscriptUriBytes, transcriptURI.length])
  revertIf (verdictHash = 0) (fail .emptyVerdictHash)
  let c := c.setChallenge id { current with
    decisionPending := true
    challengerWins := challengerWins
    transcriptHash := transcriptHash
    transcriptURI := transcriptURI
    verdictHash := verdictHash }
  let releaseAt ← resolverBondReleaseAt d e id s
  let bond : ResolverBond := { amountWei := e.value, releaseAt := releaseAt, slashProofHash := 0 }
  let c := { c with
    resolverBonds := update c.resolverBonds id bond
    resolverBondBeneficiaryOf := update c.resolverBondBeneficiaryOf id resolverBondBeneficiary }
  pure (c.emit (.resolverTranscriptPosted id e.sender transcriptHash transcriptURI verdictHash
    resolverBondBeneficiary e.value releaseAt challengerWins (c.challengeInstanceHashOf id)))

def resolve (id : ℕ) (expectedChallengeInstanceHash : Bytes32) (challengerWins : Bool)
    (transcriptHash : Bytes32) (transcriptURI : Bytes) (verdictHash : Bytes32)
    (s : SubmissionManager) (c : ChallengeManager) : Outcome ChallengeManager := do
  onlyResolver d e
  c.resolveAs d e id expectedChallengeInstanceHash challengerWins transcriptHash transcriptURI
    verdictHash e.sender s

def resolveFor (id : ℕ) (expectedChallengeInstanceHash : Bytes32) (challengerWins : Bool)
    (transcriptHash : Bytes32) (transcriptURI : Bytes) (verdictHash : Bytes32)
    (resolverBondBeneficiary : Address) (s : SubmissionManager) (c : ChallengeManager) :
    Outcome ChallengeManager := do
  onlyResolver d e
  revertIf (resolverBondBeneficiary = 0) (fail .resolverBeneficiaryZero)
  c.resolveAs d e id expectedChallengeInstanceHash challengerWins transcriptHash transcriptURI
    verdictHash resolverBondBeneficiary s

/-! ### Settling a challenge -/

/-- `finalizeResolution` and `releaseResolverBond` -/
def finalizeResolution (id : ℕ) (expectedChallengeInstanceHash : Bytes32) (s : SubmissionManager)
    (c : ChallengeManager) : Outcome (ChallengeManager × SubmissionManager) := do
  let current ← c.requireChallenge id expectedChallengeInstanceHash
  revertIf (current.decisionPending = false)
    (fail (if current.resolved then .alreadyResolved else .noPendingDecision))
  let decisionBond := c.resolverBonds id
  revertIf (decisionBond.amountWei = 0) (fail .noResolverBond)
  revertIf (e.now < decisionBond.releaseAt)
    (fail .resolverBondLocked [decisionBond.releaseAt, e.now])
  let challengerWins := current.challengerWins
  let beneficiary := c.resolverBondBeneficiaryOf id
  let c := c.setChallenge id (current.settle challengerWins)
  let c ← c.credit (if challengerWins then current.challenger else d.cm.treasury)
    current.challengeBondWei
  revertIf (beneficiary = 0) (fail .resolverBeneficiaryZero)
  let c := c.clearResolverBond id
  let c ← c.credit beneficiary decisionBond.amountWei
  let s ← s.resolveChallenge d (d.asChallenger e) id challengerWins current.challenger
  let c := if challengerWins then c else c.setChallenge id {}
  let c := c.emit (.resolverBondReleased id beneficiary decisionBond.amountWei
    expectedChallengeInstanceHash)
  pure (c.emit (.resolved id challengerWins expectedChallengeInstanceHash), s)

def expireChallenge (id : ℕ) (expectedChallengeInstanceHash : Bytes32) (s : SubmissionManager)
    (c : ChallengeManager) : Outcome (ChallengeManager × SubmissionManager) := do
  let current ← c.requireChallenge id expectedChallengeInstanceHash
  revertIf (current.resolved = true) (fail .alreadyResolved)
  revertIf (current.decisionPending = true) (fail .decisionPending)
  revertIf (e.now < current.disputeEndsAt) (fail .disputeWindowOpen [current.disputeEndsAt, e.now])
  let c ← c.credit current.challenger current.challengeBondWei
  let c := c.setChallenge id {}
  let s ← s.resolveChallenge d (d.asChallenger e) id false 0
  let c := c.emit (.challengeExpired id current.challenger current.challengeBondWei
    expectedChallengeInstanceHash)
  pure (c.emit (.resolved id false expectedChallengeInstanceHash), s)

/-- The challenge and the decision bond a fraud proof is about. -/
def requireSlashable (id : ℕ) (expectedChallengeInstanceHash proofHash : Bytes32)
    (c : ChallengeManager) : Outcome Challenge := do
  let current ← c.requireChallenge id expectedChallengeInstanceHash
  revertIf (current.decisionPending = false) (fail .noPendingDecision)
  revertIf (proofHash = 0) (fail .emptyFraudProofHash)
  pure current

/-- The decision bond can still be taken. -/
def requireLockedBond (id : ℕ) (c : ChallengeManager) : Outcome ResolverBond := do
  let decisionBond := c.resolverBonds id
  revertIf (decisionBond.amountWei = 0) (fail .noResolverBond)
  revertIf (e.now ≥ decisionBond.releaseAt)
    (fail .resolverFraudWindowClosed [decisionBond.releaseAt, e.now])
  pure decisionBond

def slashResolverBond (id : ℕ) (expectedChallengeInstanceHash proofHash : Bytes32)
    (s : SubmissionManager) (c : ChallengeManager) :
    Outcome (ChallengeManager × SubmissionManager) := do
  onlyResolver d e
  let current ← c.requireSlashable id expectedChallengeInstanceHash proofHash
  let decisionBond ← c.requireLockedBond e id
  let c := (c.clearResolverBond id).setSlashProofHash id proofHash
  let c ← c.credit d.cm.treasury decisionBond.amountWei
  let c ← c.credit current.challenger current.challengeBondWei
  let c := c.setChallenge id {}
  let s ← s.cancelChallenge d (d.asChallenger e) id
  let c := c.emit (.resolverBondSlashed id d.cm.treasury decisionBond.amountWei proofHash
    expectedChallengeInstanceHash)
  pure (c.emit (.resolverDecisionCancelled id current.challenger proofHash
    expectedChallengeInstanceHash), s)

def applyObjectiveResolution (id : ℕ) (expectedChallengeInstanceHash : Bytes32)
    (correctedChallengerWins : Bool) (proofHash : Bytes32) (proofBeneficiary : Address)
    (s : SubmissionManager) (c : ChallengeManager) :
    Outcome (ChallengeManager × SubmissionManager) := do
  onlyResolver d e
  let current ← c.requireSlashable id expectedChallengeInstanceHash proofHash
  revertIf (proofBeneficiary = 0) (fail .fraudProofBeneficiaryZero)
  revertIf (correctedChallengerWins = current.challengerWins)
    (fail .objectiveOutcomeNotContradictory)
  let decisionBond ← c.requireLockedBond e id
  let c := c.setChallenge id (current.settle correctedChallengerWins)
  let c := (c.clearResolverBond id).setSlashProofHash id proofHash
  let c ← c.credit proofBeneficiary decisionBond.amountWei
  let c ← c.credit (if correctedChallengerWins then current.challenger else d.cm.treasury)
    current.challengeBondWei
  let s ← s.resolveObjectiveChallenge (d.asChallenger e) id correctedChallengerWins
    current.challenger
  let c := if correctedChallengerWins then c else c.setChallenge id {}
  let c := c.emit (.resolverBondSlashed id proofBeneficiary decisionBond.amountWei proofHash
    expectedChallengeInstanceHash)
  let c := c.emit (.objectiveFraudProven id proofBeneficiary proofHash correctedChallengerWins
    decisionBond.amountWei expectedChallengeInstanceHash)
  pure (c.emit (.resolved id correctedChallengerWins expectedChallengeInstanceHash), s)

/-! ### Withdrawal -/

/-- `claimBond`, up to and including the transfer of the returned amount. -/
def claimBond (c : ChallengeManager) : Outcome (ℕ × ChallengeManager) := do
  require (c.claiming = false) (fail .reentrantBondClaim)
  let amount := c.claimableBondWei e.sender
  revertIf (amount = 0) (fail .noBondToClaim)
  revertIf (c.balance < amount ∨ e.ext.accepts = false) (fail .transferFailed)
  pure (amount, { c with
    claiming := true
    claimableBondWei := update c.claimableBondWei e.sender 0
    balance := c.balance - amount })

/-- The rest of `claimBond` after the call of the claimant. -/
def finishClaimBond (claimant : Address) (amount : ℕ) (c : ChallengeManager) :
    ChallengeManager :=
  { c with claiming := false }.emit (.bondClaimed claimant amount)

end ChallengeManager
end P42Prizes
