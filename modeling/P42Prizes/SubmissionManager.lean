import P42Prizes.BountyPool
import P42Prizes.Commitment

/-! # The submission manager

`P42SubmissionManager` takes solutions through commit, reveal and finalize, keeps the best
score and the posting bonds, and is told the outcome of challenges by the challenge manager.
The storage is divided into the part about pauses, the funding authorization, the frontier,
the register of submissions and the bonds, so that a function that leaves a part alone leaves
it equal.

Functions that call the ledger or read the pool take their storages; `claimBond` stops at the
call of the claimant and `finishClaimBond` is the rest of it. -/

namespace P42Prizes

open Reverting Function

inductive SubmissionStatus where
  | none | committed | revealed | challenged | finalized | rejected | voided
deriving DecidableEq, Repr

namespace SubmissionStatus

def toNat : SubmissionStatus → ℕ
  | none => 0
  | committed => 1
  | revealed => 2
  | challenged => 3
  | finalized => 4
  | rejected => 5
  | voided => 6

end SubmissionStatus

structure Submission where
  solver : Address := 0
  commitment : Bytes32 := 0
  commitDaHash : Bytes32 := 0
  bondWei : ℕ := 0
  poolAtSubmissionWei : ℕ := 0
  requiredBondWei : ℕ := 0
  improvementAtoms : ℕ := 0
  claimedScoreAtoms : ℤ := 0
  solutionCid : Bytes := []
  permanenceHash : Bytes32 := 0
  committedAt : ℕ := 0
  revealedAt : ℕ := 0
  challengeEndsAt : ℕ := 0
  status : SubmissionStatus := .none

structure FinalizeInfo where
  prevBestScoreAtoms : ℤ := 0
  creditAtoms : ℕ := 0
  prevCreditRecoveryEndsAt : ℕ := 0

inductive ManagerEvent where
  | openWitnessWindowConfigured (deployedAt armNotBefore : ℕ)
  | newActionsPaused (paused : Bool)
  | allActionsPaused (paused : Bool)
  | allActionsPauseRecovered (caller : Address) (recoveryAt : ℕ)
  | creditRecoveryWindowAdvanced (submissionId previousEndsAt recoveryEndsAt : ℕ)
  | creditRecoveryWindowRestored (submissionId previousEndsAt restoredEndsAt : ℕ)
  | fundingArmed (armedAt : ℕ) (authorizationDigest : Bytes32)
  | fundingAuthorized (authorizationDigest : Bytes32) (authorizer : Address) (expiresAt : ℕ)
  | fundingAuthorizationVerified (authorizationDigest : Bytes32) (nonce : ℕ)
      (boardSetDigest releaseBindingDigest : Bytes32)
  | fundingAuthorizationCancelled (authorizationDigest : Bytes32) (canceller : Address)
      (expiresAt : ℕ)
  | finalizeVoided (submissionId : ℕ) (solver : Address) (creditAtoms : ℕ)
      (restoredBestScoreAtoms : ℤ)
  | challengeManagerSet (challengeManager : Address)
  | committed (submissionId : ℕ) (solver : Address) (commitment commitDaHash : Bytes32)
      (bondWei poolAtSubmissionWei requiredBondWei : ℕ) (paidAtCommit : Bool) (committedBlock : ℕ)
  | revealed (submissionId : ℕ) (solver : Address) (solutionCid : Bytes) (improvementAtoms : ℕ)
      (claimedScoreAtoms : ℤ) (challengeEndsAt solutionBytesLength : ℕ)
      (revealInstanceHash : Bytes32)
  | finalized (submissionId : ℕ) (solver : Address) (creditAtoms : ℕ)
      (claimedScoreAtoms bestScoreAtoms : ℤ) (permanenceHash : Bytes32)
      (poolAtFinalizationWei : ℕ)
  | submissionChallenged (submissionId : ℕ) (challengeManager : Address)
  | submissionChallengeResolved (submissionId : ℕ) (challengerWins : Bool)
  | submissionChallengeCancelled (submissionId challengeEndsAt : ℕ)
  | submissionExpired (submissionId : ℕ) (previousStatus : SubmissionStatus)
  | bondToppedUp (submissionId : ℕ) (solver : Address) (amount newBondWei : ℕ)
  | submissionBondClaimable (submissionId : ℕ) (claimant : Address) (amount : ℕ)
  | bondClaimed (claimant : Address) (amount : ℕ)
  | duplicatePriorityAssigned (solutionCidHash : Bytes32) (submissionId : ℕ)
  | duplicateSubmissionRejected (solutionCidHash : Bytes32)
      (rejectedSubmissionId prioritySubmissionId : ℕ)
deriving DecidableEq, Repr

/-! ### Storage -/

structure PauseState where
  pausedNewActions : Bool := false
  pausedAll : Bool := false
  pausedAllAt : ℕ := 0
  totalPausedAllSeconds : ℕ := 0
  expiryGraceUntil : ℕ := 0

structure FundingState where
  fundingArmed : Bool := false
  armedAt : ℕ := 0
  fundingAuthorizationDigest : Bytes32 := 0
  authorizedFundingDigest : Bytes32 := 0
  fundingAuthorizationExpiresAt : ℕ := 0
  fundingAuthorizationNonce : ℕ := 0

structure FrontierState where
  bestScoreAtoms : ℤ
  creditRecoveryEndsAt : ℕ := 0
  finalizeInfo : ℕ → FinalizeInfo := fun _ => {}

structure RegisterState where
  submissionCount : ℕ := 0
  openSubmissionCount : ℕ := 0
  revealedSubmissionCount : ℕ := 0
  challengedSubmissionCount : ℕ := 0
  submissions : ℕ → Submission := fun _ => {}
  committedBlockOf : ℕ → ℕ := fun _ => 0
  committedActiveAtOf : ℕ → ℕ := fun _ => 0
  maxDisputeEndsAtOf : ℕ → ℕ := fun _ => 0
  paidAtCommit : ℕ → Bool := fun _ => false
  revealInstanceHashOf : ℕ → Bytes32 := fun _ => 0
  objectiveClearedRevealInstanceHashOf : ℕ → Bytes32 := fun _ => 0
  solutionCidHashOf : ℕ → Bytes32 := fun _ => 0
  prioritySubmissionOf : Bytes32 → ℕ := fun _ => 0

/-- The bonds that were credited to an account, and the ETH of the contract; `forcedEth` counts
the ETH that arrived without a call. -/
structure BondState where
  claimableBondWei : Address → ℕ := fun _ => 0
  claiming : Bool := false
  balance : ℕ := 0
  forcedEth : ℕ := 0

/-- The storage of `P42SubmissionManager`, its ETH and its events, newest first. -/
structure SubmissionManager extends PauseState, FundingState, FrontierState, RegisterState,
    BondState where
  challengeManager : Address := 0
  logs : List ManagerEvent := []

namespace SubmissionManager

variable (d : Deployment) (e : Env)

/-! ### Writes -/

def emit (ev : ManagerEvent) (s : SubmissionManager) : SubmissionManager :=
  { s with logs := ev :: s.logs }

def modify (id : ℕ) (f : Submission → Submission) (s : SubmissionManager) : SubmissionManager :=
  { s with submissions := update s.submissions id (f (s.submissions id)) }

def setStatus (id : ℕ) (status : SubmissionStatus) (s : SubmissionManager) : SubmissionManager :=
  s.modify id (fun sub => { sub with status := status })

/-- `_makeBondClaimable` -/
def makeBondClaimable (id : ℕ) (claimant : Address) (s : SubmissionManager) :
    Outcome SubmissionManager := do
  let bondWei := (s.submissions id).bondWei
  if bondWei = 0 then pure s
  else do
    let s := s.modify id (fun sub => { sub with bondWei := 0 })
    let claimable ← addU256 (s.claimableBondWei claimant) bondWei
    let s := { s with claimableBondWei := update s.claimableBondWei claimant claimable }
    pure (s.emit (.submissionBondClaimable id claimant bondWei))

/-- `_decrementOpenSubmission` -/
def decrementOpenSubmission (s : SubmissionManager) : SubmissionManager :=
  if s.openSubmissionCount > 0 then { s with openSubmissionCount := s.openSubmissionCount - 1 }
  else s

def decrementRevealed (s : SubmissionManager) : Outcome SubmissionManager := do
  let n ← subU s.revealedSubmissionCount 1
  pure { s with revealedSubmissionCount := n }

def incrementRevealed (s : SubmissionManager) : Outcome SubmissionManager := do
  let n ← addU256 s.revealedSubmissionCount 1
  pure { s with revealedSubmissionCount := n }

def decrementChallenged (s : SubmissionManager) : Outcome SubmissionManager := do
  let n ← subU s.challengedSubmissionCount 1
  pure { s with challengedSubmissionCount := n }

def incrementChallenged (s : SubmissionManager) : Outcome SubmissionManager := do
  let n ← addU256 s.challengedSubmissionCount 1
  pure { s with challengedSubmissionCount := n }

/-! ### Guards and clocks -/

def onlyOwner : Outcome Unit := revertIf (e.sender ≠ d.sm.owner) (fail .notOwner)

def onlyChallengeManager (s : SubmissionManager) : Outcome Unit :=
  revertIf (e.sender ≠ s.challengeManager) (fail .notChallengeManager)

/-- `_requireSubmission` -/
def requireSubmission (id : ℕ) (s : SubmissionManager) : Outcome Submission := do
  revertIf ((s.submissions id).solver = 0) (fail .unknownSubmission)
  pure (s.submissions id)

/-- `_requireStatus` -/
def requireStatus (sub : Submission) (expected : SubmissionStatus) : Outcome Unit :=
  revertIf (sub.status ≠ expected)
    (fail .badSubmissionStatus [expected.toNat, sub.status.toNat])

def activeTimestamp (s : SubmissionManager) : Outcome ℕ := do
  if s.pausedAll then
    let episode ← subU e.now s.pausedAllAt
    let pausedSeconds ← addU256 s.totalPausedAllSeconds episode
    subU e.now pausedSeconds
  else subU e.now s.totalPausedAllSeconds

/-- `_wallTimestampForActive` -/
def wallTimestampForActive (activeDeadline activeNow : ℕ) : Outcome ℕ :=
  if activeDeadline ≥ activeNow then do
    let t ← addU64 e.now activeDeadline
    subU t activeNow
  else do
    let behind ← subU activeNow activeDeadline
    subU e.now behind

/-- `_requireCommitMature` -/
def requireCommitMature (id : ℕ) (s : SubmissionManager) : Outcome Unit := do
  let eligibleBlock ← addU256 (s.committedBlockOf id) minCommitAgeBlocks
  revertIf (e.block.number < eligibleBlock) (fail .commitNotMature [eligibleBlock, e.block.number])

/-- `_requireCommitOpen` -/
def requireCommitOpen (id : ℕ) (s : SubmissionManager) : Outcome Unit := do
  let activeNow ← s.activeTimestamp e
  let commitExpiresAt ← addU64 (s.committedActiveAtOf id) d.sm.challengeWindowSeconds
  if activeNow ≥ commitExpiresAt then do
    let wall ← wallTimestampForActive e commitExpiresAt activeNow
    .error (fail .commitExpired [wall, e.now])
  else pure ()

/-- The time check of `markChallenged`. -/
def requireWindowOpen (submission : Submission) : Outcome Unit :=
  revertIf (e.now ≥ submission.challengeEndsAt)
    (fail .challengeWindowClosed [submission.challengeEndsAt, e.now])

/-- The time check of `finalize`. -/
def requireWindowPassed (submission : Submission) : Outcome Unit :=
  revertIf (e.now < submission.challengeEndsAt)
    (fail .challengeWindowOpen [submission.challengeEndsAt, e.now])

/-- `_boundedRearmDeadline` -/
def boundedRearmDeadline (id : ℕ) (s : SubmissionManager) : Outcome ℕ := do
  let proposed ← addU64 e.now d.sm.challengeWindowSeconds
  pure (min proposed (s.maxDisputeEndsAtOf id))

def requiredPostingBondForPool (poolWei : ℕ) : Outcome ℕ := do
  let scaled ← mulDiv poolWei d.sm.alphaBps 10000
  pure (max scaled d.sm.minPostingBondWei)

def objectiveProofCapabilityActive : Bool :=
  decide (e.ext.codehash d.sm.objectiveVerifier = d.sm.objectiveVerifierCodehash) &&
    decide (e.ext.objectiveProofsActive d.sm.objectiveVerifier = some (wordBytes 1))

/-- `_requireObjectiveProofCapabilityActive` -/
def requireObjectiveProofCapabilityActive : Outcome Unit :=
  revertIf (objectiveProofCapabilityActive d e = false) (fail .objectiveProofCapabilityInactive)

/-! ### Pauses -/

def setPausedNewActions (paused : Bool) (s : SubmissionManager) : Outcome SubmissionManager := do
  onlyOwner d e
  pure ({ s with pausedNewActions := paused }.emit (.newActionsPaused paused))

/-- `_clearPausedAll` -/
def clearPausedAll (s : SubmissionManager) : Outcome SubmissionManager := do
  let episode ← subU e.now s.pausedAllAt
  let total ← addU64 s.totalPausedAllSeconds episode
  let grace ← addU64 e.now d.sm.challengeWindowSeconds
  let s := { s with
    totalPausedAllSeconds := total
    pausedAll := false
    expiryGraceUntil := grace }
  pure (s.emit (.allActionsPaused false))

/-- The first `pausedAllAt` of an episode is kept. -/
def armPausedAll (s : SubmissionManager) : Outcome SubmissionManager :=
  if s.pausedAll then pure s
  else do
    revertIf (e.now < s.expiryGraceUntil) (fail .pausedAllRearmOpen [s.expiryGraceUntil, e.now])
    pure { s with pausedAll := true, pausedAllAt := e.now }

def setPausedAll (paused : Bool) (s : SubmissionManager) : Outcome SubmissionManager := do
  onlyOwner d e
  if paused then do
    let s ← s.armPausedAll e
    pure (s.emit (.allActionsPaused true))
  else do
    revertIf (s.pausedAll = false) (fail .notPausedAll)
    s.clearPausedAll d e

def recoverPausedAll (s : SubmissionManager) : Outcome SubmissionManager := do
  revertIf (s.pausedAll = false) (fail .notPausedAll)
  let recoveryAt ← addU64 s.pausedAllAt pausedAllRecoveryDelay
  revertIf (e.now < recoveryAt) (fail .pausedAllRecoveryOpen [recoveryAt, e.now])
  let s ← s.clearPausedAll d e
  pure (s.emit (.allActionsPauseRecovered e.sender recoveryAt))

/-! ### Funding authorization -/

/-- `_requireFundingSignature` -/
def requireFundingSignature (authority : Address) (a : FundingAuthorization) (signature : Bytes) :
    Outcome Unit := do
  revertIf (signature.length ≠ 65) (fail .invalidFundingSignature)
  let r := wordOfBytes (signature.take 32)
  let s := wordOfBytes ((signature.drop 32).take 32)
  let v := (signature.getD 64 0).toNat
  revertIf (s.toNat > secp256k1HalfOrder ∨ v ≠ 27 ∧ v ≠ 28) (fail .invalidFundingSignature)
  revertIf (d.crypto.ecrecover (d.fundingDigest a) v r s ≠ authority)
    (fail .invalidFundingSignature)

def authorizeFunding (authorizationDigest : Bytes32) (expiresAt nonce : ℕ)
    (signatures : Bytes × Bytes × Bytes) (s : SubmissionManager) : Outcome SubmissionManager := do
  requireObjectiveProofCapabilityActive d e
  revertIf (e.sender ≠ d.sm.fundingAuthorizer) (fail .notFundingAuthorizer)
  revertIf (authorizationDigest = 0) (fail .fundingAuthorizationZero)
  revertIf s.fundingArmed (fail .fundingAlreadyArmed)
  revertIf (s.authorizedFundingDigest ≠ 0 ∧ e.now ≤ s.fundingAuthorizationExpiresAt)
    (fail .fundingAuthorizationActive
      [s.authorizedFundingDigest.toNat, s.fundingAuthorizationExpiresAt])
  revertIf (e.now > expiresAt) (fail .fundingAuthorizationExpired [expiresAt, e.now])
  revertIf (nonce ≠ s.fundingAuthorizationNonce)
    (fail .fundingAuthorizationNonce [s.fundingAuthorizationNonce, nonce])
  requireFundingSignature d d.sm.productionLaunchAuthority
    ⟨d.crypto.productionLaunchAuthorityRole, authorizationDigest, expiresAt, nonce⟩ signatures.1
  requireFundingSignature d d.sm.independentSecurityAuthority
    ⟨d.crypto.independentSecurityAuthorityRole, authorizationDigest, expiresAt, nonce⟩
    signatures.2.1
  requireFundingSignature d d.sm.governanceAuthority
    ⟨d.crypto.governanceAuthorityRole, authorizationDigest, expiresAt, nonce⟩ signatures.2.2
  let nextNonce ← addU256 nonce 1
  let s := { s with
    fundingAuthorizationNonce := nextNonce
    authorizedFundingDigest := authorizationDigest
    fundingAuthorizationExpiresAt := expiresAt }
  let s := s.emit (.fundingAuthorizationVerified authorizationDigest nonce d.sm.boardSetDigest
    d.sm.releaseBindingDigest)
  pure (s.emit (.fundingAuthorized authorizationDigest e.sender expiresAt))

def cancelFundingAuthorization (expectedAuthorizationDigest : Bytes32) (s : SubmissionManager) :
    Outcome SubmissionManager := do
  onlyOwner d e
  revertIf s.fundingArmed (fail .fundingAlreadyArmed)
  let authorizationDigest := s.authorizedFundingDigest
  let expiresAt := s.fundingAuthorizationExpiresAt
  revertIf (expectedAuthorizationDigest ≠ authorizationDigest)
    (fail .fundingAuthorizationMismatch
      [authorizationDigest.toNat, expectedAuthorizationDigest.toNat])
  revertIf (authorizationDigest = 0 ∨ e.now > expiresAt)
    (fail .fundingAuthorizationNotActive [authorizationDigest.toNat, expiresAt])
  let nextNonce ← addU256 s.fundingAuthorizationNonce 1
  let s := { s with
    authorizedFundingDigest := 0
    fundingAuthorizationExpiresAt := 0
    fundingAuthorizationNonce := nextNonce }
  pure (s.emit (.fundingAuthorizationCancelled authorizationDigest e.sender expiresAt))

def armFunding (authorizationDigest : Bytes32) (s : SubmissionManager) :
    Outcome SubmissionManager := do
  onlyOwner d e
  requireObjectiveProofCapabilityActive d e
  revertIf s.fundingArmed (fail .fundingAlreadyArmed)
  revertIf (authorizationDigest = 0) (fail .fundingAuthorizationZero)
  revertIf (authorizationDigest ≠ s.authorizedFundingDigest)
    (fail .fundingAuthorizationMismatch
      [s.authorizedFundingDigest.toNat, authorizationDigest.toNat])
  let expiresAt := s.fundingAuthorizationExpiresAt
  revertIf (e.now > expiresAt) (fail .fundingAuthorizationExpired [expiresAt, e.now])
  revertIf (e.now < d.sm.armNotBefore) (fail .openWitnessWindowOpen [d.sm.armNotBefore, e.now])
  let s := { s with
    fundingArmed := true
    armedAt := e.now
    fundingAuthorizationDigest := authorizationDigest }
  pure (s.emit (.fundingArmed e.now authorizationDigest))

def setChallengeManager (challengeManager : Address) (s : SubmissionManager) :
    Outcome SubmissionManager := do
  onlyOwner d e
  require (challengeManager ≠ 0) (fail .challengeManagerZero)
  revertIf (s.challengeManager ≠ 0) (fail .challengeManagerAlreadySet)
  pure ({ s with challengeManager := challengeManager }.emit
    (.challengeManagerSet challengeManager))

/-! ### Commit and reveal -/

/-- A paid commit needs the objective proof capability. -/
def requirePaidCapability (s : SubmissionManager) : Outcome Unit :=
  if s.fundingArmed then requireObjectiveProofCapabilityActive d e else pure ()

def commit (commitment commitDaHash : Bytes32) (l : PayoutLedger) (p : BountyPool)
    (s : SubmissionManager) : Outcome SubmissionManager := do
  revertIf s.pausedAll (fail .pausedAll)
  revertIf s.pausedNewActions (fail .pausedNewActions)
  revertIf l.closed (fail .ledgerClosed)
  let deadline := PayoutLedger.fundingDeadline d
  revertIf (e.now > deadline) (fail .submissionWindowClosed [deadline, e.now])
  revertIf (commitment = 0) (fail .emptyCommitment)
  revertIf (commitDaHash = 0) (fail .emptyDaHash)
  let poolAtSubmission := p.accountedBalance
  let isPaidCommit := s.fundingArmed
  s.requirePaidCapability d e
  let required ← requiredPostingBondForPool d
    (if isPaidCommit then d.pc.fundingCap else poolAtSubmission)
  revertIf (e.value < required) (fail .insufficientPostingBond [required, e.value])
  let submissionId ← addU256 s.submissionCount 1
  let committedActiveAt ← s.activeTimestamp e
  let openSubmissionCount ← addU256 s.openSubmissionCount 1
  let submission := { s.submissions submissionId with
    solver := e.sender
    commitment := commitment
    commitDaHash := commitDaHash
    bondWei := e.value
    poolAtSubmissionWei := poolAtSubmission
    requiredBondWei := required
    committedAt := e.now
    status := .committed }
  let s := { s with
    submissionCount := submissionId
    submissions := update s.submissions submissionId submission
    committedBlockOf := update s.committedBlockOf submissionId (e.block.number % 2 ^ 64)
    committedActiveAtOf := update s.committedActiveAtOf submissionId committedActiveAt
    paidAtCommit := update s.paidAtCommit submissionId isPaidCommit
    openSubmissionCount := openSubmissionCount }
  pure (s.emit (.committed submissionId e.sender commitment commitDaHash e.value poolAtSubmission
    required isPaidCommit (e.block.number % 2 ^ 64)))

def topUpBond (id : ℕ) (s : SubmissionManager) : Outcome SubmissionManager := do
  let submission ← s.requireSubmission id
  revertIf (e.sender ≠ submission.solver) (fail .notSolver)
  revertIf (submission.status ≠ .committed ∧ submission.status ≠ .revealed ∧
      submission.status ≠ .challenged)
    (fail .badSubmissionStatus [SubmissionStatus.revealed.toNat, submission.status.toNat])
  require (0 < e.value) (fail .zeroBondTopUp)
  let bondWei ← addU256 submission.bondWei e.value
  let s := s.modify id (fun sub => { sub with bondWei := bondWei })
  pure (s.emit (.bondToppedUp id e.sender e.value bondWei))

/-- `_validateSolutionDa` -/
def validateSolutionDa (expectedHash : Bytes32) (solution : Bytes) : Outcome Unit :=
  if d.sm.onchainDa then do
    revertIf (solution.length = 0) (fail .emptySolutionBytes)
    revertIf (solution.length > d.sm.maxSolutionBytes)
      (fail .solutionTooLarge [d.sm.maxSolutionBytes, solution.length])
    revertIf (d.crypto.sha256 solution ≠ expectedHash)
      (fail .solutionHashMismatch [expectedHash.toNat, (d.crypto.sha256 solution).toNat])
  else revertIf (solution.length ≠ 0) (fail .unexpectedOnchainBytes)

/-- `_rejectSupersededIfRevealed` -/
def rejectSupersededIfRevealed (id : ℕ) (solutionCidHash : Bytes32) (priorityId : ℕ)
    (s : SubmissionManager) : Outcome SubmissionManager :=
  if (s.submissions id).status ≠ .revealed then pure s
  else do
    let s := s.setStatus id .rejected
    let s ← s.decrementRevealed
    let s ← s.makeBondClaimable id (s.submissions id).solver
    let s := s.decrementOpenSubmission
    pure (s.emit (.duplicateSubmissionRejected solutionCidHash id priorityId))

def setSolutionCidHash (id : ℕ) (solutionCidHash : Bytes32) (s : SubmissionManager) :
    SubmissionManager :=
  { s with solutionCidHashOf := update s.solutionCidHashOf id solutionCidHash }

def setPriority (solutionCidHash : Bytes32) (id : ℕ) (s : SubmissionManager) : SubmissionManager :=
  { s with prioritySubmissionOf := update s.prioritySubmissionOf solutionCidHash id }

/-- `_assignDuplicatePriority`; `solutionCidHash` is the hash of the revealed CID. -/
def assignDuplicatePriority (id : ℕ) (solutionCidHash : Bytes32) (s : SubmissionManager) :
    Outcome SubmissionManager := do
  let s := s.setSolutionCidHash id solutionCidHash
  let priorityId := s.prioritySubmissionOf solutionCidHash
  if priorityId = 0 ∨ id < priorityId then do
    let s := s.setPriority solutionCidHash id
    let s := s.setStatus id .revealed
    let s ← s.incrementRevealed
    let s := s.emit (.duplicatePriorityAssigned solutionCidHash id)
    if priorityId ≠ 0 then s.rejectSupersededIfRevealed priorityId solutionCidHash id
    else pure s
  else do
    let s := s.setStatus id .rejected
    let s ← s.makeBondClaimable id (s.submissions id).solver
    let s := s.decrementOpenSubmission
    pure (s.emit (.duplicateSubmissionRejected solutionCidHash id priorityId))

/-- The checks `reveal` makes on its arguments. -/
def requireRevealable (submission : Submission) (solutionCid : Bytes) (claimedScoreAtoms : ℤ)
    (improvementAtoms : ℕ) (salt solution : Bytes) : Outcome Unit := do
  revertIf (solutionCid.length = 0) (fail .emptySolutionCid)
  revertIf (solutionCid.length > maxSolutionCidBytes)
    (fail .solutionCidTooLarge [maxSolutionCidBytes, solutionCid.length])
  revertIf (claimedScoreAtoms ≥ d.sm.seedScoreAtoms)
    (fail .notStrictImprovement [d.sm.seedScoreAtoms, claimedScoreAtoms])
  revertIf (claimedScoreAtoms ≤ minScoreAtomsBound) (fail .scoreAtomsOutOfRange [claimedScoreAtoms])
  let expectedImprovement ← subI256 d.sm.seedScoreAtoms claimedScoreAtoms
  revertIf ((improvementAtoms : ℤ) ≠ expectedImprovement)
    (fail .improvementAtomsMismatch [expectedImprovement, improvementAtoms])
  revertIf (d.crypto.keccak256 (commitPreimageWithDa solutionCid e.sender submission.commitDaHash
      salt) ≠ submission.commitment)
    (fail .badCommitmentReveal)
  validateSolutionDa d submission.commitDaHash solution

/-- The fields `reveal` writes before the priority is assigned. -/
def recordReveal (id : ℕ) (r : RevealInstance) (maxDisputeEndsAt : ℕ) (s : SubmissionManager) :
    SubmissionManager :=
  let s := s.modify id (fun sub => { sub with
    solutionCid := r.solutionCid
    claimedScoreAtoms := r.claimedScoreAtoms
    improvementAtoms := r.improvementAtoms
    revealedAt := e.now
    challengeEndsAt := r.challengeEndsAt })
  { s with
    revealInstanceHashOf := update s.revealInstanceHashOf id (d.revealInstanceHash r)
    maxDisputeEndsAtOf := update s.maxDisputeEndsAtOf id maxDisputeEndsAt }

def reveal (id : ℕ) (solutionCid : Bytes) (claimedScoreAtoms : ℤ) (improvementAtoms : ℕ)
    (salt solution : Bytes) (s : SubmissionManager) : Outcome SubmissionManager := do
  revertIf s.pausedAll (fail .pausedAll)
  let submission ← s.requireSubmission id
  revertIf (e.sender ≠ submission.solver) (fail .notSolver)
  requireStatus submission .committed
  s.requireCommitMature e id
  s.requireCommitOpen d e id
  requireRevealable d e submission solutionCid claimedScoreAtoms improvementAtoms salt solution
  let challengeEndsAt ← addU64 e.now d.sm.challengeWindowSeconds
  let r : RevealInstance := ⟨id, submission.solver, submission.commitment,
    submission.commitDaHash, solutionCid, claimedScoreAtoms, improvementAtoms, challengeEndsAt⟩
  let maxDisputeEndsAt ←
    addU64 e.now (d.sm.challengeWindowSeconds * maxCumulativeDisputeWindows)
  let s := s.recordReveal d e id r maxDisputeEndsAt
  let s ← s.assignDuplicatePriority id (d.crypto.keccak256 solutionCid)
  pure (s.emit (.revealed id e.sender solutionCid improvementAtoms claimedScoreAtoms
    challengeEndsAt solution.length (d.revealInstanceHash r)))

/-! ### Finalize and void -/

/-- The marginal against the live frontier; zero below the floor. -/
def frontierMarginal (claimed : ℤ) (s : SubmissionManager) : Outcome ℕ :=
  if claimed < s.bestScoreAtoms then do
    let reduction ← subI256 s.bestScoreAtoms claimed
    pure (if d.sm.minImprovementAtoms ≤ reduction.toNat then reduction.toNat else 0)
  else pure 0

def requireCollateral (submission : Submission) : Outcome Unit := do
  let required ← requiredPostingBondForPool d d.pc.fundingCap
  revertIf (submission.bondWei < required)
    (fail .bondUndercoversEntitlement [required, submission.bondWei])

/-- The branch of `finalize` for a submission that another one has priority over. -/
def finalizeDuplicate (id : ℕ) (solver : Address) (s : SubmissionManager) :
    Outcome SubmissionManager := do
  let s := s.setStatus id .rejected
  let s ← s.decrementRevealed
  let s ← s.makeBondClaimable id solver
  let s := s.decrementOpenSubmission
  let solutionCidHash := s.solutionCidHashOf id
  pure (s.emit (.duplicateSubmissionRejected solutionCidHash id
    (s.prioritySubmissionOf solutionCidHash)))

/-- The snapshot and the status of a finalized submission. -/
def recordFinalize (id : ℕ) (permanenceHash : Bytes32) (creditAtoms : ℕ) (s : SubmissionManager) :
    SubmissionManager :=
  let s := s.modify id (fun sub => { sub with
    permanenceHash := permanenceHash
    status := .finalized })
  let info : FinalizeInfo := ⟨s.bestScoreAtoms, creditAtoms, s.creditRecoveryEndsAt⟩
  { s with finalizeInfo := update s.finalizeInfo id info }

/-- The recovery window and the ledger credit of a paid finalize. -/
def payCredit (id : ℕ) (solver : Address) (creditAtoms : ℕ) (l : PayoutLedger)
    (s : SubmissionManager) : Outcome (SubmissionManager × PayoutLedger) := do
  let previousRecoveryEndsAt := s.creditRecoveryEndsAt
  let recoveryEndsAt ← addU64 e.now creditFinalizeRecoveryDelay
  let s := { s with creditRecoveryEndsAt := recoveryEndsAt }
  let l ← l.recordCredit d { e with sender := d.submissionManager } solver creditAtoms
  pure (s.emit (.creditRecoveryWindowAdvanced id previousRecoveryEndsAt recoveryEndsAt), l)

/-- The branch of `finalize` for the submission that has priority. -/
def finalizePriority (id : ℕ) (permanenceHash : Bytes32) (submission : Submission)
    (l : PayoutLedger) (p : BountyPool) (s : SubmissionManager) :
    Outcome (SubmissionManager × PayoutLedger) := do
  let solver := submission.solver
  let claimed := submission.claimedScoreAtoms
  let marginal ← s.frontierMarginal d claimed
  let creditAtoms := if s.paidAtCommit id then marginal else 0
  (if creditAtoms ≠ 0 then requireCollateral d submission else pure ())
  let s ← s.decrementRevealed
  let s := s.recordFinalize id permanenceHash creditAtoms
  let s ← (if creditAtoms = 0 then s.makeBondClaimable id solver else pure s)
  let s := s.decrementOpenSubmission
  let s := { s with bestScoreAtoms := if marginal ≠ 0 then claimed else s.bestScoreAtoms }
  let (s, l) ← (if creditAtoms ≠ 0 then s.payCredit d e id solver creditAtoms l else pure (s, l))
  pure (s.emit (.finalized id solver creditAtoms claimed s.bestScoreAtoms permanenceHash
    p.accountedBalance), l)

def finalize (id : ℕ) (permanenceHash : Bytes32) (l : PayoutLedger) (p : BountyPool)
    (s : SubmissionManager) : Outcome (SubmissionManager × PayoutLedger) := do
  revertIf s.pausedAll (fail .pausedAll)
  let submission ← s.requireSubmission id
  revertIf (e.sender ≠ submission.solver) (fail .notSolver)
  requireStatus submission .revealed
  requireWindowPassed e submission
  if s.prioritySubmissionOf (s.solutionCidHashOf id) ≠ id then do
    let s ← s.finalizeDuplicate id submission.solver
    pure (s, l)
  else s.finalizePriority d e id permanenceHash submission l p

def releaseFinalizedBond (id : ℕ) (l : PayoutLedger) (s : SubmissionManager) :
    Outcome SubmissionManager := do
  revertIf (l.closed = false) (fail .ledgerNotClosed)
  let submission ← s.requireSubmission id
  requireStatus submission .finalized
  revertIf (submission.bondWei = 0) (fail .noFinalizedBond)
  s.makeBondClaimable id submission.solver

/-- The recovery window, the ledger credit and the bond of a paid finalize are reversed. -/
def voidCredit (id : ℕ) (solver : Address) (info : FinalizeInfo) (l : PayoutLedger)
    (s : SubmissionManager) : Outcome (SubmissionManager × PayoutLedger) := do
  let previousRecoveryEndsAt := s.creditRecoveryEndsAt
  let s := { s with creditRecoveryEndsAt := info.prevCreditRecoveryEndsAt }
  let l ← l.voidCredit { e with sender := d.submissionManager } solver info.creditAtoms
  let s ← s.makeBondClaimable id d.sm.treasury
  pure (s.emit (.creditRecoveryWindowRestored id previousRecoveryEndsAt
    info.prevCreditRecoveryEndsAt), l)

def voidFinalize (id : ℕ) (l : PayoutLedger) (s : SubmissionManager) :
    Outcome (SubmissionManager × PayoutLedger) := do
  onlyOwner d e
  revertIf (s.pausedAll = false) (fail .notPausedAll)
  let revealed := s.revealedSubmissionCount
  let challenged := s.challengedSubmissionCount
  revertIf (revealed ≠ 0 ∨ challenged ≠ 0) (fail .activeRevealsOrChallenges [revealed, challenged])
  let submission ← s.requireSubmission id
  requireStatus submission .finalized
  let info := s.finalizeInfo id
  revertIf (s.bestScoreAtoms ≠ submission.claimedScoreAtoms)
    (fail .voidNotFrontier [s.bestScoreAtoms, submission.claimedScoreAtoms])
  revertIf (info.prevBestScoreAtoms = submission.claimedScoreAtoms)
    (fail .voidNotAdvance [info.prevBestScoreAtoms, submission.claimedScoreAtoms])
  let creditAtoms := info.creditAtoms
  let s := { s.setStatus id .voided with bestScoreAtoms := info.prevBestScoreAtoms }
  let (s, l) ← (if creditAtoms > 0 then s.voidCredit d e id submission.solver info l
    else do
      let s ← s.makeBondClaimable id submission.solver
      pure (s, l))
  pure (s.emit (.finalizeVoided id submission.solver creditAtoms info.prevBestScoreAtoms), l)

/-! ### Challenge hooks -/

def markChallenged (id : ℕ) (s : SubmissionManager) : Outcome SubmissionManager := do
  s.onlyChallengeManager e
  let submission ← s.requireSubmission id
  requireStatus submission .revealed
  revertIf (s.objectiveClearedRevealInstanceHashOf id = s.revealInstanceHashOf id)
    (fail .objectiveChallengeAlreadyCleared)
  requireWindowOpen e submission
  let s := s.setStatus id .challenged
  let s ← s.decrementRevealed
  let s ← s.incrementChallenged
  pure (s.emit (.submissionChallenged id e.sender))

/-- The challenged submission is rejected for `beneficiary`. -/
def rejectChallenged (id : ℕ) (beneficiary : Address) (s : SubmissionManager) :
    Outcome SubmissionManager := do
  let s := s.setStatus id .rejected
  require (beneficiary ≠ 0) (fail .beneficiaryZero)
  let s ← s.makeBondClaimable id beneficiary
  pure s.decrementOpenSubmission

/-- The challenged submission turned out to be a duplicate. -/
def rejectDuplicate (id : ℕ) (s : SubmissionManager) : Outcome SubmissionManager := do
  let s := s.setStatus id .rejected
  let s ← s.makeBondClaimable id (s.submissions id).solver
  let s := s.decrementOpenSubmission
  let solutionCidHash := s.solutionCidHashOf id
  pure (s.emit (.duplicateSubmissionRejected solutionCidHash id
    (s.prioritySubmissionOf solutionCidHash)))

/-- The reveal instance is cleared for good. -/
def clearReveal (id : ℕ) (s : SubmissionManager) : SubmissionManager :=
  { s with objectiveClearedRevealInstanceHashOf :=
      update s.objectiveClearedRevealInstanceHashOf id (s.revealInstanceHashOf id) }

/-- The challenged submission goes back to `revealed`. -/
def rearm (id challengeEndsAt : ℕ) (s : SubmissionManager) : Outcome SubmissionManager := do
  let s := s.setStatus id .revealed
  let s ← s.incrementRevealed
  pure (s.modify id (fun sub => { sub with challengeEndsAt := challengeEndsAt }))

def resolveChallenge (id : ℕ) (challengerWins : Bool) (beneficiary : Address)
    (s : SubmissionManager) : Outcome SubmissionManager := do
  s.onlyChallengeManager e
  let submission ← s.requireSubmission id
  requireStatus submission .challenged
  let s ← s.decrementChallenged
  let s ← (
    if challengerWins then s.rejectChallenged id beneficiary
    else if s.prioritySubmissionOf (s.solutionCidHashOf id) ≠ id then s.rejectDuplicate id
    else do
      let deadline ← s.boundedRearmDeadline d e id
      s.rearm id deadline)
  pure (s.emit (.submissionChallengeResolved id challengerWins))

def cancelChallenge (id : ℕ) (s : SubmissionManager) : Outcome SubmissionManager := do
  s.onlyChallengeManager e
  let submission ← s.requireSubmission id
  requireStatus submission .challenged
  let s ← s.decrementChallenged
  if s.prioritySubmissionOf (s.solutionCidHashOf id) ≠ id then do
    let s ← s.rejectDuplicate id
    pure (s.emit (.submissionChallengeCancelled id 0))
  else do
    let deadline ← s.boundedRearmDeadline d e id
    let s ← s.rearm id deadline
    pure (s.emit (.submissionChallengeCancelled id deadline))

def resolveObjectiveChallenge (id : ℕ) (challengerWins : Bool) (beneficiary : Address)
    (s : SubmissionManager) : Outcome SubmissionManager := do
  s.onlyChallengeManager e
  let submission ← s.requireSubmission id
  requireStatus submission .challenged
  let s ← s.decrementChallenged
  let s ← (
    if challengerWins then s.rejectChallenged id beneficiary
    else if s.prioritySubmissionOf (s.solutionCidHashOf id) ≠ id then s.rejectDuplicate id
    else do
      let s ← s.rearm id e.now
      pure (s.clearReveal id))
  pure (s.emit (.submissionChallengeResolved id challengerWins))

/-! ### Views -/

def maxDisputeDeadline (id : ℕ) (s : SubmissionManager) : Outcome ℕ := do
  let _ ← s.requireSubmission id
  pure (s.maxDisputeEndsAtOf id)

def pendingCreditAtoms (id : ℕ) (s : SubmissionManager) : Outcome ℕ := do
  let submission ← s.requireSubmission id
  s.frontierMarginal d submission.claimedScoreAtoms

def disputedEntitlementWei (id : ℕ) (l : PayoutLedger) (p : BountyPool) (s : SubmissionManager) :
    Outcome ℕ := do
  let submission ← s.requireSubmission id
  requireStatus submission .revealed
  let additionalAtoms ← s.pendingCreditAtoms d id
  l.provisionalEntitlement p.accountedBalance submission.solver additionalAtoms

def solverOf (id : ℕ) (s : SubmissionManager) : Outcome Address := do
  let submission ← s.requireSubmission id
  pure submission.solver

/-! ### Expiry and withdrawal -/

def expireCommitted (id : ℕ) (s : SubmissionManager) : Outcome SubmissionManager := do
  revertIf s.pausedAll (fail .pausedAll)
  let submission ← s.requireSubmission id
  requireStatus submission .committed
  let activeNow ← s.activeTimestamp e
  let expiresAt ← addU64 (s.committedActiveAtOf id) d.sm.challengeWindowSeconds
  if activeNow < expiresAt then do
    let wall ← wallTimestampForActive e expiresAt activeNow
    .error (fail .revealWindowOpen [wall, e.now])
  else do
    revertIf (e.now < s.expiryGraceUntil) (fail .revealWindowOpen [s.expiryGraceUntil, e.now])
    let s := s.setStatus id .rejected
    let s ← s.makeBondClaimable id d.sm.treasury
    let s := s.decrementOpenSubmission
    pure (s.emit (.submissionExpired id .committed))

def expireRevealed (id : ℕ) (s : SubmissionManager) : Outcome SubmissionManager := do
  revertIf s.pausedAll (fail .pausedAll)
  let submission ← s.requireSubmission id
  requireStatus submission .revealed
  let expiresAt ← addU64 submission.challengeEndsAt d.sm.challengeWindowSeconds
  revertIf (e.now < expiresAt) (fail .permanenceGraceOpen [expiresAt, e.now])
  revertIf (e.now < s.expiryGraceUntil) (fail .permanenceGraceOpen [s.expiryGraceUntil, e.now])
  let s := s.setStatus id .rejected
  let s ← s.decrementRevealed
  let s ← s.makeBondClaimable id d.sm.treasury
  let s := s.decrementOpenSubmission
  pure (s.emit (.submissionExpired id .revealed))

/-- `claimBond`, up to and including the transfer of the returned amount. -/
def claimBond (s : SubmissionManager) : Outcome (ℕ × SubmissionManager) := do
  require (s.claiming = false) (fail .reentrantBondClaim)
  let amount := s.claimableBondWei e.sender
  revertIf (amount = 0) (fail .noBondToClaim)
  revertIf (s.balance < amount ∨ e.ext.accepts = false) (fail .transferFailed)
  pure (amount, { s with
    claiming := true
    claimableBondWei := update s.claimableBondWei e.sender 0
    balance := s.balance - amount })

/-- The rest of `claimBond` after the call of the claimant. -/
def finishClaimBond (claimant : Address) (amount : ℕ) (s : SubmissionManager) :
    SubmissionManager :=
  { s with claiming := false }.emit (.bondClaimed claimant amount)

end SubmissionManager
end P42Prizes
