import P42Prizes.Reverting

/-! # Words, blocks and hashes

The values the contracts compute with.  Addresses and 32-byte words are bit vectors.  A
`uint256`, `uint64` or `int256` is a natural number or an integer; every operation of the
source that can leave the range is a checked operation of `Reverting`, and reverts with the
arithmetic panic.

`block.timestamp` is a Unix time in seconds and stays below `2 ^ 63`, so the casts
`uint64(block.timestamp)` of the source are exact.  `External` holds what the contracts
outside the model answer during one call. -/

namespace P42Prizes

open Reverting

abbrev Address := BitVec 160
abbrev Bytes32 := BitVec 256
abbrev Bytes := List UInt8

instance fintypeBitVec (n : ℕ) : Fintype (BitVec n) :=
  Fintype.ofEquiv (Fin (2 ^ n)) ⟨BitVec.ofFin, BitVec.toFin, fun _ => rfl, fun _ => rfl⟩

instance lawfulBEqAddress : LawfulBEq Address := inferInstance

/-- The block a transaction is executed in. -/
structure Block where
  timestamp : ℕ
  number : ℕ
  timestamp_lt : timestamp < 2 ^ 63

/-- The hash and signature precompiles, and the chain they run on. -/
structure Crypto where
  keccak256 : Bytes → Bytes32
  sha256 : Bytes → Bytes32
  ecrecover : Bytes32 → ℕ → Bytes32 → Bytes32 → Address
  chainid : ℕ

/-- The bytes of an ASCII literal of the source. -/
def ascii (s : String) : Bytes := s.toList.map (fun c => UInt8.ofNat c.toNat)

/-- The 32 bytes of a word, most significant first. -/
def wordBytes (v : Bytes32) : Bytes :=
  (List.range 32).map (fun i => UInt8.ofBitVec (v.extractLsb' (8 * (31 - i)) 8))

/-- The word whose 32 bytes these are, most significant first. -/
def wordOfBytes (bs : Bytes) : Bytes32 :=
  BitVec.ofNat 256 (bs.foldl (fun acc b => acc * 256 + b.toNat) 0)

/-- `abi.encode` of values of static types, one word each. -/
def abiEncode (words : List Bytes32) : Bytes := words.flatMap wordBytes

def Address.word (a : Address) : Bytes32 := a.setWidth 256
def uintWord (n : ℕ) : Bytes32 := BitVec.ofNat 256 n
def intWord (z : ℤ) : Bytes32 := BitVec.ofInt 256 z
def boolWord (b : Bool) : Bytes32 := if b then 1 else 0

/-- The custom errors and `require` messages of the contracts, under the source's names
without their prefix `P42_`. -/
inductive ErrorName where
  -- arithmetic and calls without revert data
  | panic | mulDivOverflow | callFailed
  -- shared
  | notOwner | pausedNewActions | noBondToClaim | transferFailed | reentrantBondClaim
  | objectiveProofCapabilityInactive | fundingAuthorizationExpired | rolloverDestinationNotSet
  | submissionManagerZero | ledgerZero | feeClaimOnly
  -- P42SubmissionManager
  | pausedAll | notPausedAll | pausedAllRecoveryOpen | pausedAllRearmOpen | fundingAlreadyArmed
  | fundingAuthorizationZero | fundingAuthorizationActive | fundingAuthorizationNotActive
  | notFundingAuthorizer | fundingAuthorizationMismatch | fundingAuthorizationNonce
  | invalidFundingSignature | openWitnessWindowOpen | voidNotAdvance | voidNotFrontier
  | emptyCommitment | emptyDaHash | ledgerClosed | submissionWindowClosed | ledgerNotClosed
  | commitNotMature | commitExpired | emptySolutionCid | solutionCidTooLarge
  | badCommitmentReveal | notSolver | notChallengeManager | challengeManagerAlreadySet
  | badSubmissionStatus | notStrictImprovement | scoreAtomsOutOfRange | improvementAtomsMismatch
  | challengeWindowOpen | objectiveChallengeAlreadyCleared | challengeWindowClosed
  | revealWindowOpen | permanenceGraceOpen | emptySolutionBytes | solutionTooLarge
  | solutionHashMismatch | unexpectedOnchainBytes | insufficientPostingBond | unknownSubmission
  | bondUndercoversEntitlement | noFinalizedBond | activeRevealsOrChallenges
  | challengeManagerZero | zeroBondTopUp | beneficiaryZero
  -- P42ChallengeManager
  | notResolver | badSubmission | emptyReason | alreadyChallenged | selfChallenge
  | unknownChallenge | alreadyResolved | decisionPending | noPendingDecision
  | insufficientChallengeBond | insufficientResolverBond | disputeWindowOpen
  | disputeWindowClosed | settlementHorizonExceeded | emptyTranscriptHash | emptyTranscriptUri
  | transcriptUriTooLarge | emptyVerdictHash | noResolverBond | resolverBondLocked
  | resolverFraudWindowClosed | emptyFraudProofHash | objectiveOutcomeNotContradictory
  | fraudProofBeneficiaryZero | emptyRevealInstanceHash | revealInstanceMismatch
  | emptyChallengeInstanceHash | challengeInstanceMismatch | resolverBeneficiaryZero
  -- P42PayoutLedger
  | notPool | notCreditRecorder | creditRecorderAlreadySet | rolloverAlreadySet
  | rolloverDestinationInvalid | rolloverDestinationNotSeparate | poolRegistryNotSet
  | poolRegistryBindingInvalid | rolloverRegistryMismatch | rolloverAllocatorMismatch
  | closed | notClosed | zeroCredit | openSubmissions | fullPauseActive
  | creditRecoveryWindowOpen | closeByNotReached | voidExceedsCredit | claimsExpired
  | claimsNotExpired | rolloverAlreadySwept | rolloverNotAvailable | creditBoundExceeded
  | recorderZero | solverZero
  -- P42BountyPool
  | notLedger | ledgerAlreadySet | ledgerNotSet | submissionManagerAlreadySet
  | registryAlreadySet | registryNotSet | badProblemBinding | fundingNotArmed
  | creditRecorderMismatch | notAcceptingFunds | problemNotFrozen | fundingWindowClosed
  | fundingCapExceeded | nothingToClaim | recipientZero | invalidDonationPool | poolClosed
  | accountingUnderflow | sponsorRefundsDisabled | nothingToRefund | forcedEthExceedsAvailable
  | forcedEthRecoveryNotClosed | forcedEthRolloverNotSet | residualDisabled | reentrantClaim
  | registryZero | zeroFunding
  -- P42ResolverQuorum
  | badOwner | badSigner | badThreshold | unknownSignerEpoch | staleSignerEpoch
  | rotationCooldownActive | badManager | paused | pauseAlreadyActive | pauseCooldownActive
  | badDecisionBinding | decisionExpired | nonceAlreadyUsed | challengeAlreadyDecided
  | badSignature | signersNotStrictlySorted | insufficientSignatures | transcriptURIMismatch
  | notSigner | unexpectedValue | insufficientStake | notEquivocation
  | equivocationAlreadyProven | badObjectiveVerifier | badObjectiveProof
  | objectiveProofReentrancy
deriving DecidableEq, Repr

/-- Revert data: the error and its arguments. -/
structure Revert where
  error : ErrorName
  args : List ℤ
deriving DecidableEq, Repr

def fail (error : ErrorName) (args : List ℤ := []) : Revert := ⟨error, args⟩

/-- The outcome of a call: a result, or a revert that leaves no trace. -/
abbrev Outcome (α : Type) := Except Revert α

/-- What contracts and accounts outside the model answer during one call.  The fields are
view functions of the interfaces the source declares, indexed by the address called. -/
structure External where
  codehash : Address → Bytes32 := fun _ => 0
  -- `IP42ObjectiveProofCapability`: the return data, `none` for a failed call
  objectiveProofsActive : Address → Option Bytes := fun _ => none
  -- `IP42ProblemFreezeRegistry`
  problemPool : Address → ℕ → Address := fun _ _ => 0
  explicitlyFrozen : Address → ℕ → Bool := fun _ _ => false
  -- `P42RolloverVault`
  vaultRegistry : Address → Address := fun _ => 0
  vaultAllocator : Address → Address := fun _ => 0
  -- `ISubmissionManagerArmed`
  fundingArmed : Address → Bool := fun _ => false
  fundingAuthorizationExpiresAt : Address → ℕ := fun _ => 0
  objectiveProofCapabilityActive : Address → Bool := fun _ => false
  -- `IP42CreditCloseGuard`
  openSubmissionCount : Address → ℕ := fun _ => 0
  pausedAll : Address → Bool := fun _ => false
  creditRecoveryEndsAt : Address → ℕ := fun _ => 0
  -- `IP42DonationPool`
  registry : Address → Address := fun _ => 0
  problemId : Address → ℕ := fun _ => 0
  acceptingFunds : Address → Bool := fun _ => false
  -- `IP42ObjectiveVerifierGateway`
  verify : Address → Bytes32 → Bytes32 → Bytes → Bool := fun _ _ _ _ => false
  -- whether the payee of the call accepts the value sent to it
  accepts : Bool := true

/-- The block, the message and the outside answers of one call. -/
structure Env where
  block : Block
  sender : Address
  value : ℕ := 0
  ext : External := {}

abbrev Env.now (e : Env) : ℕ := e.block.timestamp

theorem Env.now_lt (e : Env) : e.now < 2 ^ 63 := e.block.timestamp_lt

abbrev addU64 (a b : ℕ) : Outcome ℕ := checkedAdd 64 (fail .panic) a b
abbrev addU256 (a b : ℕ) : Outcome ℕ := checkedAdd 256 (fail .panic) a b
abbrev subU (a b : ℕ) : Outcome ℕ := checkedSub (fail .panic) a b
abbrev subI256 (a b : ℤ) : Outcome ℤ := checkedSubInt 255 (fail .panic) a b

end P42Prizes
