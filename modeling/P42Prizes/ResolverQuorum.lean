import P42Prizes.Abi
import P42Prizes.Commitment

/-! # The resolver quorum

`P42ResolverQuorum` is the resolver of all the boards: a set of signers, replaced by its owner from
epoch to epoch, whose threshold decides disputes by signing.  This module holds its storage, the
hashes that are signed and the functions that call no challenge manager. -/

namespace P42Prizes

open Reverting Function

/-! ### Constants of the source -/

def requiredManagerCount : ℕ := 10
def pauseDuration : ℕ := 24 * 3600
def pauseCooldown : ℕ := 24 * 3600
def signerRotationCooldown : ℕ := days 7

/-- What a quorum signs. -/
structure Decision where
  chainId : ℕ
  adapter : Address
  manager : Address
  submissionId : ℕ
  challengeInstanceHash : Bytes32
  challengerWins : Bool
  transcriptHash : Bytes32
  transcriptURIHash : Bytes32
  verdictHash : Bytes32
  bondBeneficiary : Address
  nonce : ℕ
  expiry : ℕ
  signerEpoch : ℕ
  chainId_lt : chainId < 2 ^ 256 := by decide
  submissionId_lt : submissionId < 2 ^ 256 := by decide
  nonce_lt : nonce < 2 ^ 256 := by decide
  expiry_lt : expiry < 2 ^ 64 := by decide
  signerEpoch_lt : signerEpoch < 2 ^ 64 := by decide
deriving DecidableEq

structure ObjectiveClaim where
  manager : Address
  submissionId : ℕ
  challengeInstanceHash : Bytes32
  correctedChallengerWins : Bool
  proofBeneficiary : Address

inductive QuorumEvent where
  | pauseSet (paused : Bool) (pauseUntil cooldownUntil : ℕ)
  | signerSetRotated (signerEpoch threshold : ℕ) (signers : List Address)
  | decisionForwarded (manager : Address) (submissionId : ℕ) (challengeInstanceHash : Bytes32)
      (decisionDigest : Bytes32) (nonce : ℕ) (challengerWins : Bool)
  | equivocationProven (manager : Address) (submissionId : ℕ) (challengeInstanceHash : Bytes32)
      (proofHash firstDecisionHash secondDecisionHash : Bytes32)
  | objectiveFraudProven (manager : Address) (submissionId : ℕ) (challengeInstanceHash : Bytes32)
      (proofHash journalDigest : Bytes32) (correctedChallengerWins : Bool)
      (proofBeneficiary : Address)
  | stakeFunded (signer : Address) (amount balance : ℕ)
  | stakeReclaimed (manager : Address) (balance : ℕ)
deriving DecidableEq, Repr

/-- The storage of `P42ResolverQuorum`, its ETH and its events, newest first. -/
structure ResolverQuorum where
  balance : ℕ := 0
  threshold : ℕ := 0
  signerEpoch : ℕ := 0
  signers : List Address := []
  isSigner : Address → Bool := fun _ => false
  epochSigners : ℕ → List Address := fun _ => []
  isEpochSigner : ℕ → Address → Bool := fun _ _ => false
  epochThreshold : ℕ → ℕ := fun _ => 0
  pauseUntil : ℕ := 0
  pauseCooldownUntil : ℕ := 0
  nextSignerRotationAt : ℕ := 0
  provingObjective : Bool := false
  nonceUsed : Address → ℕ → Bool := fun _ _ => false
  challengeDecided : Address → Bytes32 → Bool := fun _ _ => false
  equivocationProven : Bytes32 → Bool := fun _ => false
  logs : List QuorumEvent := []

/-- What the factory of the challenge managers records for a board. -/
structure ObjectiveBinding where
  registry : Address
  problemId : ℕ
  packageHash : Bytes32
  guestElfSha256 : Bytes32
  programVKey : Bytes32

/-- The quorum at its address, with its immutables and the boards of its managers; the proof fields
are the checks of its constructor. -/
structure QuorumDeployment where
  crypto : Crypto
  adapter : Address
  owner : Address
  expectedTreasury : Address
  expectedDecisionBondWei : ℕ
  objectiveVerifier : Address
  objectiveVerifierCodehash : Bytes32
  managers : List Address
  board : Address → Deployment
  binding : Address → ObjectiveBinding
  adapter_ne_zero : adapter ≠ 0
  owner_ne_zero : owner ≠ 0
  treasury_ne_zero : expectedTreasury ≠ 0
  decisionBond_pos : 0 < expectedDecisionBondWei
  verifier_ne_zero : objectiveVerifier ≠ 0 ∧ objectiveVerifierCodehash ≠ 0
  managers_length : managers.length = requiredManagerCount
  managers_nodup : managers.Nodup
  managers_ne_zero : ∀ m ∈ managers, m ≠ 0
  board_manager : ∀ m ∈ managers, (board m).challengeManager = m
  board_crypto : ∀ m ∈ managers, (board m).crypto = crypto
  board_owner : ∀ m ∈ managers, (board m).cm.owner = owner
  board_resolver : ∀ m ∈ managers, (board m).cm.resolver = adapter
  board_treasury : ∀ m ∈ managers, (board m).cm.treasury = expectedTreasury
  board_decisionBond : ∀ m ∈ managers,
    (board m).cm.resolverDecisionBondWei = expectedDecisionBondWei
  board_external : ∀ m ∈ managers, (board m).IsExternal adapter
  binding_ne_zero : ∀ m ∈ managers, (binding m).registry ≠ 0 ∧ (binding m).problemId ≠ 0 ∧
    (binding m).packageHash ≠ 0 ∧ (binding m).guestElfSha256 ≠ 0 ∧ (binding m).programVKey ≠ 0

namespace Crypto

variable (c : Crypto)

def decisionTypehash : Bytes32 := c.keccak256 (ascii ("Decision(uint256 chainId,address adapter,address manager,uint256 submissionId,bytes32 challengeInstanceHash,bool challengerWins,bytes32 transcriptHash,bytes32 transcriptURIHash,bytes32 verdictHash,address bondBeneficiary,uint256 nonce,uint64 expiry,uint64 signerEpoch)"))

def quorumNameHash : Bytes32 := c.keccak256 (ascii "P42ResolverQuorum")
def quorumVersionHash : Bytes32 := c.keccak256 (ascii "1")

def decisionStructHash (decision : Decision) : Bytes32 :=
  c.keccak256 (abiEncode [c.decisionTypehash, uintWord decision.chainId, decision.adapter.word,
    decision.manager.word, uintWord decision.submissionId, decision.challengeInstanceHash,
    boolWord decision.challengerWins, decision.transcriptHash, decision.transcriptURIHash,
    decision.verdictHash, decision.bondBeneficiary.word, uintWord decision.nonce,
    uintWord decision.expiry, uintWord decision.signerEpoch])

/-- `_decisionContentHash` -/
def decisionContentHash (decision : Decision) : Bytes32 :=
  c.keccak256 (abiEncode [uintWord decision.chainId, decision.adapter.word, decision.manager.word,
    uintWord decision.submissionId, decision.challengeInstanceHash,
    boolWord decision.challengerWins, decision.transcriptHash, decision.transcriptURIHash,
    decision.verdictHash, decision.bondBeneficiary.word])

end Crypto

namespace QuorumDeployment

variable (Q : QuorumDeployment)

def domainSeparator : Bytes32 :=
  Q.crypto.keccak256 (abiEncode [Q.crypto.eip712DomainTypehash, Q.crypto.quorumNameHash,
    Q.crypto.quorumVersionHash, uintWord Q.crypto.chainid, Q.adapter.word])

def decisionDigest (decision : Decision) : Bytes32 :=
  Q.crypto.keccak256 ([0x19, 0x01] ++ wordBytes Q.domainSeparator ++
    wordBytes (Q.crypto.decisionStructHash decision))

/-- `_recover` -/
def recover (digest : Bytes32) (signature : Bytes) : Outcome Address := do
  revertIf (signature.length ≠ 65) (fail .badSignature)
  let r := wordOfBytes (signature.take 32)
  let s := wordOfBytes ((signature.drop 32).take 32)
  let v := (signature.getD 64 0).toNat
  revertIf (s.toNat > secp256k1HalfOrder ∨ v ≠ 27 ∧ v ≠ 28) (fail .badSignature)
  let recovered := Q.crypto.ecrecover digest v r s
  revertIf (recovered = 0) (fail .badSignature)
  pure recovered

end QuorumDeployment

namespace ResolverQuorum

variable (Q : QuorumDeployment) (e : Env)

def emit (ev : QuorumEvent) (q : ResolverQuorum) : ResolverQuorum := { q with logs := ev :: q.logs }

def onlyOwner : Outcome Unit := revertIf (e.sender ≠ Q.owner) (fail .notOwner)

/-! ### Signers -/

/-- A turn of the second loop of `_installSignerSet`. -/
def installSigner (epoch : ℕ) (signer : Address) (q : ResolverQuorum) : Outcome ResolverQuorum := do
  revertIf (signer = 0 ∨ q.isEpochSigner epoch signer = true) (fail .badSigner)
  pure { q with
    isSigner := update q.isSigner signer true
    isEpochSigner := update q.isEpochSigner epoch (update (q.isEpochSigner epoch) signer true)
    signers := q.signers ++ [signer]
    epochSigners := update q.epochSigners epoch (q.epochSigners epoch ++ [signer]) }

def installSigners (epoch : ℕ) : List Address → ResolverQuorum → Outcome ResolverQuorum
  | [], q => pure q
  | signer :: signers, q => do
      let q ← q.installSigner epoch signer
      installSigners epoch signers q

/-- The signers of the last epoch are signers no longer. -/
def dropSigners (q : ResolverQuorum) : ResolverQuorum :=
  { q with
    isSigner := q.signers.foldl (fun isSigner signer => update isSigner signer false) q.isSigner
    signers := [] }

/-- `_installSignerSet` -/
def installSignerSet (epoch : ℕ) (signers : List Address) (threshold : ℕ) (q : ResolverQuorum) :
    Outcome ResolverQuorum := do
  revertIf (signers.length < 3 ∨ signers.length > 5) (fail .badSigner)
  revertIf (threshold ≤ signers.length / 2 ∨ threshold > signers.length) (fail .badThreshold)
  let q ← q.dropSigners.installSigners epoch signers
  let q := { q with
    signerEpoch := epoch
    threshold := threshold
    epochThreshold := update q.epochThreshold epoch threshold }
  pure (q.emit (.signerSetRotated epoch threshold signers))

/-- The constructor. -/
def create (signers : List Address) (threshold : ℕ) : Outcome ResolverQuorum := do
  let q ← installSignerSet 1 signers threshold {}
  let next ← addU64 e.now signerRotationCooldown
  pure { q with nextSignerRotationAt := next }

def rotateSigners (signers : List Address) (threshold : ℕ) (q : ResolverQuorum) :
    Outcome ResolverQuorum := do
  onlyOwner Q e
  revertIf (e.now < q.nextSignerRotationAt) (fail .rotationCooldownActive)
  let nextEpoch ← addU64 q.signerEpoch 1
  let q ← q.installSignerSet nextEpoch signers threshold
  let next ← addU64 e.now signerRotationCooldown
  pure { q with nextSignerRotationAt := next }

/-! ### Pauses and the stake -/

def paused (q : ResolverQuorum) : Prop := e.now < q.pauseUntil

instance (q : ResolverQuorum) : Decidable (q.paused e) :=
  inferInstanceAs (Decidable (e.now < q.pauseUntil))

def setPaused (paused : Bool) (q : ResolverQuorum) : Outcome ResolverQuorum := do
  onlyOwner Q e
  if paused then
    revertIf (q.paused e) (fail .pauseAlreadyActive)
    revertIf (e.now < q.pauseCooldownUntil) (fail .pauseCooldownActive)
    let pauseUntil ← addU64 e.now pauseDuration
    let cooldownUntil ← addU64 pauseUntil pauseCooldown
    let q := { q with pauseUntil := pauseUntil, pauseCooldownUntil := cooldownUntil }
    pure (q.emit (.pauseSet paused q.pauseUntil q.pauseCooldownUntil))
  else
    let q := { q with pauseUntil := e.now }
    pure (q.emit (.pauseSet paused q.pauseUntil q.pauseCooldownUntil))

/-- `fundStake`, whose ETH has arrived. -/
def fundStake (q : ResolverQuorum) : Outcome ResolverQuorum := do
  revertIf (q.isSigner e.sender = false) (fail .notSigner)
  revertIf (e.value = 0) (fail .unexpectedValue)
  pure (q.emit (.stakeFunded e.sender e.value q.balance))

/-! ### Decisions -/

/-- `_requireDecisionBinding` -/
def requireDecisionBinding (decision : Decision) (enforceExpiry : Bool) (q : ResolverQuorum) :
    Outcome Unit := do
  revertIf (decision.chainId ≠ Q.crypto.chainid ∨ decision.adapter ≠ Q.adapter ∨
    decision.manager ∉ Q.managers ∨ decision.manager = 0 ∨ decision.submissionId = 0 ∨
    decision.challengeInstanceHash = 0 ∨ decision.transcriptHash = 0 ∨
    decision.transcriptURIHash = 0 ∨ decision.verdictHash = 0 ∨
    decision.bondBeneficiary ≠ Q.adapter ∨ q.epochThreshold decision.signerEpoch = 0)
    (fail .badDecisionBinding)
  revertIf (enforceExpiry = true ∧ decision.signerEpoch ≠ q.signerEpoch) (fail .staleSignerEpoch)
  revertIf (enforceExpiry = true ∧ e.now > decision.expiry) (fail .decisionExpired)

/-- The loop of `_requireQuorum`: the number of signatures accepted. -/
def acceptSigners (epoch : ℕ) (digest : Bytes32) (q : ResolverQuorum) :
    List Bytes → Address → ℕ → Outcome ℕ
  | [], _, valid => pure valid
  | signature :: signatures, previous, valid => do
      let recovered ← Q.recover digest signature
      revertIf (recovered ≤ previous) (fail .signersNotStrictlySorted)
      revertIf (q.isEpochSigner epoch recovered = false) (fail .badSignature)
      acceptSigners epoch digest q signatures recovered (valid + 1)

/-- `_requireQuorum` -/
def requireQuorum (epoch : ℕ) (digest : Bytes32) (signatures : List Bytes) (q : ResolverQuorum) :
    Outcome Unit := do
  let required := q.epochThreshold epoch
  revertIf (required = 0) (fail .unknownSignerEpoch)
  revertIf (signatures.length < required)
    (fail .insufficientSignatures [signatures.length, required])
  let valid ← acceptSigners Q epoch digest q signatures 0 0
  revertIf (valid < required) (fail .insufficientSignatures [valid, required])

end ResolverQuorum
end P42Prizes
