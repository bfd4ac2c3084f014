import P42Prizes.Protocol
import P42Prizes.ResolverQuorum

/-! # The quorum and its boards as a transition system

The resolver quorum runs in one world with the boards of its ten managers.  A step is a new block,
a step of one board that is not a call of the quorum, or a call of the quorum; the calls that the
quorum makes to a manager are calls of that board under the quorum's own address.

A manager calls back into the quorum only to return a bond, which the quorum accepts, so a call of
the quorum is never suspended. -/

namespace P42Prizes

open Reverting Function Transition

structure QuorumWorld where
  block : Block
  quorum : ResolverQuorum
  boards : Address → World

inductive QuorumCall where
  | rotateSigners (signers : List Address) (threshold : ℕ)
  | setPaused (paused : Bool)
  | fundStake
  | resolve (decision : Decision) (transcriptURI : Bytes) (signatures : List Bytes)
  | reclaimStake (manager : Address)
  | proveEquivocation (first : Decision) (firstSignatures : List Bytes) (second : Decision)
      (secondSignatures : List Bytes)
  | proveObjectiveFraud (claim : ObjectiveClaim) (proof : Bytes)

def QuorumCall.payable : QuorumCall → Bool
  | .fundStake => true
  | .resolve .. => true
  | _ => false

/-! ### The view functions the quorum reads -/

/-- `_objectiveBindingContext` -/
def Crypto.objectiveBindingContext (c : Crypto) (b : ObjectiveBinding) : Bytes32 :=
  c.keccak256 (abiEncode [b.registry.word, uintWord b.problemId, b.packageHash, b.guestElfSha256,
    b.programVKey])

/-- `objectiveProofContext` -/
def ChallengeManager.objectiveProofContext (d : Deployment) (b : ObjectiveBinding) (id : ℕ)
    (expectedChallengeInstanceHash : Bytes32) (c : ChallengeManager) : Outcome (Bytes32 × Bool) := do
  let current ← c.requireChallenge id expectedChallengeInstanceHash
  revertIf (current.decisionPending = false) (fail .noPendingDecision)
  let pendingDecisionContext := d.crypto.keccak256 (abiEncode [expectedChallengeInstanceHash,
    c.challengeRevealInstanceHashOf id, current.challenger.word, current.reasonHash,
    boolWord current.challengerWins, current.transcriptHash,
    d.crypto.keccak256 current.transcriptURI, current.verdictHash])
  let contextHash := d.crypto.keccak256 (abiEncodeTagged
    (ascii "P42_OBJECTIVE_CHALLENGE_CONTEXT_V2") [uintWord d.crypto.chainid,
      d.challengeManager.word, d.submissionManager.word, d.crypto.objectiveBindingContext b,
      uintWord id, pendingDecisionContext])
  pure (contextHash, current.challengerWins)

namespace QuorumDeployment

variable (Q : QuorumDeployment)

def proofHash (first : Decision) (low high : Bytes32) : Bytes32 :=
  Q.crypto.keccak256 (abiEncodeTagged (ascii "P42_RESOLVER_EQUIVOCATION_V1")
    [uintWord Q.crypto.chainid, Q.adapter.word, first.manager.word, uintWord first.submissionId,
      first.challengeInstanceHash, low, high])

def journalDigest (claim : ObjectiveClaim) (contextHash : Bytes32) : Bytes32 :=
  Q.crypto.keccak256 (abiEncodeTagged (ascii "P42_OBJECTIVE_VERDICT_JOURNAL_V2")
    [uintWord Q.crypto.chainid, Q.adapter.word, claim.manager.word,
      (Q.binding claim.manager).guestElfSha256, (Q.binding claim.manager).programVKey, contextHash,
      boolWord claim.correctedChallengerWins, claim.proofBeneficiary.word])

def objectiveProofHash (claim : ObjectiveClaim) (journalDigest : Bytes32) (proof : Bytes) :
    Bytes32 :=
  Q.crypto.keccak256 (abiEncodeTagged (ascii "P42_OBJECTIVE_FRAUD_PROOF_V2")
    [(Q.binding claim.manager).programVKey, journalDigest, Q.crypto.keccak256 proof])

end QuorumDeployment

namespace QuorumWorld

variable (Q : QuorumDeployment) (e : Env)

/-- The quorum calls a manager with `value` wei; when the manager reverts, so does the call. -/
def callManager (m : Address) (value : ℕ) (c : ChallengeCall) (w : QuorumWorld) :
    Outcome QuorumWorld := do
  let b ← Call.run (Q.board m) ⟨e.block, Q.adapter, value, { e.ext with accepts := true }⟩
    (w.boards m) (.challenge c)
  pure { w with
    quorum := { w.quorum with balance := w.quorum.balance - value }
    boards := update w.boards m b }

/-- The payee returns from a payment of the board. -/
def returnPayment (m : Address) (w : QuorumWorld) : QuorumWorld :=
  match (w.boards m).frames with
  | [] => w
  | f :: frames =>
      { w with boards := update w.boards m ({ w.boards m with frames := frames }.finish (Q.board m) f) }

def emit (ev : QuorumEvent) (w : QuorumWorld) : QuorumWorld :=
  { w with quorum := w.quorum.emit ev }

/-- `_forwardDecision` -/
def forwardDecision (decision : Decision) (transcriptURI : Bytes) (w : QuorumWorld) :
    Outcome QuorumWorld := do
  let decisionBond := (Q.board decision.manager).cm.resolverDecisionBondWei
  revertIf (w.quorum.balance < decisionBond)
    (fail .insufficientStake [decisionBond, w.quorum.balance])
  w.callManager Q e decision.manager decisionBond (.resolveFor decision.submissionId
    decision.challengeInstanceHash decision.challengerWins decision.transcriptHash transcriptURI
    decision.verdictHash Q.adapter)

def resolve (decision : Decision) (transcriptURI : Bytes) (signatures : List Bytes)
    (w : QuorumWorld) : Outcome QuorumWorld := do
  revertIf (w.quorum.paused e) (fail .paused)
  w.quorum.requireDecisionBinding Q e decision true
  revertIf (e.value ≠ 0) (fail .unexpectedValue)
  revertIf (Q.crypto.keccak256 transcriptURI ≠ decision.transcriptURIHash)
    (fail .transcriptURIMismatch)
  revertIf (w.quorum.nonceUsed decision.manager decision.nonce = true) (fail .nonceAlreadyUsed)
  revertIf (w.quorum.challengeDecided decision.manager decision.challengeInstanceHash = true)
    (fail .challengeAlreadyDecided)
  let digest := Q.decisionDigest decision
  w.quorum.requireQuorum Q decision.signerEpoch digest signatures
  let w := { w with quorum := { w.quorum with
    nonceUsed := update w.quorum.nonceUsed decision.manager
      (update (w.quorum.nonceUsed decision.manager) decision.nonce true)
    challengeDecided := update w.quorum.challengeDecided decision.manager
      (update (w.quorum.challengeDecided decision.manager) decision.challengeInstanceHash true) } }
  let w ← w.forwardDecision Q e decision transcriptURI
  pure (w.emit (.decisionForwarded decision.manager decision.submissionId
    decision.challengeInstanceHash digest decision.nonce decision.challengerWins))

def reclaimStake (m : Address) (w : QuorumWorld) : Outcome QuorumWorld := do
  revertIf (m ∉ Q.managers) (fail .badManager)
  let amount := (w.boards m).cm.claimableBondWei Q.adapter
  let w ← w.callManager Q e m 0 .claimBond
  let balance ← receive w.quorum.balance amount
  let w := { w with quorum := { w.quorum with balance := balance } }.returnPayment Q m
  pure (w.emit (.stakeReclaimed m w.quorum.balance))

def proveEquivocation (first : Decision) (firstSignatures : List Bytes) (second : Decision)
    (secondSignatures : List Bytes) (w : QuorumWorld) : Outcome QuorumWorld := do
  w.quorum.requireDecisionBinding Q e first false
  w.quorum.requireDecisionBinding Q e second false
  revertIf (first.manager ≠ second.manager ∨ first.submissionId ≠ second.submissionId ∨
    first.challengeInstanceHash ≠ second.challengeInstanceHash ∨
    first.signerEpoch ≠ second.signerEpoch) (fail .notEquivocation)
  let firstStructHash := Q.crypto.decisionStructHash first
  let secondStructHash := Q.crypto.decisionStructHash second
  revertIf (firstStructHash = secondStructHash ∨
    Q.crypto.decisionContentHash first = Q.crypto.decisionContentHash second) (fail .notEquivocation)
  w.quorum.requireQuorum Q first.signerEpoch (Q.decisionDigest first) firstSignatures
  w.quorum.requireQuorum Q second.signerEpoch (Q.decisionDigest second) secondSignatures
  let low := if firstStructHash < secondStructHash then firstStructHash else secondStructHash
  let high := if firstStructHash < secondStructHash then secondStructHash else firstStructHash
  let proofHash := Q.proofHash first low high
  revertIf (w.quorum.equivocationProven proofHash = true) (fail .equivocationAlreadyProven)
  let w := { w with quorum := { w.quorum with
    equivocationProven := update w.quorum.equivocationProven proofHash true } }
  let w ← w.callManager Q e first.manager 0
    (.slashResolverBond first.submissionId first.challengeInstanceHash proofHash)
  pure (w.emit (.equivocationProven first.manager first.submissionId first.challengeInstanceHash
    proofHash firstStructHash secondStructHash))

def proveObjectiveFraud (claim : ObjectiveClaim) (proof : Bytes) (w : QuorumWorld) :
    Outcome QuorumWorld := do
  revertIf w.quorum.provingObjective (fail .objectiveProofReentrancy)
  let w := { w with quorum := { w.quorum with provingObjective := true } }
  revertIf (claim.manager ∉ Q.managers) (fail .badManager)
  revertIf (claim.proofBeneficiary = 0) (fail .fraudProofBeneficiaryZero)
  revertIf (e.ext.codehash Q.objectiveVerifier ≠ Q.objectiveVerifierCodehash)
    (fail .badObjectiveVerifier)
  let (contextHash, pendingChallengerWins) ← (w.boards claim.manager).cm.objectiveProofContext
    (Q.board claim.manager) (Q.binding claim.manager) claim.submissionId claim.challengeInstanceHash
  revertIf (claim.correctedChallengerWins = pendingChallengerWins)
    (fail .objectiveOutcomeNotContradictory)
  let programVKey := (Q.binding claim.manager).programVKey
  let journalDigest := Q.journalDigest claim contextHash
  revertIf (e.ext.verify Q.objectiveVerifier programVKey journalDigest proof = false)
    (fail .badObjectiveProof)
  let proofHash := Q.objectiveProofHash claim journalDigest proof
  let w ← w.callManager Q e claim.manager 0 (.applyObjectiveResolution claim.submissionId
    claim.challengeInstanceHash claim.correctedChallengerWins proofHash claim.proofBeneficiary)
  let w := w.emit (.objectiveFraudProven claim.manager claim.submissionId
    claim.challengeInstanceHash proofHash journalDigest claim.correctedChallengerWins
    claim.proofBeneficiary)
  pure { w with quorum := { w.quorum with provingObjective := false } }

end QuorumWorld

/-! ### The step function -/

variable (Q : QuorumDeployment) (e : Env)

/-- The new storage of the quorum, after a call that calls no manager. -/
def QuorumWorld.setQuorum (w : QuorumWorld) (q : ResolverQuorum) : QuorumWorld :=
  { w with quorum := q }

/-- A call of the quorum, whose ETH has arrived. -/
def QuorumCall.run (w : QuorumWorld) : QuorumCall → Outcome QuorumWorld
  | rotateSigners signers threshold =>
      w.setQuorum <$> w.quorum.rotateSigners Q e signers threshold
  | setPaused paused => w.setQuorum <$> w.quorum.setPaused Q e paused
  | fundStake => w.setQuorum <$> w.quorum.fundStake e
  | resolve decision transcriptURI signatures => w.resolve Q e decision transcriptURI signatures
  | reclaimStake manager => w.reclaimStake Q e manager
  | proveEquivocation first firstSignatures second secondSignatures =>
      w.proveEquivocation Q e first firstSignatures second secondSignatures
  | proveObjectiveFraud claim proof => w.proveObjectiveFraud Q e claim proof

inductive QuorumAction where
  | tick (block : Block)
  | force (amount : ℕ)
  | board (manager : Address) (a : Action)
  | call (sender : Address) (value : ℕ) (ext : External) (c : QuorumCall)

/-- Time passes on all boards at once, and the quorum calls only through its functions. -/
def Action.ForeignTo (adapter : Address) : Action → Prop
  | .tick _ => False
  | .call sender .. => sender ≠ adapter
  | _ => True

instance (adapter : Address) (a : Action) : Decidable (a.ForeignTo adapter) :=
  match a with
  | .tick _ => inferInstanceAs (Decidable False)
  | .call sender .. => inferInstanceAs (Decidable (sender ≠ adapter))
  | .force .. => inferInstanceAs (Decidable True)
  | .finish => inferInstanceAs (Decidable True)

/-- The accounts that are neither the quorum nor a contract of a board. -/
def QuorumDeployment.IsExternal (a : Address) : Prop :=
  a ≠ 0 ∧ a ≠ Q.adapter ∧ ∀ m ∈ Q.managers, (Q.board m).IsExternal a

instance (a : Address) : Decidable (Q.IsExternal a) :=
  have := List.decidableBAll (fun m => (Q.board m).IsExternal a) Q.managers
  inferInstanceAs (Decidable (_ ∧ _ ∧ _))

/-- No call of a board is suspended. -/
def QuorumWorld.Idle (w : QuorumWorld) : Prop := ∀ m ∈ Q.managers, (w.boards m).frames = []

instance (w : QuorumWorld) : Decidable (w.Idle Q) :=
  List.decidableBAll (fun m => (w.boards m).frames = []) Q.managers

def QuorumWorld.step (w : QuorumWorld) : QuorumAction → Option QuorumWorld
  | .tick block =>
      if w.Idle Q ∧ w.block.number < block.number ∧ w.block.timestamp ≤ block.timestamp then
        some { w with block := block, boards := fun m => { w.boards m with block := block } }
      else none
  | .force amount =>
      (receive w.quorum.balance amount).toOption.map
        (fun balance => w.setQuorum { w.quorum with balance := balance })
  | .board m a =>
      if m ∈ Q.managers ∧ a.ForeignTo Q.adapter then
        ((w.boards m).step (Q.board m) a).map
          (fun b => { w with boards := update w.boards m b })
      else none
  | .call sender value ext c =>
      if Q.IsExternal sender ∧ (value = 0 ∨ c.payable = true) then
        (do
          let balance ← receive w.quorum.balance value
          c.run Q ⟨w.block, sender, value, ext⟩
            (w.setQuorum { w.quorum with balance := balance })).toOption
      else none

/-- The quorum is deployed when its managers are: they know it as their resolver, and each is
the challenge manager of its submission manager. -/
def QuorumDeployment.Deployed (block : Block) (m : Address) (b : World) : Prop :=
  (Q.board m).protocol.Reachable (fun _ a => ∀ sender value ext c, a = .call sender value ext c →
    sender ≠ Q.adapter) b ∧
  b.block = block ∧ b.sm.challengeManager = m

/-- The protocol of the quorum with its boards. -/
def QuorumDeployment.protocol : System QuorumWorld QuorumAction where
  init w := (∀ m ∈ Q.managers, Q.Deployed w.block m (w.boards m)) ∧
    ∃ deployer signers threshold,
      ResolverQuorum.create ⟨w.block, deployer, 0, {}⟩ signers threshold = .ok w.quorum
  step w a := w.step Q a

end P42Prizes
