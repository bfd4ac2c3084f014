import P42Prizes.Reverting
import P42Prizes.Systems

/-! # The high water mark of the checkpoints

The portal serves a checkpoint of the indexer only when the database has accepted it.  The database
keeps every identity that was accepted, as an epoch, and every checkpoint, as an acceptance of an epoch,
and a control row with the current ones.  The rule by which it accepts is written three times: as the
transition of the database (`transition`), as the decision of the portal
(`decideIndexerCheckpointEpoch`), and as the validation of a whole history when the migration is run
again (`validateHistory`).

Ids are natural numbers here.  What the catalog says of the owner and the rights of the tables is not
modelled, and of the times at which rows were accepted only whether the control row has one. -/

namespace P42Prizes.HighWater

open Reverting

/-! ### Candidates -/

/-- What is not modelled of a snapshot is no string and no number. -/
inductive Value where
  | string (s : String)
  | number (x : ℚ)
  | other

structure Identity where
  releaseBindingDigest : String
  authorizationDigest : String
  chainId : ℤ
  chainName : String
  deploymentCommit : String
  deploymentConfigHash : String
deriving DecidableEq, Repr

structure Checkpoint where
  finalizedBlockNumber : ℤ
  finalizedBlockHash : String
  checkpointDigest : String
  checkpointTimestamp : ℤ
deriving DecidableEq, Repr

/-- `IndexerCheckpointHighWaterCandidate` -/
structure Candidate where
  identity : Identity
  checkpoint : Checkpoint
deriving DecidableEq, Repr

/-- The fields of an activated snapshot that a candidate is made of. -/
structure ActivatedSnapshot where
  toBlock : Value
  toBlockHash : Value
  toBlockTimestamp : Value
  checkpointDigest : Value
  releaseBindingDigest : Value
  authorizationDigest : Value
  chainId : Value
  chainName : String
  deploymentCommit : Value
  deploymentConfigHash : Value

inductive CheckpointError where
  | invalid (label : String)
  | candidateInvalid | strictRow | constraintViolation | historyNotContiguous | controlMismatch
  | acceptanceOutsideEpoch | timestampRegression | blockRegression | sameHeightConflict
  | identityReplay | epochTimestamp | renewalBlock | chainReplay | chainTransition
  | semanticRegression
deriving DecidableEq, Repr

def isDecimal (c : Char) : Bool := '0' ≤ c && c ≤ '9'
def isLowerHex (c : Char) : Bool := isDecimal c || ('a' ≤ c && c ≤ 'f')
def isHex (c : Char) : Bool := isLowerHex c || ('A' ≤ c && c ≤ 'F')

/-- A text that is `start` and so many characters of a kind. -/
def matchesFixed (start : List Char) (count : ℕ) (kind : Char → Bool) (text : String) : Bool :=
  text.toList.take start.length = start && (text.toList.drop start.length).length = count &&
    (text.toList.drop start.length).all kind

/-- `/^0x[0-9a-fA-F]{64}$/`, or with lower case digits only. -/
def isBytes32 (kind : Char → Bool) : String → Bool := matchesFixed ['0', 'x'] 64 kind

/-- `/^sha256:[0-9a-f]{64}$/` -/
def isSha256 : String → Bool := matchesFixed ['s', 'h', 'a', '2', '5', '6', ':'] 64 isLowerHex

/-- `/^[0-9a-fA-F]{40}$/`, or with lower case digits only. -/
def isCommit (kind : Char → Bool) : String → Bool := matchesFixed [] 40 kind

/-- `/^[a-z][A-Za-z0-9]*$/` -/
def isChainName (text : String) : Bool :=
  match text.toList with
  | [] => false
  | c :: cs => ('a' ≤ c && c ≤ 'z') &&
      cs.all (fun c => isDecimal c || ('a' ≤ c && c ≤ 'z') || ('A' ≤ c && c ≤ 'Z'))

/-- `uint` -/
def uint (value : Value) (label : String) (positive : Bool) : Except CheckpointError ℤ :=
  match value with
  | .number x => do
      revertIf (x.den ≠ 1 ∨ x.num < (if positive then 1 else 0) ∨ 2 ^ 53 - 1 < x.num) (.invalid label)
      pure x.num
  | _ => .error (.invalid label)

/-- `normalized` -/
def normalized (value : Value) (pattern : String → Bool) (label : String) :
    Except CheckpointError String :=
  match value with
  | .string s => do
      revertIf (pattern s = false) (.invalid label)
      pure s.toLower
  | _ => .error (.invalid label)

/-- `indexerCheckpointHighWaterCandidate` -/
def indexerCheckpointHighWaterCandidate (snapshot : ActivatedSnapshot) :
    Except CheckpointError Candidate := do
  revertIf (isChainName snapshot.chainName = false) (.invalid "activated checkpoint chain name")
  let finalizedBlockNumber ← uint snapshot.toBlock "activated checkpoint finalized block" false
  let finalizedBlockHash ← normalized snapshot.toBlockHash (isBytes32 isHex)
    "activated checkpoint finalized block hash"
  let checkpointDigest ← normalized snapshot.checkpointDigest isSha256 "attested raw checkpoint digest"
  let checkpointTimestamp ← uint snapshot.toBlockTimestamp "activated checkpoint timestamp" true
  let releaseBindingDigest ← normalized snapshot.releaseBindingDigest isSha256
    "activated checkpoint release binding digest"
  let authorizationDigest ← normalized snapshot.authorizationDigest isSha256
    "activated checkpoint authorization digest"
  let chainId ← uint snapshot.chainId "activated checkpoint chain id" true
  let deploymentCommit ← normalized snapshot.deploymentCommit (isCommit isHex)
    "activated deployment commit"
  let deploymentConfigHash ← normalized snapshot.deploymentConfigHash (isBytes32 isHex)
    "activated deployment config hash"
  pure
    { identity := ⟨releaseBindingDigest, authorizationDigest, chainId, snapshot.chainName,
        deploymentCommit, deploymentConfigHash⟩
      checkpoint := ⟨finalizedBlockNumber, finalizedBlockHash, checkpointDigest, checkpointTimestamp⟩ }

/-! ### The tables -/

def Identity.sameChain (x y : Identity) : Bool := x.chainId = y.chainId && x.chainName = y.chainName

/-- The formats that the columns of an epoch must have. -/
def Identity.valid (x : Identity) : Bool :=
  0 < x.chainId && isSha256 x.releaseBindingDigest && isSha256 x.authorizationDigest &&
    isChainName x.chainName && isCommit isLowerHex x.deploymentCommit &&
    isBytes32 isLowerHex x.deploymentConfigHash

/-- The formats that the columns of an acceptance must have. -/
def Checkpoint.valid (x : Checkpoint) : Bool :=
  0 ≤ x.finalizedBlockNumber && 0 < x.checkpointTimestamp && isBytes32 isLowerHex x.finalizedBlockHash &&
    isSha256 x.checkpointDigest

/-- `p42_indexer_checkpoint_epoch` -/
structure IdentityEpoch where
  epochId : ℕ
  identity : Identity
deriving DecidableEq, Repr

/-- `p42_indexer_checkpoint_acceptance` -/
structure CheckpointAcceptance where
  acceptanceId : ℕ
  epochId : ℕ
  checkpoint : Checkpoint
deriving DecidableEq, Repr

/-- `p42_indexer_checkpoint_control` -/
structure CheckpointControl where
  currentEpoch : Option ℕ := none
  currentAcceptance : Option ℕ := none
  nextEpoch : ℕ := 1
  nextAcceptance : ℕ := 1
  updatedAt : Option ℕ := none
deriving DecidableEq, Repr

structure Tables where
  epochs : List IdentityEpoch := []
  acceptances : List CheckpointAcceptance := []
  control : CheckpointControl := {}
deriving DecidableEq, Repr

inductive TransitionKind where
  | same | advance | first | renew
deriving DecidableEq, Repr

structure TransitionRow where
  transitionKind : TransitionKind
  epoch : IdentityEpoch
  acceptance : CheckpointAcceptance
  control : CheckpointControl
deriving DecidableEq, Repr

/-- `<>` in a condition; a comparison with null does not hold. -/
def ne : Option ℕ → ℕ → Bool
  | none, _ => false
  | some x, y => x ≠ y

/-- `SELECT … INTO STRICT` -/
def strict {α : Type} : List α → Except CheckpointError α
  | [row] => .ok row
  | _ => .error .strictRow

namespace Tables

variable (t : Tables)

def maxEpoch : Option ℕ := (t.epochs.map IdentityEpoch.epochId).max?
def maxAcceptance : Option ℕ := (t.acceptances.map CheckpointAcceptance.acceptanceId).max?

def insertEpoch (row : IdentityEpoch) : Except CheckpointError Tables := do
  revertIf (row.epochId < 1 ∨ row.identity.valid = false) .constraintViolation
  revertIf (∃ e ∈ t.epochs, e.epochId = row.epochId ∨ e.identity = row.identity) .constraintViolation
  pure { t with epochs := t.epochs ++ [row] }

def insertAcceptance (row : CheckpointAcceptance) : Except CheckpointError Tables := do
  revertIf (row.acceptanceId < 1 ∨ row.checkpoint.valid = false) .constraintViolation
  revertIf (∀ e ∈ t.epochs, e.epochId ≠ row.epochId) .constraintViolation
  revertIf (∃ a ∈ t.acceptances, a.acceptanceId = row.acceptanceId ∨
    a.checkpoint.checkpointDigest = row.checkpoint.checkpointDigest ∨
    a.epochId = row.epochId ∧ a.checkpoint = row.checkpoint) .constraintViolation
  pure { t with acceptances := t.acceptances ++ [row] }

def updateControl (row : CheckpointControl) : Except CheckpointError Tables := do
  revertIf (¬ (row = {} ∨ ∃ epoch ∈ row.currentEpoch, ∃ acceptance ∈ row.currentAcceptance,
    0 < epoch ∧ 0 < acceptance ∧ row.nextEpoch = epoch + 1 ∧ row.nextAcceptance = acceptance + 1 ∧
      row.updatedAt ≠ none)) .constraintViolation
  revertIf (∃ epoch ∈ row.currentEpoch, ∀ e ∈ t.epochs, e.epochId ≠ epoch) .constraintViolation
  revertIf (∃ acceptance ∈ row.currentAcceptance, ∀ a ∈ t.acceptances, a.acceptanceId ≠ acceptance)
    .constraintViolation
  pure { t with control := row }

/-- The rows of the control joined with its epoch and its acceptance. -/
def currentRows (kind : TransitionKind) : List TransitionRow :=
  (t.epochs.filter (fun e => some e.epochId = t.control.currentEpoch)).flatMap (fun e =>
    (t.acceptances.filter (fun a => some a.acceptanceId = t.control.currentAcceptance)).map (fun a =>
      ⟨kind, e, a, t.control⟩))

/-- Every epoch has an acceptance. -/
def Complete : Prop := ∀ e ∈ t.epochs, ∃ a ∈ t.acceptances, a.epochId = e.epochId

instance : Decidable t.Complete := inferInstanceAs (Decidable (∀ e ∈ t.epochs, _))

end Tables

/-! ### The transition -/

def Candidate.valid (p : Candidate) : Bool := p.checkpoint.valid && p.identity.valid

/-- The inserts and the update of a transition to a new epoch. -/
def Tables.openEpoch (t : Tables) (now epochId acceptanceId : ℕ) (p : Candidate) :
    Except CheckpointError Tables := do
  let t ← t.insertEpoch ⟨epochId, p.identity⟩
  let t ← t.insertAcceptance ⟨acceptanceId, epochId, p.checkpoint⟩
  t.updateControl ⟨some epochId, some acceptanceId, epochId + 1, acceptanceId + 1, some now⟩

/-- The transition on a history that is not empty, from its last epoch and acceptance. -/
def Tables.accept (t : Tables) (now : ℕ) (p : Candidate) (currentIdentity : IdentityEpoch)
    (currentCheckpoint : CheckpointAcceptance) : Except CheckpointError (List TransitionRow × Tables) :=
  let maxEpoch := currentIdentity.epochId
  let maxAcceptance := currentCheckpoint.acceptanceId
  let current := currentCheckpoint.checkpoint
  if currentIdentity.identity = p.identity then do
    revertIf (p.checkpoint.checkpointTimestamp < current.checkpointTimestamp) .timestampRegression
    revertIf (p.checkpoint.finalizedBlockNumber < current.finalizedBlockNumber) .blockRegression
    if p.checkpoint.finalizedBlockNumber = current.finalizedBlockNumber then do
      revertIf (p.checkpoint.finalizedBlockHash ≠ current.finalizedBlockHash ∨
        p.checkpoint.checkpointDigest ≠ current.checkpointDigest ∨
        p.checkpoint.checkpointTimestamp ≠ current.checkpointTimestamp) .sameHeightConflict
      pure (t.currentRows .same, t)
    else do
      let control := t.control
      let t ← t.insertAcceptance ⟨maxAcceptance + 1, maxEpoch, p.checkpoint⟩
      let t ← t.updateControl { control with
        currentAcceptance := some (maxAcceptance + 1)
        nextAcceptance := maxAcceptance + 2
        updatedAt := some now }
      pure (t.currentRows .advance, t)
  else do
    revertIf (∃ e ∈ t.epochs, e.identity = p.identity) .identityReplay
    revertIf (p.checkpoint.checkpointTimestamp ≤ current.checkpointTimestamp) .epochTimestamp
    if currentIdentity.identity.sameChain p.identity then
      revertIf (p.checkpoint.finalizedBlockNumber ≤ current.finalizedBlockNumber) .renewalBlock
    else do
      revertIf (∃ e ∈ t.epochs, e.identity.sameChain p.identity) .chainReplay
      revertIf (p.identity.releaseBindingDigest = currentIdentity.identity.releaseBindingDigest ∨
        p.identity.authorizationDigest = currentIdentity.identity.authorizationDigest ∨
        p.identity.deploymentConfigHash = currentIdentity.identity.deploymentConfigHash)
        .chainTransition
    let t ← t.openEpoch now (maxEpoch + 1) (maxAcceptance + 1) p
    pure (t.currentRows .renew, t)

/-- `p42_transition_indexer_checkpoint`, once it has locked the control row. -/
def transition (now : ℕ) (p : Candidate) (t : Tables) :
    Except CheckpointError (List TransitionRow × Tables) := do
  revertIf (p.valid = false) .candidateInvalid
  let control := t.control
  let maxEpoch := t.maxEpoch.getD 0
  let maxAcceptance := t.maxAcceptance.getD 0
  revertIf (maxEpoch ≠ t.epochs.length ∨ maxAcceptance ≠ t.acceptances.length ∨ ¬ t.Complete)
    .historyNotContiguous
  if maxEpoch = 0 ∨ maxAcceptance = 0 then do
    revertIf (maxEpoch ≠ 0 ∨ maxAcceptance ≠ 0 ∨ control.currentEpoch ≠ none ∨
      control.currentAcceptance ≠ none ∨ control.nextEpoch ≠ 1 ∨ control.nextAcceptance ≠ 1 ∨
      control.updatedAt ≠ none) .controlMismatch
    let t ← t.openEpoch now 1 1 p
    pure (t.currentRows .first, t)
  else do
    revertIf (ne control.currentEpoch maxEpoch ∨ ne control.currentAcceptance maxAcceptance ∨
      control.nextEpoch ≠ maxEpoch + 1 ∨ control.nextAcceptance ≠ maxAcceptance + 1) .controlMismatch
    let currentIdentity ← strict (t.epochs.filter (fun e => e.epochId = maxEpoch))
    let currentCheckpoint ← strict (t.acceptances.filter (fun a => a.acceptanceId = maxAcceptance))
    revertIf (currentCheckpoint.epochId ≠ currentIdentity.epochId) .acceptanceOutsideEpoch
    t.accept now p currentIdentity currentCheckpoint

/-! ### The exact read -/

/-- `p42_read_exact_indexer_checkpoint`, once it has locked the control row. -/
def readExact (p : Candidate) (t : Tables) : Except CheckpointError (List TransitionRow) := do
  revertIf (p.valid = false) .candidateInvalid
  let control := t.control
  match t.maxEpoch, t.maxAcceptance with
  | some maxEpoch, some maxAcceptance => do
      revertIf (ne control.currentEpoch maxEpoch ∨ ne control.currentAcceptance maxAcceptance ∨
        control.nextEpoch ≠ maxEpoch + 1 ∨ control.nextAcceptance ≠ maxAcceptance + 1) .controlMismatch
      let currentIdentity ← strict (t.epochs.filter (fun e => e.epochId = maxEpoch))
      let currentCheckpoint ← strict (t.acceptances.filter (fun a => a.acceptanceId = maxAcceptance))
      revertIf (currentCheckpoint.epochId ≠ currentIdentity.epochId) .acceptanceOutsideEpoch
      if currentIdentity.identity ≠ p.identity ∨ currentCheckpoint.checkpoint ≠ p.checkpoint then pure []
      else pure (t.currentRows .same)
  | maxEpoch, maxAcceptance => do
      revertIf (maxEpoch ≠ none ∨ maxAcceptance ≠ none ∨ control.currentEpoch ≠ none ∨
        control.currentAcceptance ≠ none ∨ control.nextEpoch ≠ 1 ∨ control.nextAcceptance ≠ 1 ∨
        control.updatedAt ≠ none) .controlMismatch
      pure []

/-! ### The decision of the portal -/

structure EpochDecision where
  kind : TransitionKind
  epochId : ℕ
  acceptanceId : ℕ
deriving DecidableEq, Repr

/-- `decideIndexerCheckpointEpoch` -/
def decideIndexerCheckpointEpoch (control : CheckpointControl) (epochs : List IdentityEpoch)
    (current : Option CheckpointAcceptance) (c : Candidate) : Except CheckpointError EpochDecision :=
  match control.currentEpoch, control.currentAcceptance with
  | some currentEpoch, some currentAcceptance =>
      match epochs.find? (fun row => row.epochId = currentEpoch), current with
      | some row, some current => do
          revertIf (current.acceptanceId ≠ currentAcceptance ∨ current.epochId ≠ currentEpoch ∨
            control.nextEpoch ≠ currentEpoch + 1 ∨ control.nextAcceptance ≠ currentAcceptance + 1)
            .controlMismatch
          let identity := row.identity
          let block := c.checkpoint.finalizedBlockNumber
          let previous := current.checkpoint.finalizedBlockNumber
          let timestamp := c.checkpoint.checkpointTimestamp
          if identity = c.identity then do
            revertIf (timestamp < current.checkpoint.checkpointTimestamp) .timestampRegression
            revertIf (block < previous) .blockRegression
            if block = previous then do
              revertIf (c.checkpoint.finalizedBlockHash ≠ current.checkpoint.finalizedBlockHash ∨
                c.checkpoint.checkpointDigest ≠ current.checkpoint.checkpointDigest ∨
                timestamp ≠ current.checkpoint.checkpointTimestamp) .sameHeightConflict
              pure ⟨.same, row.epochId, current.acceptanceId⟩
            else pure ⟨.advance, row.epochId, control.nextAcceptance⟩
          else do
            revertIf (∃ row ∈ epochs, row.identity = c.identity) .identityReplay
            revertIf (timestamp ≤ current.checkpoint.checkpointTimestamp) .epochTimestamp
            if identity.sameChain c.identity then revertIf (block ≤ previous) .renewalBlock
            else do
              revertIf (∃ row ∈ epochs, row.identity.sameChain c.identity) .chainReplay
              revertIf (c.identity.releaseBindingDigest = identity.releaseBindingDigest ∨
                c.identity.authorizationDigest = identity.authorizationDigest ∨
                c.identity.deploymentConfigHash = identity.deploymentConfigHash) .chainTransition
            pure ⟨.renew, control.nextEpoch, control.nextAcceptance⟩
      | _, _ => .error .controlMismatch
  | currentEpoch, currentAcceptance => do
      revertIf (currentEpoch ≠ none ∨ currentAcceptance ≠ none ∨ epochs ≠ [] ∨ current ≠ none ∨
        control.nextEpoch ≠ 1 ∨ control.nextAcceptance ≠ 1) .controlMismatch
      pure ⟨.first, 1, 1⟩

/-- The acceptance that the control row names. -/
def Tables.currentAcceptance (t : Tables) : Option CheckpointAcceptance :=
  t.acceptances.find? (fun a => some a.acceptanceId = t.control.currentAcceptance)

/-! ### The validation of a history -/

structure OrderedRow where
  acceptance : CheckpointAcceptance
  identity : Identity
deriving DecidableEq, Repr

/-- The acceptances in the order of their ids, each joined with its epoch. -/
def Tables.ordered (t : Tables) : List OrderedRow :=
  (t.acceptances.insertionSort (fun a b => a.acceptanceId ≤ b.acceptanceId)).flatMap (fun a =>
    (t.epochs.filter (fun e => e.epochId = a.epochId)).map (fun e => ⟨a, e.identity⟩))

/-- Every row with the one before it, as `lag` gives it. -/
def lag {α : Type} (rows : List α) : List (Option α × α) := (none :: rows.map some).zip rows

/-- The row regresses against the one before it. -/
def Tables.Regresses (t : Tables) (previous : Option OrderedRow) (o : OrderedRow) : Prop :=
  match previous with
  | none => o.acceptance.acceptanceId ≠ 1 ∨ o.acceptance.epochId ≠ 1
  | some previous =>
      let block := o.acceptance.checkpoint.finalizedBlockNumber
      let previousBlock := previous.acceptance.checkpoint.finalizedBlockNumber
      let timestamp := o.acceptance.checkpoint.checkpointTimestamp
      let previousTimestamp := previous.acceptance.checkpoint.checkpointTimestamp
      o.acceptance.acceptanceId ≠ previous.acceptance.acceptanceId + 1 ∨
        o.acceptance.epochId < previous.acceptance.epochId ∨
        previous.acceptance.epochId + 1 < o.acceptance.epochId ∨
        (o.acceptance.epochId = previous.acceptance.epochId ∧
          (block ≤ previousBlock ∨ timestamp < previousTimestamp)) ∨
        (o.acceptance.epochId = previous.acceptance.epochId + 1 ∧
          (timestamp ≤ previousTimestamp ∨
            (∃ historical ∈ t.epochs, historical.epochId < o.acceptance.epochId ∧
              historical.identity = o.identity) ∨
            (o.identity.sameChain previous.identity = true ∧ block ≤ previousBlock) ∨
            (o.identity.sameChain previous.identity = false ∧
              (o.identity.releaseBindingDigest = previous.identity.releaseBindingDigest ∨
                o.identity.authorizationDigest = previous.identity.authorizationDigest ∨
                o.identity.deploymentConfigHash = previous.identity.deploymentConfigHash ∨
                ∃ historical ∈ t.epochs, historical.epochId < o.acceptance.epochId ∧
                  historical.identity.sameChain o.identity = true))))

instance (t : Tables) (previous : Option OrderedRow) (o : OrderedRow) :
    Decidable (t.Regresses previous o) := by
  cases previous <;> unfold Tables.Regresses <;> infer_instance

/-- The validations of the migration when the tables exist already. -/
def validateHistory (t : Tables) : Except CheckpointError Unit := do
  revertIf (¬ (t.epochs.map IdentityEpoch.identity).Nodup) .identityReplay
  let control := t.control
  let maxEpoch := t.maxEpoch.getD 0
  let maxAcceptance := t.maxAcceptance.getD 0
  revertIf (maxEpoch ≠ t.epochs.length ∨ maxAcceptance ≠ t.acceptances.length ∨
    ¬ (maxEpoch = 0 ↔ maxAcceptance = 0) ∨ ¬ t.Complete) .historyNotContiguous
  if maxEpoch = 0 then
    revertIf (control.currentEpoch ≠ none ∨ control.currentAcceptance ≠ none ∨ control.nextEpoch ≠ 1 ∨
      control.nextAcceptance ≠ 1 ∨ control.updatedAt ≠ none) .controlMismatch
  else do
    revertIf (ne control.currentEpoch maxEpoch ∨ ne control.currentAcceptance maxAcceptance ∨
      control.nextEpoch ≠ maxEpoch + 1 ∨ control.nextAcceptance ≠ maxAcceptance + 1 ∨
      control.updatedAt = none) .controlMismatch
    revertIf (∃ rows ∈ lag t.ordered, t.Regresses rows.1 rows.2) .semanticRegression
    revertIf (∃ a ∈ t.acceptances, ∃ e ∈ t.epochs, e.epochId = a.epochId ∧
      a.acceptanceId = maxAcceptance ∧ a.epochId ≠ maxEpoch) .acceptanceOutsideEpoch

/-! ### Enforcement -/

/-- `assertTransition` -/
def assertTransition (row : TransitionRow) (c : Candidate) : Bool :=
  row.epoch.identity = c.identity && row.acceptance.checkpoint = c.checkpoint &&
    row.control.currentEpoch = some row.epoch.epochId &&
    row.control.currentAcceptance = some row.acceptance.acceptanceId &&
    row.control.nextEpoch = row.epoch.epochId + 1 &&
    row.control.nextAcceptance = row.acceptance.acceptanceId + 1 && row.control.updatedAt.isSome

/-- A call of `enforceIndexerCheckpointHighWater`: it has its candidate, has read the exact row under a
shared lock, has found none and given up the lock, has made the transition under an exclusive lock, or
is over. -/
inductive Session where
  | called (c : Candidate)
  | reading (c : Candidate) (rows : List TransitionRow)
  | missed (c : Candidate)
  | writing (c : Candidate) (rows : List TransitionRow) (uncommitted : Tables)
  | closed
deriving DecidableEq

namespace Session

/-- The session holds a lock of the control row. -/
def locks : Session → Bool
  | reading _ _ | writing _ _ _ => true
  | _ => false

def locksExclusively : Session → Bool
  | writing _ _ _ => true
  | _ => false

end Session

/-- The committed tables and the sessions, of whatever process. -/
structure World where
  tables : Tables := {}
  sessions : List Session := []

inductive Act where
  | call (snapshot : ActivatedSnapshot)
  | read (session : ℕ)
  | decide (session : ℕ)
  | transition (session now : ℕ)
  | commit (session : ℕ)
  | crash (session : ℕ)

namespace World

variable (w : World)

def setSession (i : ℕ) (session : Session) : World := { w with sessions := w.sessions.set i session }

def step : Act → Option World
  | .call snapshot =>
      match indexerCheckpointHighWaterCandidate snapshot with
      | .error _ => some w
      | .ok c => some { w with sessions := w.sessions ++ [.called c] }
  | .read i =>
      match w.sessions[i]? with
      | some (.called c) =>
          -- a row that is locked for an update is waited for
          if w.sessions.any Session.locksExclusively then none
          else match readExact c w.tables with
            | .error _ => some (w.setSession i .closed)
            | .ok rows => some (w.setSession i (.reading c rows))
      | _ => none
  | .decide i =>
      match w.sessions[i]? with
      | some (.reading c rows) =>
          if rows.length = 0 then some (w.setSession i (.missed c)) else some (w.setSession i .closed)
      | _ => none
  | .transition i now =>
      match w.sessions[i]? with
      | some (.missed c) =>
          if w.sessions.any Session.locks then none
          else match HighWater.transition now c w.tables with
            | .error _ => some (w.setSession i .closed)
            | .ok (rows, tables) => some (w.setSession i (.writing c rows tables))
      | _ => none
  | .commit i =>
      match w.sessions[i]? with
      | some (.writing c [row] tables) =>
          if assertTransition row c then some { w.setSession i .closed with tables := tables }
          else some (w.setSession i .closed)
      | some (.writing _ _ _) => some (w.setSession i .closed)
      | _ => none
  | .crash i => some (w.setSession i .closed)

end World

/-- The calls on empty tables. -/
def enforcement : Transition.System World Act where
  init w := w = {}
  step := World.step

end P42Prizes.HighWater
