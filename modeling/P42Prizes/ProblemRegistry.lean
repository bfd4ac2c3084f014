import P42Prizes.ResolverQuorum

/-! # The problem registry

`P42ProblemRegistry` anchors the problems of the boards: the hashes and addresses of each, written by its
owner under the next free number and rewritten until the problem is frozen.  It asks the pool of a problem
whether it was ever funded, and the factory and the challenge manager of a canonical board for the package
their objective program is bound to. -/

namespace P42Prizes.Registry

open Reverting Function

/-! ### Values -/

/-- The custom errors, with their arguments, and a failed call to a view function. -/
inductive RegistryError where
  | notOwner | zeroHash | emptyUri | zeroAddress | badWindow | alreadyFrozen | notFunded | unknownProblem
  | unexpectedProblemId (expectedProblemId nextProblemId : ℕ)
  | viewFailed | panic
deriving DecidableEq, Repr

abbrev Outcome (α : Type) := Except RegistryError α

structure ProblemConfig where
  specHash : Bytes32 := 0
  verifierSourceHash : Bytes32 := 0
  verifierImageHash : Bytes32 := 0
  admissionMatrixHash : Bytes32 := 0
  metadataURI : Bytes := []
  pool : Address := 0
  ledger : Address := 0
  submissionManager : Address := 0
  challengeManager : Address := 0
  challengeWindowSeconds : ℕ := 0
  minImprovementAtoms : ℕ := 0
deriving DecidableEq, Repr

structure Problem extends ProblemConfig where
  frozen : Bool := false
deriving DecidableEq, Repr

inductive Event where
  | problemRegistered (problemId : ℕ) (specHash verifierImageHash : Bytes32) (pool : Address)
      (metadataURI : Bytes)
  | problemUpdated (problemId : ℕ) (specHash verifierImageHash : Bytes32)
  | problemFrozen (problemId : ℕ)
deriving DecidableEq, Repr

/-- What other accounts show during one call; `none` for a call that fails, and the bytes a low-level call
returns. -/
structure Views where
  codeLength : Address → ℕ := fun _ => 0
  everFunded : Address → Option Bool := fun _ => none
  factory : Address → Option Bytes := fun _ => none
  objectiveBinding : Address → Option ObjectiveBinding := fun _ => none

/-- The hash function and the chain, the address of the registry, the caller and the other accounts. -/
structure Env where
  crypto : Crypto
  self : Address
  sender : Address
  views : Views

/-- The storage of `P42ProblemRegistry`, and its events, newest first. -/
structure P42ProblemRegistry where
  owner : Address
  problemCount : ℕ := 0
  problems : ℕ → Problem := fun _ => {}
  logs : List Event := []

/-- The functions of the contract that are not views. -/
inductive RegistryCall where
  | register (config : ProblemConfig)
  | registerExpected (config : ProblemConfig) (expectedProblemId : ℕ)
  | updateBeforeFunding (problemId : ℕ) (config : ProblemConfig)
  | freeze (problemId : ℕ)
  | latchFrozen (problemId : ℕ)

/-- The call of a view function. -/
def view {α : Type} (answer : Option α) : Outcome α :=
  match answer with
  | some a => pure a
  | none => .error .viewFailed

/-- `abi.decode` of one address. -/
def decodeAddress (data : Bytes) : Outcome Address := do
  let word := wordOfBytes data
  revertIf (2 ^ 160 ≤ word.toNat) .viewFailed
  pure (word.setWidth 160)

namespace P42ProblemRegistry

variable (e : Env)

def emit (event : Event) (r : P42ProblemRegistry) : P42ProblemRegistry := { r with logs := event :: r.logs }

def onlyOwner (r : P42ProblemRegistry) : Outcome Unit := revertIf (e.sender ≠ r.owner) .notOwner

def construct (owner : Address) : Outcome P42ProblemRegistry := do
  revertIf (owner = 0) .zeroAddress
  pure { owner := owner }

/-- `_requireExisting` and `_requireExistingView` -/
def requireExisting (problemId : ℕ) (r : P42ProblemRegistry) : Outcome Problem := do
  let problem := r.problems problemId
  revertIf (problem.pool = 0) .unknownProblem
  pure problem

def isFrozen (problemId : ℕ) (r : P42ProblemRegistry) : Outcome Bool := do
  let problem ← r.requireExisting problemId
  if problem.frozen then pure true else view (e.views.everFunded problem.pool)

def explicitlyFrozen (problemId : ℕ) (r : P42ProblemRegistry) : Outcome Bool := do
  pure (← r.requireExisting problemId).frozen

def problemPool (problemId : ℕ) (r : P42ProblemRegistry) : Outcome Address := do
  pure (← r.requireExisting problemId).pool

def problemHashes (problemId : ℕ) (r : P42ProblemRegistry) :
    Outcome (Bytes32 × Bytes32 × Bytes32 × Bytes32) := do
  let problem ← r.requireExisting problemId
  pure (problem.specHash, problem.verifierSourceHash, problem.verifierImageHash, problem.admissionMatrixHash)

/-- `_objectivePackageHash` -/
def objectivePackageHash (problemId : ℕ) (config : ProblemConfig) (guestElfSha256 programVKey : Bytes32) :
    Bytes32 :=
  e.crypto.keccak256 (abiEncodeTagged (ascii "P42_OBJECTIVE_PACKAGE_V2")
    [uintWord e.crypto.chainid, e.self.word, uintWord problemId, config.specHash, config.verifierSourceHash,
      config.verifierImageHash, config.admissionMatrixHash, guestElfSha256, programVKey])

/-- Whether the challenge manager names a factory that has code. -/
def factoryDeployed (challengeManager : Address) : Outcome Bool :=
  match e.views.factory challengeManager with
  | none => pure false
  | some data =>
      if data.length = 32 then do
        let factory ← decodeAddress data
        pure (decide (e.views.codeLength factory ≠ 0))
      else pure false

/-- The binding of a canonical board to the package that is registered. -/
def requireBound (problemId : ℕ) (config : ProblemConfig) : Outcome Unit := do
  let binding ← view (e.views.objectiveBinding config.challengeManager)
  revertIf (binding.registry ≠ e.self ∨ binding.problemId ≠ problemId ∨ binding.guestElfSha256 = 0 ∨
      binding.programVKey = 0 ∨ binding.packageHash ≠
        objectivePackageHash e problemId config binding.guestElfSha256 binding.programVKey) .zeroHash

/-- `_validateConfig` -/
def validateConfig (problemId : ℕ) (config : ProblemConfig) : Outcome Unit := do
  revertIf (config.specHash = 0 ∨ config.verifierSourceHash = 0 ∨ config.verifierImageHash = 0 ∨
    config.admissionMatrixHash = 0) .zeroHash
  revertIf (config.metadataURI.length = 0) .emptyUri
  revertIf (config.pool = 0 ∨ config.ledger = 0 ∨ config.submissionManager = 0 ∨
    config.challengeManager = 0) .zeroAddress
  revertIf (config.challengeWindowSeconds = 0) .badWindow
  let deployed ← factoryDeployed e config.challengeManager
  if deployed then requireBound e problemId config else pure ()

/-- `_store` -/
def store (problemId : ℕ) (config : ProblemConfig) (frozen : Bool) (r : P42ProblemRegistry) :
    P42ProblemRegistry :=
  { r with problems := update r.problems problemId { config with frozen := frozen } }

def nextProblemId (r : P42ProblemRegistry) : Outcome ℕ := checkedAdd 256 .panic r.problemCount 1

/-- `_register` -/
def registerNext (config : ProblemConfig) (r : P42ProblemRegistry) : Outcome P42ProblemRegistry := do
  let problemId ← r.nextProblemId
  validateConfig e problemId config
  let r := { r with problemCount := problemId }.store problemId config false
  pure (r.emit (.problemRegistered problemId config.specHash config.verifierImageHash config.pool
    config.metadataURI))

def register (config : ProblemConfig) (r : P42ProblemRegistry) : Outcome P42ProblemRegistry := do
  r.onlyOwner e
  r.registerNext e config

def registerExpected (config : ProblemConfig) (expectedProblemId : ℕ) (r : P42ProblemRegistry) :
    Outcome P42ProblemRegistry := do
  r.onlyOwner e
  let nextProblemId ← r.nextProblemId
  revertIf (expectedProblemId ≠ nextProblemId) (.unexpectedProblemId expectedProblemId nextProblemId)
  r.registerNext e config

def updateBeforeFunding (problemId : ℕ) (config : ProblemConfig) (r : P42ProblemRegistry) :
    Outcome P42ProblemRegistry := do
  r.onlyOwner e
  let _ ← r.requireExisting problemId
  revertIf (← r.isFrozen e problemId) .alreadyFrozen
  validateConfig e problemId config
  pure ((r.store problemId config false).emit
    (.problemUpdated problemId config.specHash config.verifierImageHash))

/-- `problem.frozen = true` of an existing problem. -/
def markFrozen (problemId : ℕ) (problem : Problem) (r : P42ProblemRegistry) : P42ProblemRegistry :=
  { r with problems := update r.problems problemId { problem with frozen := true } }.emit
    (.problemFrozen problemId)

def freeze (problemId : ℕ) (r : P42ProblemRegistry) : Outcome P42ProblemRegistry := do
  r.onlyOwner e
  let problem ← r.requireExisting problemId
  revertIf problem.frozen .alreadyFrozen
  pure (r.markFrozen problemId problem)

/-- The one-way latch anyone can set once the pool was funded. -/
def latchFrozen (problemId : ℕ) (r : P42ProblemRegistry) : Outcome P42ProblemRegistry := do
  let problem ← r.requireExisting problemId
  revertIf problem.frozen .alreadyFrozen
  let funded ← view (e.views.everFunded problem.pool)
  revertIf (funded = false) .notFunded
  pure (r.markFrozen problemId problem)

/-- A call of the registry. -/
def call (r : P42ProblemRegistry) : RegistryCall → Outcome P42ProblemRegistry
  | .register config => r.register e config
  | .registerExpected config expectedProblemId => r.registerExpected e config expectedProblemId
  | .updateBeforeFunding problemId config => r.updateBeforeFunding e problemId config
  | .freeze problemId => r.freeze e problemId
  | .latchFrozen problemId => r.latchFrozen e problemId

end P42ProblemRegistry
end P42Prizes.Registry
