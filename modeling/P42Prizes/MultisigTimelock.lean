import P42Prizes.Abi
import P42Prizes.Systems

/-! # The multisig timelock

`P42MultisigTimelock` schedules operations under the hash of their target, value, calldata and salt,
collects confirmations, and executes an operation by one call to its target.  The target runs in the
middle of `execute`, and may call the timelock again: an execution is modelled by a `Frame` that is
pushed when the call begins and popped by `finish` when it returns, with any calls in between.  A call
that fails reverts as a whole and leaves no trace, so it is not part of a run.

The timelock is called by itself only through the call of an operation whose target it is; `selfCall`
is that call.  Its calldata is read by the dispatcher of the contract, which is a parameter. -/

namespace P42Prizes.Timelock

open Reverting Function Transition

/-! ### Values -/

/-- The custom errors and the `require` message, with their arguments. -/
inductive TimelockError where
  | notSigner
  | notGuardian
  | notPauser
  | notSelfOverride
  | badThreshold
  | badSigner
  | badGuardian
  | badDelay
  | opExists
  | unknownOp
  | notPending
  | alreadyConfirmed
  | alreadyCancelConfirmed
  | alreadyRecoveryApproved
  | notSignerRecovery
  | notReady (eta : ℕ)
  | opExpired (expiresAt : ℕ)
  | notEnoughConfirmations (have_ need : ℕ)
  | guardianCannotCancelOverride
  | guardianFamilyCancellationUsed (family : Bytes32)
  | pauseTargetNotAllowed (target : Address)
  | invalidPauseSelector (selector : Bytes)
  | callFailed
  | targetZero
deriving DecidableEq, Repr

abbrev Outcome (α : Type) := Except TimelockError α

/-- `State` -/
inductive OpState where
  | none
  | pending
  | executed
  | cancelled
  | expired
deriving DecidableEq, Repr

structure Op where
  eta : ℕ := 0
  expiresAt : ℕ := 0
  confirmations : ℕ := 0
  cancelConfirmations : ℕ := 0
  state : OpState := .none
  overrideClass : Bool := false
  family : Bytes32 := 0
deriving DecidableEq

/-- The arguments of `schedule` and `execute`, which an operation id is the hash of. -/
structure Operation where
  target : Address
  value : ℕ
  data : Bytes
  salt : Bytes32
deriving DecidableEq, Repr

/-- The transaction that is executed, and its block. -/
structure Tx where
  timestamp : ℕ
  blockNumber : ℕ
  blockHash : Bytes32
  hash : Bytes32
  timestamp_lt : timestamp < 2 ^ 64

instance : DecidableEq Tx := fun tx tx' =>
  decidable_of_iff (tx.timestamp = tx'.timestamp ∧ tx.blockNumber = tx'.blockNumber ∧
    tx.blockHash = tx'.blockHash ∧ tx.hash = tx'.hash) (by cases tx; cases tx'; simp)

inductive Event where
  | scheduled (id : Bytes32) (operation : Operation) (eta : ℕ)
  | overrideScheduled (id family : Bytes32) (eta expiresAt : ℕ)
  | confirmed (id : Bytes32) (signer : Address) (confirmations : ℕ)
  | cancelConfirmed (id : Bytes32) (signer : Address) (confirmations : ℕ)
  | signerRecoveryApproved (id : Bytes32) (guardian : Address) (governanceEpoch : ℕ)
  | executed (id : Bytes32) (target : Address) (value : ℕ)
  | cancelled (id : Bytes32) (by_ : Address)
  | expired (id : Bytes32)
  | signerAdded (signer : Address)
  | signerRemoved (signer : Address)
  | signerSwapped (oldSigner newSigner : Address)
  | thresholdSet (threshold overrideThreshold : ℕ)
  | guardianSet (guardian : Address)
  | pauserSet (pauser : Address) (allowed : Bool)
  | pauseTargetSet (target : Address) (allowed : Bool)
  | emergencyPaused (by_ target : Address) (selector : Bytes)
deriving DecidableEq, Repr

/-- An event and the transaction that emitted it. -/
structure Log where
  tx : Tx
  event : Event
deriving DecidableEq

/-- The functions of the contract. -/
inductive TimelockCall where
  | receive
  | schedule (operation : Operation)
  | scheduleOverride (operation : Operation)
  | confirm (id : Bytes32)
  | approveSignerRecovery (target : Address) (data : Bytes) (salt : Bytes32)
  | cancel (id : Bytes32)
  | confirmCancel (id : Bytes32)
  | expire (id : Bytes32)
  | execute (operation : Operation)
  | addSigner (signer : Address)
  | removeSigner (signer : Address)
  | swapSigner (oldSigner newSigner : Address)
  | setThreshold (threshold : ℕ)
  | setGuardian (guardian : Address)
  | setPauser (pauser : Address) (allowed : Bool)
  | setPauseTarget (target : Address) (allowed : Bool)
  | emergencyPause (target : Address) (selector : Bytes)
deriving DecidableEq, Repr

/-- The address, the hash function, the delay of the constructor, and the dispatcher: the function and
arguments that calldata stands for, if any. -/
structure Config where
  crypto : Crypto
  address : Address
  delaySeconds : ℕ
  dispatch : Bytes → Option TimelockCall

/-- The storage of `P42MultisigTimelock`, and its events, newest first. -/
structure MultisigTimelock where
  signers : List Address := []
  isSigner : Address → Bool := fun _ => false
  threshold : ℕ := 0
  guardian : Address := 0
  governanceEpoch : ℕ := 0
  ops : Bytes32 → Op := fun _ => {}
  confirmedBy : Bytes32 → Address → Bool := fun _ _ => false
  cancelConfirmedBy : Bytes32 → Address → Bool := fun _ _ => false
  guardianCancelledFamily : Bytes32 → Bool := fun _ => false
  guardianApprovedRecoveryEpoch : Bytes32 → ℕ := fun _ => 0
  isPauser : Address → Bool := fun _ => false
  pauseTargetAllowed : Address → Bool := fun _ => false
  executingOverride : Bool := false
  logs : List Log := []

/-- The caller and the transaction of one call. -/
structure Env where
  sender : Address
  tx : Tx

abbrev Env.now (e : Env) : ℕ := e.tx.timestamp

/-- A call the timelock is making to another address. -/
inductive Frame where
  | execution (operation : Operation) (previousOverride entered : Bool)
  | pause (caller target : Address) (selector : Bytes)
deriving DecidableEq

def operationGracePeriod : ℕ := 7 * 86400

namespace Config

variable (c : Config)

def delay : ℕ := c.delaySeconds
def overrideDelay : ℕ := c.delaySeconds * 2

def selector (signature : String) : Bytes := (wordBytes (c.crypto.keccak256 (ascii signature))).take 4

def setPausedNewActionsSelector : Bytes := c.selector "setPausedNewActions(bool)"
def setPausedAllSelector : Bytes := c.selector "setPausedAll(bool)"
def swapSignerSelector : Bytes := c.selector "swapSigner(address,address)"

/-- `keccak256(abi.encode(target, value, data, salt))` -/
def opId (o : Operation) : Bytes32 :=
  c.crypto.keccak256 (abiEncode [o.target.word, uintWord o.value, uintWord 128, o.salt,
    uintWord o.data.length] ++ padRight o.data)

def opFamily (target : Address) (data : Bytes) : Bytes32 :=
  c.crypto.keccak256 (abiEncode [target.word, c.crypto.keccak256 data])

def isSignerRecovery (target : Address) (data : Bytes) : Bool :=
  decide (target = c.address) && decide (4 ≤ data.length) &&
    decide (data.take 4 = c.swapSignerSelector)

end Config

/-- `uint64(value)` -/
def toUint64 (value : ℕ) : ℕ := value % 2 ^ 64

/-- `_overrideThreshold` -/
def overrideThresholdOf (threshold count : ℕ) : ℕ := max (threshold + 1) ((2 * count + 2) / 3)

/-- `_requireValidThreshold` -/
def requireValidThreshold (threshold count : ℕ) : Outcome Unit :=
  revertIf (count < 3 ∨ threshold = 0 ∨ threshold > count ∨ threshold * 2 ≤ count ∨
    overrideThresholdOf threshold count > count) .badThreshold

/-- The threshold raised to a strict majority of `count`. -/
def raised (threshold count : ℕ) : ℕ := max threshold (count / 2 + 1)

namespace MultisigTimelock

variable (c : Config) (e : Env)

def emit (event : Event) (t : MultisigTimelock) : MultisigTimelock :=
  { t with logs := ⟨e.tx, event⟩ :: t.logs }

def overrideThreshold (t : MultisigTimelock) : ℕ := overrideThresholdOf t.threshold t.signers.length

def currentConfirmations (id : Bytes32) (t : MultisigTimelock) : ℕ :=
  t.signers.countP (t.confirmedBy id)

def currentCancelConfirmations (id : Bytes32) (t : MultisigTimelock) : ℕ :=
  t.signers.countP (t.cancelConfirmedBy id)

def stateOf (id : Bytes32) (now : ℕ) (t : MultisigTimelock) : OpState :=
  if (t.ops id).state = .pending ∧ now > (t.ops id).expiresAt then .expired else (t.ops id).state

/-! ### Deployment -/

/-- One round of the loop of the constructor. -/
def pushSigner (signer : Address) (t : MultisigTimelock) : Outcome MultisigTimelock := do
  revertIf (signer = 0 ∨ t.isSigner signer = true) .badSigner
  pure { t with isSigner := update t.isSigner signer true, signers := t.signers ++ [signer] }

def pushSigners : List Address → MultisigTimelock → Outcome MultisigTimelock
  | [], t => pure t
  | signer :: signers, t => do pushSigners signers (← t.pushSigner signer)

/-- The constructor, called with `delaySeconds_ = c.delaySeconds`. -/
def construct (signers : List Address) (threshold : ℕ) (guardian : Address) :
    Outcome MultisigTimelock := do
  revertIf (c.delaySeconds = 0 ∨ c.delaySeconds > (2 ^ 64 - 1) / 2) .badDelay
  revertIf (guardian = 0) .badGuardian
  let t ← pushSigners signers {}
  requireValidThreshold threshold signers.length
  pure { t with threshold := threshold, guardian := guardian }

/-! ### Operations -/

def onlySigner (t : MultisigTimelock) : Outcome Unit :=
  revertIf (t.isSigner e.sender = false) .notSigner

def onlySelfOverride (t : MultisigTimelock) : Outcome Unit :=
  revertIf (e.sender ≠ c.address ∨ t.executingOverride = false) .notSelfOverride

def modifyOp (id : Bytes32) (f : Op → Op) (t : MultisigTimelock) : MultisigTimelock :=
  { t with ops := update t.ops id (f (t.ops id)) }

/-- `_pending` -/
def pendingOp (id : Bytes32) (t : MultisigTimelock) : Outcome Unit := do
  revertIf ((t.ops id).state = .none) .unknownOp
  revertIf ((t.ops id).state ≠ .pending) .notPending
  revertIf (e.now > (t.ops id).expiresAt) (.opExpired (t.ops id).expiresAt)

/-- The record that `_schedule` stores. -/
def newOp (o : Operation) (overrideClass : Bool) : Op :=
  let selectedDelay := if overrideClass then c.overrideDelay else c.delay
  let eta := toUint64 (e.now + selectedDelay)
  { eta := eta
    expiresAt := toUint64 (eta + operationGracePeriod)
    confirmations := 1
    cancelConfirmations := 0
    state := .pending
    overrideClass := overrideClass
    family := c.opFamily o.target o.data }

/-- The three events of `_schedule`. -/
def emitScheduled (id : Bytes32) (o : Operation) (op : Op) (t : MultisigTimelock) :
    MultisigTimelock :=
  let t := t.emit e (.scheduled id o op.eta)
  let t := if op.overrideClass then t.emit e (.overrideScheduled id op.family op.eta op.expiresAt)
    else t
  t.emit e (.confirmed id e.sender 1)

/-- `_schedule` -/
def scheduleAs (o : Operation) (overrideClass : Bool) (t : MultisigTimelock) :
    Outcome MultisigTimelock := do
  require (o.target ≠ 0) .targetZero
  let id := c.opId o
  revertIf ((t.ops id).state ≠ .none) .opExists
  let op := newOp c e o overrideClass
  let t := { t with
    ops := update t.ops id op
    confirmedBy := update t.confirmedBy id (update (t.confirmedBy id) e.sender true) }
  pure (t.emitScheduled e id o op)

def schedule (o : Operation) (t : MultisigTimelock) : Outcome MultisigTimelock := do
  t.onlySigner e
  t.scheduleAs c e o false

def scheduleOverride (o : Operation) (t : MultisigTimelock) : Outcome MultisigTimelock := do
  t.onlySigner e
  t.scheduleAs c e o true

def confirm (id : Bytes32) (t : MultisigTimelock) : Outcome MultisigTimelock := do
  t.onlySigner e
  t.pendingOp e id
  revertIf (t.confirmedBy id e.sender = true) .alreadyConfirmed
  let t := { t with confirmedBy := update t.confirmedBy id (update (t.confirmedBy id) e.sender true) }
  let t := t.modifyOp id (fun op => { op with confirmations := op.confirmations + 1 })
  pure (t.emit e (.confirmed id e.sender (t.ops id).confirmations))

def approveSignerRecovery (target : Address) (data : Bytes) (salt : Bytes32) (t : MultisigTimelock) :
    Outcome MultisigTimelock := do
  revertIf (e.sender ≠ t.guardian) .notGuardian
  let id := c.opId ⟨target, 0, data, salt⟩
  t.pendingOp e id
  revertIf ((t.ops id).overrideClass = false ∨ c.isSignerRecovery target data = false)
    .notSignerRecovery
  let approvalEpoch := t.governanceEpoch + 1
  revertIf (t.guardianApprovedRecoveryEpoch id = approvalEpoch) .alreadyRecoveryApproved
  let t := { t with
    guardianApprovedRecoveryEpoch := update t.guardianApprovedRecoveryEpoch id approvalEpoch }
  pure (t.emit e (.signerRecoveryApproved id e.sender t.governanceEpoch))

def cancel (id : Bytes32) (t : MultisigTimelock) : Outcome MultisigTimelock := do
  revertIf (e.sender ≠ t.guardian) .notGuardian
  t.pendingOp e id
  let family := (t.ops id).family
  revertIf ((t.ops id).overrideClass = true) .guardianCannotCancelOverride
  revertIf (t.guardianCancelledFamily family = true) (.guardianFamilyCancellationUsed family)
  let t := { t with guardianCancelledFamily := update t.guardianCancelledFamily family true }
  let t := t.modifyOp id (fun op => { op with state := .cancelled })
  pure (t.emit e (.cancelled id e.sender))

/-- The end of `confirmCancel`: the operation is cancelled by a majority of the current signers. -/
def cancelIfConfirmed (id : Bytes32) (t : MultisigTimelock) : MultisigTimelock :=
  if t.threshold ≤ t.currentCancelConfirmations id then
    (t.modifyOp id (fun op => { op with state := .cancelled })).emit e (.cancelled id e.sender)
  else t

def confirmCancel (id : Bytes32) (t : MultisigTimelock) : Outcome MultisigTimelock := do
  t.onlySigner e
  t.pendingOp e id
  revertIf (t.cancelConfirmedBy id e.sender = true) .alreadyCancelConfirmed
  let t := { t with
    cancelConfirmedBy := update t.cancelConfirmedBy id (update (t.cancelConfirmedBy id) e.sender true) }
  let t := t.modifyOp id (fun op => { op with cancelConfirmations := op.cancelConfirmations + 1 })
  let t := t.emit e (.cancelConfirmed id e.sender (t.ops id).cancelConfirmations)
  pure (t.cancelIfConfirmed e id)

def expire (id : Bytes32) (t : MultisigTimelock) : Outcome MultisigTimelock := do
  revertIf ((t.ops id).state = .none) .unknownOp
  revertIf ((t.ops id).state ≠ .pending) .notPending
  revertIf (e.now ≤ (t.ops id).expiresAt) (.notReady ((t.ops id).expiresAt + 1))
  let t := t.modifyOp id (fun op => { op with state := .expired })
  pure (t.emit e (.expired id))

/-- `_overrideExecutionThreshold` -/
def overrideExecutionThreshold (id : Bytes32) (o : Operation) (t : MultisigTimelock) : ℕ :=
  if c.isSignerRecovery o.target o.data = true ∧
      t.guardianApprovedRecoveryEpoch id = t.governanceEpoch + 1 then t.threshold
  else t.overrideThreshold

/-- The confirmations that `execute` asks for. -/
def need (id : Bytes32) (o : Operation) (t : MultisigTimelock) : ℕ :=
  if (t.ops id).overrideClass then t.overrideExecutionThreshold c id o else t.threshold

/-- The checks of `execute`. -/
def requireReady (o : Operation) (t : MultisigTimelock) : Outcome Unit := do
  let id := c.opId o
  revertIf ((t.ops id).state ≠ .pending) .unknownOp
  revertIf (e.now > (t.ops id).expiresAt) (.opExpired (t.ops id).expiresAt)
  revertIf (e.now < (t.ops id).eta) (.notReady (t.ops id).eta)
  revertIf (t.currentConfirmations id < t.need c id o)
    (.notEnoughConfirmations (t.currentConfirmations id) (t.need c id o))

/-- `execute` up to its call. -/
def beginExecute (o : Operation) (t : MultisigTimelock) : Outcome (MultisigTimelock × Frame) := do
  t.requireReady c e o
  let id := c.opId o
  let previousOverride := t.executingOverride
  let t := t.modifyOp id (fun op => { op with state := .executed })
  pure ({ t with executingOverride := (t.ops id).overrideClass },
    .execution o previousOverride false)

/-! ### Governance -/

/-- `if (newThreshold != threshold) { threshold = newThreshold; emit ThresholdSet(...); }` -/
def updateThreshold (newThreshold newCount : ℕ) (t : MultisigTimelock) : MultisigTimelock :=
  if newThreshold ≠ t.threshold then
    { t with threshold := newThreshold }.emit e
      (.thresholdSet newThreshold (overrideThresholdOf newThreshold newCount))
  else t

def addSigner (signer : Address) (t : MultisigTimelock) : Outcome MultisigTimelock := do
  t.onlySelfOverride c e
  revertIf (signer = 0 ∨ t.isSigner signer = true) .badSigner
  let newCount := t.signers.length + 1
  let newThreshold := raised t.threshold newCount
  requireValidThreshold newThreshold newCount
  let t := { t with
    isSigner := update t.isSigner signer true
    signers := t.signers ++ [signer]
    governanceEpoch := t.governanceEpoch + 1 }
  let t := t.updateThreshold e newThreshold newCount
  pure (t.emit e (.signerAdded signer))

/-- `_signerIndex` -/
def signerIndex (signer : Address) (t : MultisigTimelock) : Outcome ℕ :=
  match t.signers.findIdx? (· == signer) with
  | some index => pure index
  | none => .error .badSigner

/-- `_removeSignerAt` -/
def removeSignerAt (index : ℕ) (t : MultisigTimelock) : MultisigTimelock :=
  let removed := t.signers.getD index 0
  let last := t.signers.length - 1
  let signers := if index ≠ last then t.signers.set index (t.signers.getD last 0) else t.signers
  { t with signers := signers.dropLast, isSigner := update t.isSigner removed false }

def removeSigner (signer : Address) (t : MultisigTimelock) : Outcome MultisigTimelock := do
  t.onlySelfOverride c e
  revertIf (t.isSigner signer = false) .badSigner
  let newCount := t.signers.length - 1
  let newThreshold := raised (if t.threshold < newCount then t.threshold else newCount - 1) newCount
  requireValidThreshold newThreshold newCount
  let index ← t.signerIndex signer
  let t := t.removeSignerAt index
  let t := { t with governanceEpoch := t.governanceEpoch + 1 }
  let t := t.updateThreshold e newThreshold newCount
  pure (t.emit e (.signerRemoved signer))

def swapSigner (oldSigner newSigner : Address) (t : MultisigTimelock) : Outcome MultisigTimelock := do
  t.onlySelfOverride c e
  revertIf (t.isSigner oldSigner = false ∨ newSigner = 0 ∨ t.isSigner newSigner = true) .badSigner
  let index ← t.signerIndex oldSigner
  let t := { t with
    isSigner := update (update t.isSigner oldSigner false) newSigner true
    signers := t.signers.set index newSigner
    governanceEpoch := t.governanceEpoch + 1 }
  pure (t.emit e (.signerSwapped oldSigner newSigner))

def setThreshold (threshold : ℕ) (t : MultisigTimelock) : Outcome MultisigTimelock := do
  t.onlySelfOverride c e
  requireValidThreshold threshold t.signers.length
  let t := { t with threshold := threshold, governanceEpoch := t.governanceEpoch + 1 }
  pure (t.emit e (.thresholdSet threshold (overrideThresholdOf threshold t.signers.length)))

def setGuardian (guardian : Address) (t : MultisigTimelock) : Outcome MultisigTimelock := do
  t.onlySelfOverride c e
  revertIf (guardian = 0) .badGuardian
  let t := { t with guardian := guardian, governanceEpoch := t.governanceEpoch + 1 }
  pure (t.emit e (.guardianSet guardian))

def setPauser (pauser : Address) (allowed : Bool) (t : MultisigTimelock) : Outcome MultisigTimelock := do
  t.onlySelfOverride c e
  revertIf (pauser = 0) .badSigner
  let t := { t with isPauser := update t.isPauser pauser allowed }
  pure (t.emit e (.pauserSet pauser allowed))

def setPauseTarget (target : Address) (allowed : Bool) (t : MultisigTimelock) :
    Outcome MultisigTimelock := do
  t.onlySelfOverride c e
  revertIf (target = 0) (.pauseTargetNotAllowed target)
  let t := { t with pauseTargetAllowed := update t.pauseTargetAllowed target allowed }
  pure (t.emit e (.pauseTargetSet target allowed))

/-- `emergencyPause` up to its call. -/
def beginPause (target : Address) (selector : Bytes) (t : MultisigTimelock) : Outcome Frame := do
  revertIf (t.isSigner e.sender = false ∧ t.isPauser e.sender = false) .notPauser
  revertIf (t.pauseTargetAllowed target = false) (.pauseTargetNotAllowed target)
  revertIf (selector ≠ c.setPausedNewActionsSelector ∧ selector ≠ c.setPausedAllSelector)
    (.invalidPauseSelector selector)
  pure (.pause e.sender target selector)

end MultisigTimelock

/-! ### Runs -/

/-- A call of a function: the storage after it, and the call to another address it is making. -/
def TimelockCall.run (c : Config) (e : Env) (t : MultisigTimelock) :
    TimelockCall → Outcome (MultisigTimelock × Option Frame)
  | .receive => pure (t, none)
  | .schedule o => (·, none) <$> t.schedule c e o
  | .scheduleOverride o => (·, none) <$> t.scheduleOverride c e o
  | .confirm id => (·, none) <$> t.confirm e id
  | .approveSignerRecovery target data salt => (·, none) <$> t.approveSignerRecovery c e target data salt
  | .cancel id => (·, none) <$> t.cancel e id
  | .confirmCancel id => (·, none) <$> t.confirmCancel e id
  | .expire id => (·, none) <$> t.expire e id
  | .execute o => (fun r => (r.1, some r.2)) <$> t.beginExecute c e o
  | .addSigner signer => (·, none) <$> t.addSigner c e signer
  | .removeSigner signer => (·, none) <$> t.removeSigner c e signer
  | .swapSigner oldSigner newSigner => (·, none) <$> t.swapSigner c e oldSigner newSigner
  | .setThreshold threshold => (·, none) <$> t.setThreshold c e threshold
  | .setGuardian guardian => (·, none) <$> t.setGuardian c e guardian
  | .setPauser pauser allowed => (·, none) <$> t.setPauser c e pauser allowed
  | .setPauseTarget target allowed => (·, none) <$> t.setPauseTarget c e target allowed
  | .emergencyPause target selector => (fun f => (t, some f)) <$> t.beginPause c e target selector

/-- The timelock, the calls it is in the middle of, innermost first, and the current transaction. -/
structure World where
  timelock : MultisigTimelock
  frames : List Frame
  tx : Tx

inductive Action where
  | transact (tx : Tx)
  | call (sender : Address) (f : TimelockCall)
  | selfCall
  | finish

namespace World

/-- The next transaction begins, in the same block or in a later one. -/
def transact (tx : Tx) (w : World) : Option World :=
  if w.frames = [] ∧ w.tx.timestamp ≤ tx.timestamp ∧ w.tx.blockNumber ≤ tx.blockNumber then
    some { w with tx := tx }
  else none

def call (c : Config) (sender : Address) (f : TimelockCall) (w : World) : Option World :=
  match f.run c ⟨sender, w.tx⟩ w.timelock with
  | .ok (t, frame) => some { w with timelock := t, frames := frame.toList ++ w.frames }
  | .error _ => none

/-- The call of an operation whose target is the timelock; only `receive` takes a value. -/
def selfCall (c : Config) (w : World) : Option World :=
  match w.frames with
  | .execution o previousOverride false :: frames =>
      match c.dispatch o.data with
      | some f =>
          if o.target = c.address ∧ (o.value = 0 ∨ f = .receive) then
            { w with frames := .execution o previousOverride true :: frames }.call c c.address f
          else none
      | none => none
  | _ => none

/-- The call of the innermost frame returns. -/
def finish (c : Config) (w : World) : Option World :=
  let e : Env := ⟨0, w.tx⟩
  match w.frames with
  | .execution o previousOverride entered :: frames =>
      if o.target ≠ c.address ∨ entered = true then
        some { w with
          timelock := { w.timelock with executingOverride := previousOverride }.emit e
            (.executed (c.opId o) o.target o.value)
          frames := frames }
      else none
  | .pause caller target selector :: frames =>
      if target ≠ c.address then
        some { w with
          timelock := w.timelock.emit e (.emergencyPaused caller target selector)
          frames := frames }
      else none
  | [] => none

def step (c : Config) (w : World) : Action → Option World
  | .transact tx => w.transact tx
  | .call sender f => if sender ≠ c.address then w.call c sender f else none
  | .selfCall => w.selfCall c
  | .finish => w.finish c

end World

/-- The timelock from its deployment on. -/
def timelock (c : Config) : System World Action where
  init w := ∃ signers threshold guardian,
    MultisigTimelock.construct c signers threshold guardian = .ok w.timelock ∧ w.frames = []
  step := World.step c

end P42Prizes.Timelock
