import P42Prizes.Evm
import P42Prizes.NestedCalls
import P42Prizes.Systems

/-! # The rollover vault

`P42RolloverVault` holds the ETH of future prizes.  Its allocator sets a quota for each registered pool and
sends parts of it to the pool; anyone may ask a pool to return a sponsor refund to the vault.  The pool runs
in the middle of both calls and may call the vault again.  A call that reverts on its own account leaves no
trace and is not part of a run; a funding or a refund whose call to the pool fails does run other code
first, and `fail` takes all of it back. -/

namespace P42Prizes.Rollover

open Reverting Function Transition

/-! ### Values -/

/-- The custom errors, with their arguments, and a failed call to a view function. -/
inductive VaultError where
  | registryZero
  | allocatorZero
  | notAllocator
  | invalidRegisteredPool
  | codehashMismatch (expected actual : Bytes32)
  | invalidRolloverAmount
  | allocationExceedsBalance (allocated balance : ℕ)
  | viewFailed
  | panic
deriving DecidableEq, Repr

abbrev Outcome (α : Type) := Except VaultError α

inductive Event where
  | rolloverReceived (from_ : Address) (amount : ℕ)
  | poolAllocationSet (pool : Address) (codehash : Bytes32) (previousAmount amount : ℕ)
  | futurePoolFunded (allocator pool : Address) (amount remainingAllocation : ℕ)
  | zeroCreditRefundReclaimed (caller pool : Address)
deriving DecidableEq, Repr

/-- What another account shows: the size and the hash of its code, and the view functions of the registry,
the pools, the ledgers and the managers; `none` for a call that fails. -/
structure Account where
  codeLength : ℕ := 0
  codehash : Bytes32 := 0
  owner : Option Address := none
  registry : Option Address := none
  problemId : Option ℕ := none
  ledger : Option Address := none
  submissionManager : Option Address := none
  pool : Option Address := none
  creditRecorder : Option Address := none
  problemPool : ℕ → Option Address := fun _ => none

/-- The functions of the contract that are not views. -/
inductive VaultCall where
  | receive
  | setPoolAllocation (pool : Address) (expectedCodehash : Bytes32) (amount : ℕ)
  | fundRegisteredPool (pool : Address) (amount : ℕ)
  | reclaimZeroCreditSponsorRefund (pool : Address)
deriving DecidableEq, Repr

/-- The storage of `P42RolloverVault`, and its events, newest first. -/
structure P42RolloverVault where
  registry : Address
  allocator : Address
  totalAllocated : ℕ := 0
  allocationOf : Address → ℕ := fun _ => 0
  allocationCodehashOf : Address → Bytes32 := fun _ => 0
  logs : List Event := []

/-- The address of the vault and its balance, the caller, and the other accounts during one call. -/
structure Env where
  self : Address
  balance : ℕ
  sender : Address
  value : ℕ
  accounts : Address → Account

/-- A call the vault is making to a pool. -/
inductive Frame where
  | funding (sender pool : Address) (amount : ℕ)
  | reclaim (sender pool : Address)
deriving DecidableEq, Repr

/-- The call of a view function. -/
def view {α : Type} (answer : Option α) : Outcome α :=
  match answer with
  | some a => pure a
  | none => .error .viewFailed

namespace P42RolloverVault

variable (e : Env)

def emit (event : Event) (v : P42RolloverVault) : P42RolloverVault := { v with logs := event :: v.logs }

def onlyAllocator (v : P42RolloverVault) : Outcome Unit := revertIf (e.sender ≠ v.allocator) .notAllocator

def construct (registry allocator : Address) : Outcome P42RolloverVault := do
  revertIf (registry = 0) .registryZero
  revertIf (allocator = 0) .allocatorZero
  pure { registry := registry, allocator := allocator }

def receive (v : P42RolloverVault) : P42RolloverVault := v.emit (.rolloverReceived e.sender e.value)

/-- An account as the vault sees it.  Of the views it calls, the vault itself has only `registry()`. -/
def account (v : P42RolloverVault) (a : Address) : Account :=
  if a = e.self then
    { codeLength := (e.accounts a).codeLength
      codehash := (e.accounts a).codehash
      registry := some v.registry }
  else e.accounts a

/-- `_registeredPool` -/
def registeredPool (pool : Address) (expectedCodehash : Bytes32) (v : P42RolloverVault) : Outcome Unit := do
  let target := v.account e pool
  let actualCodehash := target.codehash
  revertIf (target.codeLength = 0 ∨ actualCodehash ≠ expectedCodehash)
    (.codehashMismatch expectedCodehash actualCodehash)
  let targetProblemId ← view target.problemId
  let targetLedger ← view target.ledger
  let targetManager ← view target.submissionManager
  revertIf (targetProblemId = 0) .invalidRegisteredPool
  revertIf ((← view target.owner) ≠ v.allocator) .invalidRegisteredPool
  revertIf ((← view target.registry) ≠ v.registry) .invalidRegisteredPool
  revertIf ((← view ((v.account e v.registry).problemPool targetProblemId)) ≠ pool) .invalidRegisteredPool
  let ledger := v.account e targetLedger
  let manager := v.account e targetManager
  revertIf (ledger.codeLength = 0 ∨ manager.codeLength = 0) .invalidRegisteredPool
  revertIf ((← view ledger.owner) ≠ v.allocator) .invalidRegisteredPool
  revertIf ((← view ledger.pool) ≠ pool) .invalidRegisteredPool
  revertIf ((← view ledger.creditRecorder) ≠ targetManager) .invalidRegisteredPool
  revertIf ((← view manager.owner) ≠ v.allocator) .invalidRegisteredPool
  revertIf ((← view manager.pool) ≠ pool) .invalidRegisteredPool
  revertIf ((← view manager.ledger) ≠ targetLedger) .invalidRegisteredPool

def setPoolAllocation (pool : Address) (expectedCodehash : Bytes32) (amount : ℕ) (v : P42RolloverVault) :
    Outcome P42RolloverVault := do
  v.onlyAllocator e
  let previous := v.allocationOf pool
  (if amount ≠ 0 then v.registeredPool e pool expectedCodehash else pure ())
  let allocationCodehash := if amount ≠ 0 then expectedCodehash else v.allocationCodehashOf pool
  let allocated ← checkedAdd 256 .panic (← checkedSub .panic v.totalAllocated previous) amount
  revertIf (allocated > e.balance) (.allocationExceedsBalance allocated e.balance)
  let v := { v with
    allocationOf := update v.allocationOf pool amount
    allocationCodehashOf := update v.allocationCodehashOf pool (if amount = 0 then 0 else expectedCodehash)
    totalAllocated := allocated }
  pure (v.emit (.poolAllocationSet pool allocationCodehash previous amount))

/-- `fundRegisteredPool` up to its call. -/
def beginFund (pool : Address) (amount : ℕ) (v : P42RolloverVault) : Outcome P42RolloverVault := do
  v.onlyAllocator e
  revertIf (amount = 0 ∨ amount > v.allocationOf pool ∨ amount > e.balance) .invalidRolloverAmount
  v.registeredPool e pool (v.allocationCodehashOf pool)
  let remaining ← checkedSub .panic (v.allocationOf pool) amount
  let totalAllocated ← checkedSub .panic v.totalAllocated amount
  let v := { v with
    allocationOf := update v.allocationOf pool remaining
    totalAllocated := totalAllocated }
  if remaining = 0 then pure { v with allocationCodehashOf := update v.allocationCodehashOf pool 0 }
  else pure v

/-- `reclaimZeroCreditSponsorRefund` up to its call. -/
def beginReclaim (pool : Address) (v : P42RolloverVault) : Outcome Unit :=
  v.registeredPool e pool (e.accounts pool).codehash

/-- The event of the function whose call to a pool has returned. -/
def emitReturn : Frame → P42RolloverVault → P42RolloverVault
  | .funding sender pool amount, v => v.emit (.futurePoolFunded sender pool amount (v.allocationOf pool))
  | .reclaim sender pool, v => v.emit (.zeroCreditRefundReclaimed sender pool)

end P42RolloverVault

/-! ### Runs -/

/-- The vault and its ETH. -/
structure Holding where
  vault : P42RolloverVault
  balance : ℕ

/-- The vault, its ETH and the calls it is in the middle of. -/
abbrev World := Nested Holding Frame

inductive Action where
  | force (amount : ℕ)
  | call (sender : Address) (value : ℕ) (accounts : Address → Account) (f : VaultCall)
  | finish
  | fail

namespace World

/-- The vault at the address `self` is called by an account. -/
def call (self sender : Address) (value : ℕ) (accounts : Address → Account) (w : World) :
    VaultCall → Outcome World :=
  let e : Env := ⟨self, w.now.balance, sender, value, accounts⟩
  fun
  | .receive => pure (w.set ⟨w.now.vault.receive e, w.now.balance + value⟩)
  | .setPoolAllocation pool expectedCodehash amount => do
      let v ← w.now.vault.setPoolAllocation e pool expectedCodehash amount
      pure (w.set ⟨v, w.now.balance⟩)
  | .fundRegisteredPool pool amount => do
      let v ← w.now.vault.beginFund e pool amount
      pure (w.enter (.funding sender pool amount) ⟨v, w.now.balance - amount⟩)
  | .reclaimZeroCreditSponsorRefund pool => do
      w.now.vault.beginReclaim e pool
      pure (w.enter (.reclaim sender pool) w.now)

/-- The call to the pool returns. -/
def finish (w : World) : Option World :=
  w.leave fun frame s => { s with vault := s.vault.emitReturn frame }

/-- ETH arrives by a call of `receive` or without a call; the other functions accept none. -/
def step (self : Address) (w : World) : Action → Option World
  | .force amount => some (w.set { w.now with balance := w.now.balance + amount })
  | .call sender value accounts f =>
      if value = 0 ∨ f = .receive then (call self sender value accounts w f).toOption else none
  | .finish => w.finish
  | .fail => w.undo

end World

/-- The vault at the address `self` from its deployment on. -/
def rolloverVault (self : Address) : System World Action where
  init w := ∃ registry allocator,
    P42RolloverVault.construct registry allocator = .ok w.now.vault ∧ w.frames = []
  step := World.step self

end P42Prizes.Rollover
