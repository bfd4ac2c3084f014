import P42Prizes.Reverting
import P42Prizes.Systems

/-! # The nonce journal of a wallet

Two modules allocate the nonces of one signer from one journal file: the coordinator module and the
operator, which has its own copy.  Every operation runs under the lock of the wallet: it reads the
journal, checks it, changes it and replaces it, or throws before it has written.

`Library` is what the code takes from outside: parsing a raw transaction and hashing it. -/

namespace P42Prizes.WalletNonce

open Reverting

/-! ### The journal -/

inductive AllocationState where
  | reserved
  | signed
  | broadcast
  | fenced
deriving DecidableEq, Repr

structure Allocation where
  actionId : String
  nonce : ℕ
  state : AllocationState
  transactionHash : Option String
deriving DecidableEq, Repr

structure Binding where
  chainId : ℕ
  signer : String
deriving DecidableEq, Repr

structure Journal where
  schemaVersion : String := "p42-wallet-nonce-allocator/v1"
  binding : Binding
  nextNonce : ℕ := 0
  observedFinalizedNonce : ℕ := 0
  observedPendingNonce : ℕ := 0
  allocations : List Allocation := []
deriving DecidableEq, Repr

inductive NonceError where
  | identityInvalid | countersInvalid | allocationInvalid | nonceReused | regressed
  | providersRequired | observationInvalid | recordInvalid | recordMismatch | actionIdRequired
  | belongsToAnotherAction | boundToDifferentTransaction | lacksReservation | namesAnotherTransaction
  | identityDisagrees
deriving DecidableEq, Repr

/-- `Number.isSafeInteger`, of a number that is no less than zero. -/
def isSafeInteger (n : ℕ) : Bool := n < 2 ^ 53

def isHexDigit (c : Char) : Bool :=
  c.isDigit || ('a' ≤ c && c ≤ 'f') || ('A' ≤ c && c ≤ 'F')

/-- `ethers.isHexString(value, 32)` -/
def isHexString32 (value : String) : Bool :=
  match value.toList with
  | '0' :: 'x' :: digits => digits.length = 64 && digits.all isHexDigit
  | _ => false

/-- `allocations.find(predicate)`, and then an assignment to what was found. -/
def modifyFirst {α : Type} (predicate : α → Bool) (f : α → α) : List α → List α
  | [] => []
  | a :: l => if predicate a then f a :: l else a :: modifyFirst predicate f l

/-- The allocation of an action with a nonce. -/
def Allocation.isOf (actionId : String) (nonce : ℕ) (a : Allocation) : Bool :=
  a.actionId = actionId && a.nonce = nonce

def Allocation.isReservedOf (actionId : String) (a : Allocation) : Bool :=
  a.actionId = actionId && a.state = .reserved

/-- The reduction by `Math.max(highest, item.nonce + 1)`. -/
def floor (allocations : List Allocation) : ℕ :=
  allocations.foldl (fun highest item => max highest (item.nonce + 1)) 0

namespace Journal

/-- The identity and the counters of a journal. -/
def checkCounters (b : Binding) (j : Journal) : Except NonceError Unit := do
  revertIf (j.schemaVersion ≠ "p42-wallet-nonce-allocator/v1" ∨ j.binding ≠ b) .identityInvalid
  revertIf (isSafeInteger j.nextNonce = false ∨ isSafeInteger j.observedFinalizedNonce = false ∨
    isSafeInteger j.observedPendingNonce = false) .countersInvalid

end Journal

def Allocation.malformed (a : Allocation) : Prop :=
  a.actionId.length < 1 ∨ isSafeInteger a.nonce = false ∨
    ∃ hash, a.transactionHash = some hash ∧ isHexString32 hash = false

instance (a : Allocation) : Decidable a.malformed :=
  match h : a.transactionHash with
  | none => decidable_of_iff (a.actionId.length < 1 ∨ isSafeInteger a.nonce = false)
      (by simp [Allocation.malformed, h])
  | some hash => decidable_of_iff
      (a.actionId.length < 1 ∨ isSafeInteger a.nonce = false ∨ isHexString32 hash = false)
      (by simp [Allocation.malformed, h])

/-! ### Transactions and what the RPC providers say -/

structure Transaction where
  sender : Option String
  chainId : ℕ
  nonce : ℕ
deriving DecidableEq, Repr

structure SignedRecord where
  schemaVersion : String := "p42-signed-transaction/v1"
  rawTx : String
  nonce : ℕ
  hash : String
deriving DecidableEq, Repr

/-- `ethers.isHexString(raw)`, `ethers.Transaction.from(raw)`, which may throw, and `ethers.keccak256(raw)`. -/
structure Library where
  isHexString : String → Bool
  transactionFrom : String → Option Transaction
  keccak256 : String → String

/-- `signedTransaction` -/
def signedTransaction (lib : Library) (b : Binding) (record : SignedRecord) :
    Except NonceError Transaction := do
  revertIf (record.schemaVersion ≠ "p42-signed-transaction/v1" ∨ lib.isHexString record.rawTx = false)
    .recordInvalid
  match lib.transactionFrom record.rawTx with
  | none => .error .recordInvalid
  | some transaction =>
      revertIf (transaction.sender.map String.toLower ≠ some b.signer ∨ transaction.chainId ≠ b.chainId ∨
        transaction.nonce ≠ record.nonce ∨ (lib.keccak256 record.rawTx).toLower ≠ record.hash.toLower)
        .recordMismatch
      pure transaction

/-- What a provider says about the wallet; `id` tells the providers apart. -/
structure Provider where
  id : ℕ
  finalizedNonce : ℕ
  pendingNonce : ℕ
deriving DecidableEq, Repr

structure Observation where
  finalizedNonce : ℕ
  pendingNonce : ℕ
deriving DecidableEq, Repr

/-- The part of the observation that both modules share. -/
def observeProviders (providers : List Provider) : Except NonceError Observation := do
  let finalizedNonce := (providers.map Provider.finalizedNonce).foldl max 0
  let pendingNonce := (providers.map Provider.pendingNonce).foldl max 0
  revertIf (isSafeInteger finalizedNonce = false ∨ isSafeInteger pendingNonce = false ∨
    pendingNonce < finalizedNonce) .observationInvalid
  pure ⟨finalizedNonce, pendingNonce⟩

/-- `finalizedNonce > nonce || pendingNonce > nonce` -/
def Observation.advanced (o : Observation) (nonce : ℕ) : Prop :=
  o.finalizedNonce > nonce ∨ o.pendingNonce > nonce

instance (o : Observation) (nonce : ℕ) : Decidable (o.advanced nonce) :=
  inferInstanceAs (Decidable (_ ∨ _))

/-- The answer of `getTransaction` when the transaction is known. -/
structure KnownTransaction where
  hash : String
  nonce : ℕ
  sender : String
deriving DecidableEq, Repr

def KnownTransaction.sameAs (known : KnownTransaction) (record : SignedRecord)
    (transaction : Transaction) (b : Binding) : Bool :=
  known.hash.toLower = record.hash.toLower && known.nonce = transaction.nonce &&
    known.sender.toLower = b.signer

structure Reservation where
  nonce : ℕ
  recovered : Bool
deriving DecidableEq, Repr

structure Decision where
  broadcast : Bool
  known : Bool
  nonce : ℕ
deriving DecidableEq, Repr

/-- The end of both `reserveWalletNonceLocked`, without a signed record: the last reservation of the
action is still good, or it is fenced and a new nonce is allocated. -/
def reserveFresh (validate : Journal → Except NonceError Journal) (journal : Journal)
    (observation : Observation) (actionId : String) : Except NonceError (Reservation × Journal) :=
  match journal.allocations.reverse.find? (Allocation.isReservedOf actionId) with
  | some prior =>
      if observation.advanced prior.nonce then do
        let nonce := max journal.nextNonce (max observation.finalizedNonce observation.pendingNonce)
        let journal ← validate { journal with
          allocations := (modifyFirst (Allocation.isReservedOf actionId)
            (fun a => { a with state := .fenced }) journal.allocations.reverse).reverse ++
              [⟨actionId, nonce, .reserved, none⟩]
          nextNonce := nonce + 1 }
        pure (⟨nonce, false⟩, journal)
      else do
        let journal ← validate journal
        pure (⟨prior.nonce, true⟩, journal)
  | none => do
      let nonce := max journal.nextNonce (max observation.finalizedNonce observation.pendingNonce)
      let journal ← validate { journal with
        allocations := journal.allocations ++ [⟨actionId, nonce, .reserved, none⟩]
        nextNonce := nonce + 1 }
      pure (⟨nonce, false⟩, journal)

/-! ### The coordinator module -/

namespace Coordinator

def checkAllocations (nonces : List ℕ) : List Allocation → Except NonceError Unit
  | [] => .ok ()
  | a :: allocations => do
      revertIf (a.malformed ∨ a.nonce ∈ nonces) .allocationInvalid
      checkAllocations (a.nonce :: nonces) allocations

def validateJournal (b : Binding) (j : Journal) : Except NonceError Journal := do
  j.checkCounters b
  revertIf (j.observedPendingNonce < j.observedFinalizedNonce) .countersInvalid
  checkAllocations [] j.allocations
  revertIf (j.nextNonce < floor j.allocations) .regressed
  pure j

def readJournal (b : Binding) : Option Journal → Except NonceError Journal
  | none => .ok { binding := b }
  | some j => validateJournal b j

def nonceObservation (providers : List Provider) : Except NonceError Observation := do
  revertIf (providers.length < 2 ∨ ¬ (providers.map Provider.id).Nodup) .providersRequired
  observeProviders providers

def reserveWalletNonceLocked (lib : Library) (b : Binding) (file : Option Journal)
    (providers : List Provider) (actionId : String) (existingSignedRecord : Option SignedRecord) :
    Except NonceError (Reservation × Journal) := do
  let journal ← readJournal b file
  let observation ← nonceObservation providers
  let journal := { journal with
    observedFinalizedNonce := max journal.observedFinalizedNonce observation.finalizedNonce
    observedPendingNonce := max journal.observedPendingNonce observation.pendingNonce }
  match existingSignedRecord with
  | none => reserveFresh (validateJournal b) journal observation actionId
  | some record =>
      let transaction ← signedTransaction lib b record
      revertIf (∃ item ∈ journal.allocations, item.nonce = transaction.nonce ∧ item.actionId ≠ actionId)
        .belongsToAnotherAction
      let journal := { journal with nextNonce := max journal.nextNonce (transaction.nonce + 1) }
      match journal.allocations.find? (Allocation.isOf actionId transaction.nonce) with
      | none =>
          let journal ← validateJournal b { journal with allocations := journal.allocations ++
            [⟨actionId, transaction.nonce, .signed, some record.hash.toLower⟩] }
          pure (⟨transaction.nonce, true⟩, journal)
      | some allocation =>
          revertIf (allocation.transactionHash ≠ none ∧
            allocation.transactionHash ≠ some record.hash.toLower) .boundToDifferentTransaction
          let journal ← validateJournal b journal
          pure (⟨transaction.nonce, true⟩, journal)

/-- With `broadcast`, the optional `state` is `"broadcast"`. -/
def recordWalletNonceSignedLocked (lib : Library) (b : Binding) (file : Option Journal)
    (actionId : String) (record : SignedRecord) (broadcast : Bool) : Except NonceError Journal := do
  let transaction ← signedTransaction lib b record
  let journal ← readJournal b file
  match journal.allocations.find? (Allocation.isOf actionId transaction.nonce) with
  | none => .error .lacksReservation
  | some allocation =>
      revertIf (allocation.state = .fenced) .lacksReservation
      revertIf (allocation.transactionHash ≠ none ∧
        allocation.transactionHash ≠ some record.hash.toLower) .namesAnotherTransaction
      validateJournal b { journal with
        allocations := modifyFirst (Allocation.isOf actionId transaction.nonce)
          (fun a => { a with
            transactionHash := some record.hash.toLower
            state := if broadcast ∨ a.state = .broadcast then .broadcast else .signed })
          journal.allocations }

/-- `walletNonceBroadcastDecisionLocked` after the transaction was recorded as signed. -/
def decideRecorded (lib : Library) (b : Binding) (file : Option Journal) (providers : List Provider)
    (known : Option KnownTransaction) (actionId : String) (record : SignedRecord) :
    Except NonceError (Decision × Option Journal) := do
  let transaction ← signedTransaction lib b record
  match known with
  | some known =>
      revertIf (known.sameAs record transaction b = false) .identityDisagrees
      pure (⟨false, true, transaction.nonce⟩, file)
  | none =>
      let observation ← nonceObservation providers
      if observation.advanced transaction.nonce then
        let journal ← readJournal b file
        -- the allocation is looked up by the action alone
        let journal ← validateJournal b { journal with
          allocations := modifyFirst (fun a => a.actionId = actionId)
            (fun a => { a with state := .fenced }) journal.allocations }
        pure (⟨false, false, transaction.nonce⟩, some journal)
      else pure (⟨true, false, transaction.nonce⟩, file)

end Coordinator

/-! ### The operator -/

namespace Operator

def checkAllocations (nonces : List ℕ) : List Allocation → Except NonceError Unit
  | [] => .ok ()
  | a :: allocations => do
      revertIf a.malformed .allocationInvalid
      revertIf (a.nonce ∈ nonces) .nonceReused
      checkAllocations (a.nonce :: nonces) allocations

def validateWalletNonceAllocator (b : Binding) (j : Journal) : Except NonceError Journal := do
  j.checkCounters b
  checkAllocations [] j.allocations
  revertIf (j.nextNonce < floor j.allocations ∨ j.observedPendingNonce < j.observedFinalizedNonce)
    .regressed
  pure j

def readWalletNonceAllocator (b : Binding) : Option Journal → Except NonceError Journal
  | none => .ok { binding := b }
  | some j => validateWalletNonceAllocator b j

def walletNonceObservation (providers : List Provider) : Except NonceError Observation := do
  revertIf (providers.length < 1) .providersRequired
  observeProviders providers

def persistWalletNonceObservation (j : Journal) (observation : Observation) : Journal :=
  { j with
    observedFinalizedNonce := max j.observedFinalizedNonce observation.finalizedNonce
    observedPendingNonce := max j.observedPendingNonce
      (max (max j.observedFinalizedNonce observation.finalizedNonce) observation.pendingNonce) }

def reserveWalletNonceLocked (lib : Library) (b : Binding) (file : Option Journal)
    (providers : List Provider) (actionId : String) (existingSignedRecord : Option SignedRecord) :
    Except NonceError (Reservation × Journal) := do
  revertIf (actionId.length < 1) .actionIdRequired
  let journal ← readWalletNonceAllocator b file
  let observation ← walletNonceObservation providers
  let journal := persistWalletNonceObservation journal observation
  match existingSignedRecord with
  | none => reserveFresh (validateWalletNonceAllocator b) journal observation actionId
  | some record =>
      let transaction ← signedTransaction lib b record
      revertIf (∃ item ∈ journal.allocations, item.nonce = transaction.nonce ∧ item.actionId ≠ actionId)
        .belongsToAnotherAction
      let journal := { journal with nextNonce := max journal.nextNonce (transaction.nonce + 1) }
      match journal.allocations.find? (Allocation.isOf actionId transaction.nonce) with
      | none =>
          let journal ← validateWalletNonceAllocator b { journal with allocations := journal.allocations ++
            [⟨actionId, transaction.nonce, .signed, some record.hash.toLower⟩] }
          pure (⟨transaction.nonce, true⟩, journal)
      | some allocation =>
          revertIf (allocation.transactionHash ≠ none ∧
            allocation.transactionHash ≠ some record.hash.toLower) .boundToDifferentTransaction
          let journal ← validateWalletNonceAllocator b { journal with
            allocations := modifyFirst (Allocation.isOf actionId transaction.nonce)
              (fun a => { a with
                transactionHash := some record.hash.toLower
                state := if a.state = .reserved then .signed else a.state }) journal.allocations }
          pure (⟨transaction.nonce, true⟩, journal)

def recordWalletNonceSignedLocked (lib : Library) (b : Binding) (file : Option Journal)
    (actionId : String) (record : SignedRecord) : Except NonceError Journal := do
  let transaction ← signedTransaction lib b record
  let journal ← readWalletNonceAllocator b file
  match journal.allocations.find? (Allocation.isOf actionId transaction.nonce) with
  | none => .error .lacksReservation
  | some allocation =>
      revertIf (allocation.state = .fenced) .lacksReservation
      revertIf (allocation.transactionHash ≠ none ∧
        allocation.transactionHash ≠ some record.hash.toLower) .namesAnotherTransaction
      validateWalletNonceAllocator b { journal with
        allocations := modifyFirst (Allocation.isOf actionId transaction.nonce)
          (fun a => { a with
            transactionHash := some record.hash.toLower
            state := if a.state = .broadcast then .broadcast else .signed })
          journal.allocations }

/-- Sets the state of the allocation of an action with a nonce. -/
def setState (b : Binding) (actionId : String) (nonce : ℕ) (state : AllocationState) (journal : Journal) :
    Except NonceError Journal :=
  validateWalletNonceAllocator b { journal with
    allocations := modifyFirst (Allocation.isOf actionId nonce) (fun a => { a with state := state })
      journal.allocations }

/-- `recordWalletNonceBroadcastLocked` after the transaction was recorded as signed. -/
def recordBroadcast (lib : Library) (b : Binding) (file : Option Journal) (actionId : String)
    (record : SignedRecord) : Except NonceError Journal := do
  let transaction ← signedTransaction lib b record
  let journal ← readWalletNonceAllocator b file
  setState b actionId transaction.nonce .broadcast journal

/-- `walletNonceBroadcastDecisionLocked` after the transaction was recorded as signed. -/
def decideRecorded (lib : Library) (b : Binding) (file : Option Journal) (providers : List Provider)
    (known : Option KnownTransaction) (actionId : String) (record : SignedRecord) :
    Except NonceError (Decision × Option Journal) := do
  let transaction ← signedTransaction lib b record
  let journal ← readWalletNonceAllocator b file
  match known with
  | some known =>
      revertIf (known.sameAs record transaction b = false) .identityDisagrees
      let journal ← setState b actionId transaction.nonce .broadcast journal
      pure (⟨false, true, transaction.nonce⟩, some journal)
  | none =>
      let observation ← walletNonceObservation providers
      let journal := persistWalletNonceObservation journal observation
      if observation.advanced transaction.nonce then
        let journal ← setState b actionId transaction.nonce .fenced journal
        pure (⟨false, false, transaction.nonce⟩, some journal)
      else
        let journal ← validateWalletNonceAllocator b journal
        pure (⟨true, false, transaction.nonce⟩, some journal)

end Operator

/-! ### The operations -/

inductive Module where
  | coordinator
  | operator
deriving DecidableEq, Repr

inductive NonceOp where
  | reserve (m : Module) (providers : List Provider) (actionId : String)
      (existingSignedRecord : Option SignedRecord)
  | recordSigned (m : Module) (actionId : String) (record : SignedRecord)
  | recordBroadcast (m : Module) (actionId : String) (record : SignedRecord)
  | decide (m : Module) (providers : List Provider) (known : Option KnownTransaction)
      (actionId : String) (record : SignedRecord)

/-- What an operation returns; recording returns nothing that is used. -/
inductive Outcome where
  | reserved (reservation : Reservation)
  | recorded
  | decided (decision : Decision)
deriving DecidableEq, Repr

section Run

variable (lib : Library) (b : Binding)

def validate : Module → Journal → Except NonceError Journal
  | .coordinator => Coordinator.validateJournal b
  | .operator => Operator.validateWalletNonceAllocator b

def recordSigned (file : Option Journal) (actionId : String) (record : SignedRecord) :
    Module → Except NonceError Journal
  | .coordinator => Coordinator.recordWalletNonceSignedLocked lib b file actionId record false
  | .operator => Operator.recordWalletNonceSignedLocked lib b file actionId record

def decideRecorded (file : Option Journal) (providers : List Provider)
    (known : Option KnownTransaction) (actionId : String) (record : SignedRecord) :
    Module → Except NonceError (Decision × Option Journal)
  | .coordinator => Coordinator.decideRecorded lib b file providers known actionId record
  | .operator => Operator.decideRecorded lib b file providers known actionId record

def recordBroadcast (file : Option Journal) (actionId : String) (record : SignedRecord) :
    Module → Except NonceError Outcome × Option Journal
  | .coordinator =>
      match Coordinator.recordWalletNonceSignedLocked lib b file actionId record true with
      | .error error => (.error error, file)
      | .ok journal => (.ok .recorded, some journal)
  | .operator =>
      match Operator.recordWalletNonceSignedLocked lib b file actionId record with
      | .error error => (.error error, file)
      | .ok journal =>
          match Operator.recordBroadcast lib b (some journal) actionId record with
          | .error error => (.error error, some journal)
          | .ok journal' => (.ok .recorded, some journal')

def reserve (file : Option Journal) (providers : List Provider) (actionId : String)
    (existingSignedRecord : Option SignedRecord) : Module → Except NonceError (Reservation × Journal)
  | .coordinator =>
      Coordinator.reserveWalletNonceLocked lib b file providers actionId existingSignedRecord
  | .operator => Operator.reserveWalletNonceLocked lib b file providers actionId existingSignedRecord

/-- The result of an operation and the file after it; a decision that throws has already recorded the
transaction as signed. -/
def NonceOp.run (file : Option Journal) : NonceOp → Except NonceError Outcome × Option Journal
  | reserve m providers actionId existing =>
      match WalletNonce.reserve lib b file providers actionId existing m with
      | .error error => (.error error, file)
      | .ok (reservation, journal) => (.ok (.reserved reservation), some journal)
  | recordSigned m actionId record =>
      match WalletNonce.recordSigned lib b file actionId record m with
      | .error error => (.error error, file)
      | .ok journal => (.ok .recorded, some journal)
  | recordBroadcast m actionId record => WalletNonce.recordBroadcast lib b file actionId record m
  | decide m providers known actionId record =>
      match WalletNonce.recordSigned lib b file actionId record m with
      | .error error => (.error error, file)
      | .ok journal =>
          match decideRecorded lib b (some journal) providers known actionId record m with
          | .error error => (.error error, some journal)
          | .ok (decision, file') => (.ok (.decided decision), file')

end Run

end P42Prizes.WalletNonce
