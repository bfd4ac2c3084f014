import P42Prizes.InsertionMaps
import P42Prizes.Reverting

/-! # The chunked scan of event logs

The indexer reads the logs of a range of blocks in chunks that overlap, because a node limits the range of
one query and may follow another chain from one query to the next.  A `Reader` is the node: what it answers
may depend on how many calls it has had.  The logs are collected under their identity, and the overlap of a
chunk with what was read before is compared in both directions.

Block numbers and the fields of a policy are safe integers; `start + logChunkSize - 1` may be larger, but
then it is rounded to a number that is not below `toBlock`, and the smaller of the two is used. -/

namespace P42Prizes.LogScan

open Reverting

/-! ### Policies -/

/-- What a caller passes as `finalityPolicy`: the mode, and the fields that are integers. -/
structure RawPolicy where
  mode : Option String
  confirmations : Option ℤ
  logChunkSize : Option ℤ
  reorgOverlapBlocks : Option ℤ
  maxRetries : Option ℤ
  retryBaseDelayMs : Option ℤ
  maxScanRestarts : Option ℤ
deriving DecidableEq, Repr

/-- A transaction hash and a log index; the text `txHash:index` names both. -/
structure Identity where
  txHash : String
  index : ℕ
deriving DecidableEq, Repr

/-- The messages of a `ReorgDetectedError`. -/
inductive Reorg where
  | omittedIdentity
  | disappeared (identity : Identity) (start overlapEnd : ℕ)
  | changed (identity : Identity) (previousHash observedHash : String)
  | appeared (identity : Identity) (start overlapEnd : ℕ)
deriving DecidableEq, Repr

inductive ScanError where
  | badMode
  | notInteger (label : String) (minimum : ℕ)
  | overlapTooLarge
  | getLogsFailed (maxRetries start stop : ℕ) (message : String)
  | reorg (reason : Reorg)
deriving DecidableEq, Repr

def maxSafeInteger : ℕ := 2 ^ 53 - 1

/-- `requireInteger` -/
def requireInteger (value : Option ℤ) (label : String) (minimum : ℕ) : Except ScanError ℕ :=
  match value with
  | some n => if (minimum : ℤ) ≤ n ∧ n ≤ maxSafeInteger then .ok n.toNat else .error (.notInteger label minimum)
  | none => .error (.notInteger label minimum)

/-- A policy that `validateFinalityPolicy` accepts. -/
structure FinalityPolicy where
  confirmations : ℕ
  logChunkSize : ℕ
  reorgOverlapBlocks : ℕ
  maxRetries : ℕ
  retryBaseDelayMs : ℕ
  maxScanRestarts : ℕ
  overlap_pos : 1 ≤ reorgOverlapBlocks
  overlap_lt : reorgOverlapBlocks < logChunkSize
  retries_pos : 1 ≤ maxRetries

def RawPolicy.field (name : String) : String := "indexer.finalityPolicy." ++ name

def validateFinalityPolicy (raw : RawPolicy) : Except ScanError FinalityPolicy := do
  revertIf (raw.mode ≠ some "confirmations") .badMode
  let confirmations ← requireInteger raw.confirmations (RawPolicy.field "confirmations") 1
  let logChunkSize ← requireInteger raw.logChunkSize (RawPolicy.field "logChunkSize") 2
  let reorgOverlapBlocks ← requireInteger raw.reorgOverlapBlocks (RawPolicy.field "reorgOverlapBlocks") 1
  let maxRetries ← requireInteger raw.maxRetries (RawPolicy.field "maxRetries") 1
  let retryBaseDelayMs ← requireInteger raw.retryBaseDelayMs (RawPolicy.field "retryBaseDelayMs") 0
  let maxScanRestarts ← requireInteger raw.maxScanRestarts (RawPolicy.field "maxScanRestarts") 1
  -- of these three, only the second is not known yet
  if h : 1 ≤ reorgOverlapBlocks ∧ reorgOverlapBlocks < logChunkSize ∧ 1 ≤ maxRetries then
    pure ⟨confirmations, logChunkSize, reorgOverlapBlocks, maxRetries, retryBaseDelayMs, maxScanRestarts,
      h.1, h.2.1, h.2.2⟩
  else throw .overlapTooLarge

/-! ### Logs -/

/-- A log as the node returns it; the node may leave out what has `none`. -/
structure Log where
  blockNumber : ℕ
  blockHash : String
  transactionHash : Option String
  transactionIndex : Option ℕ
  index : Option ℕ
  logIndex : Option ℕ
deriving DecidableEq, Repr

/-- `log.index ?? log.logIndex` -/
def Log.position (log : Log) : Option ℕ := log.index.or log.logIndex

def logIdentity (log : Log) : Except ScanError Identity :=
  match log.transactionHash, log.position with
  | some txHash, some index => .ok ⟨txHash.toLower, index⟩
  | _, _ => .error (.reorg .omittedIdentity)

def compareLogCanonicality (left right : Log) : Bool :=
  left.blockNumber = right.blockNumber && left.blockHash.toLower = right.blockHash.toLower &&
    (left.transactionHash.getD "undefined").toLower = (right.transactionHash.getD "undefined").toLower

/-- `compareEventOrder(left, right) <= 0` -/
def EventLe (left right : Log) : Prop :=
  left.blockNumber < right.blockNumber ∨ left.blockNumber = right.blockNumber ∧
    (left.transactionIndex.getD 0 < right.transactionIndex.getD 0 ∨
      left.transactionIndex.getD 0 = right.transactionIndex.getD 0 ∧ left.position.getD 0 ≤ right.position.getD 0)

instance (left right : Log) : Decidable (EventLe left right) := inferInstanceAs (Decidable (_ ∨ _))

/-- The block of the log is one of `start..stop`. -/
def Log.within (start stop : ℕ) (log : Log) : Bool := start ≤ log.blockNumber && log.blockNumber ≤ stop

/-! ### Reading -/

/-- What `queryFilter` answers to its call with this number, for a range of blocks: logs, nothing, or an
error with its message. -/
abbrev Reader := ℕ → ℕ → ℕ → Except String (Option (List Log))

abbrev ByIdentity := InsertionMap Identity Log

section

variable (policy : FinalityPolicy) (read : Reader) (toBlock : ℕ)

/-- The attempts to read a chunk, when `left` may follow the next one: the logs and the number of calls so
far. -/
def readLogs (start stop : ℕ) : (left calls : ℕ) → Except ScanError (List Log × ℕ)
  | left, calls =>
      match read calls start stop with
      | .ok logs => .ok (logs.getD [], calls + 1)
      | .error message =>
          match left with
          | 0 => .error (.getLogsFailed policy.maxRetries start stop message)
          | left + 1 => readLogs start stop left (calls + 1)

/-- `for (const [identity, previous] of expectedOverlap)` -/
def checkExpected (start overlapEnd : ℕ) (observedOverlap : ByIdentity) :
    List (Identity × Log) → Except ScanError Unit
  | [] => pure ()
  | (identity, previous) :: rest => do
      match observedOverlap.get identity with
      | none => throw (.reorg (.disappeared identity start overlapEnd))
      | some observed =>
          revertIf (compareLogCanonicality previous observed = false)
            (.reorg (.changed identity previous.blockHash observed.blockHash))
          checkExpected start overlapEnd observedOverlap rest

/-- `for (const identity of observedOverlap.keys())` -/
def checkObserved (start overlapEnd : ℕ) (expectedOverlap : ByIdentity) : List Identity → Except ScanError Unit
  | [] => pure ()
  | identity :: rest => do
      revertIf (expectedOverlap.get identity = none) (.reorg (.appeared identity start overlapEnd))
      checkObserved start overlapEnd expectedOverlap rest

/-- The logs with their identities. -/
def identified (logs : List Log) : Except ScanError (List (Identity × Log)) :=
  logs.mapM fun log => do pure (← logIdentity log, log)

/-- The comparison of a chunk with what was read before. -/
def checkOverlap (start overlapEnd : ℕ) (byIdentity : ByIdentity) (currentLogs : List Log) :
    Except ScanError Unit := do
  let expectedOverlap := byIdentity.filter fun entry => entry.2.within start overlapEnd
  let observedOverlap := InsertionMap.ofList (← identified (currentLogs.filter (Log.within start overlapEnd)))
  checkExpected start overlapEnd observedOverlap expectedOverlap.entries
  checkObserved start overlapEnd expectedOverlap observedOverlap.keys

/-- `if (previousEnd !== null) { ... }` -/
def checkPreviousEnd (start stop : ℕ) (byIdentity : ByIdentity) (currentLogs : List Log) :
    Option ℕ → Except ScanError Unit
  | some previousEnd => checkOverlap start (min previousEnd stop) byIdentity currentLogs
  | none => pure ()

/-- `if (previous && !compareLogCanonicality(previous, log)) throw ...` -/
def checkPrevious (identity : Identity) (log : Log) : Option Log → Except ScanError Unit
  | some previous =>
      revertIf (compareLogCanonicality previous log = false)
        (.reorg (.changed identity previous.blockHash log.blockHash))
  | none => pure ()

/-- `for (const log of currentLogs)` -/
def recordLogs : List Log → ByIdentity → Except ScanError ByIdentity
  | [], byIdentity => pure byIdentity
  | log :: logs, byIdentity => do
      let identity ← logIdentity log
      checkPrevious identity log (byIdentity.get identity)
      recordLogs logs (byIdentity.set identity log)

/-- The last block of the chunk that starts at `start`. -/
def chunkEnd (start : ℕ) : ℕ := min (start + policy.logChunkSize - 1) toBlock

/-- One round of the loop. -/
def scanChunk (start : ℕ) (previousEnd : Option ℕ) (byIdentity : ByIdentity) (calls : ℕ) :
    Except ScanError (ByIdentity × ℕ) := do
  let stop := chunkEnd policy toBlock start
  let (currentLogs, calls) ← readLogs policy read start stop (policy.maxRetries - 1) calls
  checkPreviousEnd start stop byIdentity currentLogs previousEnd
  let byIdentity ← recordLogs currentLogs byIdentity
  pure (byIdentity, calls)

/-- `while (start <= toBlock)`: chunks are longer than their overlap, so each starts later than the last. -/
def scan (start : ℕ) (previousEnd : Option ℕ) (byIdentity : ByIdentity) (calls : ℕ) :
    Except ScanError ByIdentity :=
  if start ≤ toBlock then do
    let (byIdentity, calls) ← scanChunk policy read toBlock start previousEnd byIdentity calls
    if h : chunkEnd policy toBlock start = toBlock then
      pure byIdentity
    else
      scan (chunkEnd policy toBlock start - policy.reorgOverlapBlocks + 1)
        (some (chunkEnd policy toBlock start)) byIdentity calls
  else pure byIdentity
termination_by toBlock - start
decreasing_by
  have hoverlap := policy.overlap_lt
  unfold chunkEnd at h ⊢
  omega

end

def queryHistoricalLogs (read : Reader) (fromBlock toBlock : ℕ) (raw : RawPolicy) : Except ScanError (List Log) := do
  let policy ← validateFinalityPolicy raw
  let _ ← requireInteger (some fromBlock) "fromBlock" 0
  let _ ← requireInteger (some toBlock) "toBlock" 0
  if toBlock < fromBlock then pure []
  else
    let byIdentity ← scan policy read toBlock fromBlock none .empty 0
    pure (byIdentity.values.insertionSort EventLe)

end P42Prizes.LogScan
