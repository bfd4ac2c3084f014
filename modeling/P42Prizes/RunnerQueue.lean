import Mathlib.Data.Prod.Lex
import P42Prizes.Reverting
import P42Prizes.WalletNonce

/-! # The queue of the runner

Every reveal is a job of the queue.  The runner claims jobs and writes into them what its verifier has
found; the operator records what has become of the challenge, or that there will be none.  The queue is
a file that is read and written as a whole under a lock, so each function here is one transaction: it
returns the queue that is written, or an error and nothing is.

Times are seconds.  The time at which something is recorded is kept only where it is read again, and so
is what the queue keeps for the delivery of its alerts; a queue whose alerts do not pass their
validation is refused as a whole. -/

namespace P42Prizes.Challenger

open Reverting
open WalletNonce (modifyFirst)

/-! ### Jobs -/

inductive RunnerStatus where
  | queued | running | succeeded | failed | cancelled
deriving DecidableEq, Repr

inductive ActionStatus where
  | confirmed | broadcastReverted | superseded | windowExpired | noAction | quarantined
  | registryBindingRejected | invalidSpendCap | bondOverCap | onchainObserved | resolvedElsewhere
  | orphanedReorg | canonicalInvalidated
  | signed | broadcast | submitted | reorged
deriving DecidableEq, Repr

namespace ActionStatus

/-- `TERMINAL_ACTION_STATUSES` -/
def terminal : ActionStatus → Bool
  | signed | broadcast | submitted | reorged => false
  | _ => true

/-- `ACTION_ALERT_REQUIRED_STATUSES` -/
def alertRequired : ActionStatus → Bool
  | superseded | windowExpired | quarantined | registryBindingRejected | invalidSpendCap
  | bondOverCap | canonicalInvalidated => true
  | _ => false

end ActionStatus

structure Action where
  candidateHash : String
  status : ActionStatus
  transactionHash : Option String := none
  detail : Option String := none
deriving DecidableEq, Repr

inductive CandidateAction where
  | retry | none | quarantine | challenge | other
deriving DecidableEq, Repr

structure Candidate where
  candidateHash : String
  action : CandidateAction := .challenge
  reasonCode : String
  chainId : ℕ
  problemId : String
  submissionContract : String
  challengeContract : String
  sourceEventHash : String
  submissionId : ℕ
  revealInstanceHash : String
  challengeEndsAt : ℕ
  maxBondWei : ℤ
deriving DecidableEq, Repr

/-- `LOCAL_TERMINAL_DISPOSITION_REASONS` -/
inductive DispositionReason where
  | jobExceedsHostCapacity | retryWindowExpired | jobRunError | transcriptMissing | transcriptInvalid
deriving DecidableEq, Repr

structure Disposition where
  reason : DispositionReason
  detail : Option String
deriving DecidableEq, Repr

/-- What the runner reads of the claim of a job on the chain. -/
structure ChainClaim where
  challengeEndsAt : Option ℕ
deriving DecidableEq, Repr

/-- A job; `transcript` is what its transcript says, once it has one.  A job that is not of the chain
has no source event, which is the empty string, and no claim. -/
structure Job where
  id : String
  sourceEventHash : String
  requiredMemoryMb : ℕ := 1
  createdAt : String := ""
  chainBlockNumber : Option ℤ := none
  chainLogIndex : Option ℤ := none
  chainClaim : Option ChainClaim := none
  status : RunnerStatus := .queued
  startedAt : Option ℤ := none
  finishedAt : Option ℤ := none
  leaseExpiresAt : Option ℤ := none
  leaseToken : Option String := none
  attempts : Option ℤ := none
  storageRetryCount : Option ℤ := none
  retryCount : Option ℤ := none
  retryNotBefore : Option ℤ := none
  lastRetryReason : Option String := none
  failureReason : Option String := none
  orphaned : Bool := false
  transcript : Option (Option Candidate) := none
  challengeCandidateHash : Option String := none
  action : Option Action := none
  actionAlert : Option String := none
  terminalDisposition : Option Disposition := none
deriving DecidableEq, Repr

inductive QueueError where
  | identityInvalid | alertRequired | alertInvalid | jobNotFound | alreadyDisposed
  | candidateFenced | candidateChanged | alreadyTerminal | receiptPending | cannotRecover
  | jobRunning | hasAction | retryUnverified | queueInvalid | eventCollision | admissionLimit
deriving DecidableEq, Repr

/-- `_is_sha256` -/
def isSha256 (value : String) : Bool :=
  match value.toList with
  | 's' :: 'h' :: 'a' :: '2' :: '5' :: '6' :: ':' :: digits =>
      digits.length = 64 && digits.all (fun c => c.isDigit || ('a' ≤ c && c ≤ 'f'))
  | _ => false

def maxDetailBytes : ℕ := 2048

/-- The arguments of `record_runner_action`. -/
structure ActionUpdate where
  jobId : String
  candidateHash : String
  status : ActionStatus
  transactionHash : Option String := none
  detail : Option String := none
  alertMessage : Option String := none

namespace ActionUpdate

variable (u : ActionUpdate)

def check : Except QueueError Unit := do
  revertIf (u.jobId = "" ∨ isSha256 u.candidateHash = false) .identityInvalid
  revertIf (u.status.alertRequired = true ∧ u.alertMessage = none) .alertRequired
  match u.alertMessage with
  | none => pure ()
  | some message =>
      revertIf (u.status.terminal = false ∨ message = "" ∨ maxDetailBytes < message.utf8ByteSize)
        .alertInvalid

/-- Whether the status may follow that of the action before it. -/
def checkStep (current : ActionStatus) : Except QueueError Unit := do
  revertIf (current.terminal = true) .alreadyTerminal
  revertIf (current = .submitted ∧ u.status ∉ [.submitted, .reorged] ∧ u.status.terminal = false)
    .receiptPending
  revertIf (current = .reorged ∧ u.status ∉ [.reorged, .signed, .broadcast, .submitted] ∧
    u.status.terminal = false) .cannotRecover

/-- The action after the update of `current`. -/
def action (current : Option Action) : Action where
  candidateHash := u.candidateHash
  status := u.status
  transactionHash := u.transactionHash.or (current.bind Action.transactionHash)
  detail :=
    match current.bind Action.detail, u.detail with
    | some old, some new => if new ≠ old then some (old ++ "\n" ++ new) else some new
    | some old, none => some old
    | none, detail => detail

/-- The update repeats the action. -/
def Repeats (current : Option Action) : Prop :=
  ∃ action, current = some action ∧ action.status = u.status ∧
    action.transactionHash = u.transactionHash

instance (current : Option Action) : Decidable (u.Repeats current) :=
  match current with
  | none => isFalse (by rintro ⟨_, h, -⟩; cases h)
  | some action => decidable_of_iff
      (action.status = u.status ∧ action.transactionHash = u.transactionHash)
      ⟨fun h => ⟨action, rfl, h⟩, by rintro ⟨_, h, h'⟩; cases h; exact h'⟩

/-- What `record_runner_action` does to the job it has found. -/
def record (job : Job) : Except QueueError Job := do
  revertIf (job.terminalDisposition ≠ none) .alreadyDisposed
  revertIf (job.challengeCandidateHash ≠ some u.candidateHash) .candidateFenced
  revertIf (∃ action, job.action = some action ∧ action.candidateHash ≠ u.candidateHash)
    .candidateChanged
  if u.Repeats job.action then do
    revertIf (u.alertMessage ≠ none ∧ job.actionAlert ≠ u.alertMessage) .alertInvalid
    pure job
  else do
    match job.action with
    | none => pure ()
    | some current => u.checkStep current.status
    pure { job with action := some (u.action job.action), actionAlert := u.alertMessage.or job.actionAlert }

end ActionUpdate

/-- The first job with an id, changed by `f`. -/
def updateJob (id : String) (f : Job → Except QueueError Job) (queue : List Job) :
    Except QueueError (List Job) :=
  match queue.find? (fun job => job.id = id) with
  | none => .error .jobNotFound
  | some job => do
      let job' ← f job
      pure (modifyFirst (fun job => job.id = id) (fun _ => job') queue)

def recordRunnerAction (u : ActionUpdate) (queue : List Job) : Except QueueError (List Job) := do
  u.check
  updateJob u.jobId u.record queue

/-- `set_runner_local_disposition`; a window that has closed on a retry is verified against the
transcript again. -/
def setRunnerLocalDisposition (d : Disposition) (retryVerified : Bool) (job : Job) :
    Except QueueError Job := do
  revertIf (job.status = .running) .jobRunning
  revertIf (job.action ≠ none) .hasAction
  revertIf (d.reason = .retryWindowExpired ∧ retryVerified = false) .retryUnverified
  match job.terminalDisposition with
  | some current => do
      revertIf (current ≠ d) .alreadyDisposed
      pure job
  | none => pure { job with
      challengeCandidateHash :=
        if d.reason = .retryWindowExpired then job.challengeCandidateHash else none
      status := .failed
      terminalDisposition := some d }

/-- `_quarantine_canonical`, of one job. -/
def quarantineCanonical (reason : String) (job : Job) : Except QueueError Job := do
  let recorded := ((job.action.map Action.candidateHash).filter isSha256).or job.challengeCandidateHash
  let candidateHash := (recorded.filter isSha256).getD job.sourceEventHash
  revertIf (isSha256 candidateHash = false) .identityInvalid
  let action : Action :=
    { candidateHash := candidateHash
      status := .canonicalInvalidated
      transactionHash := job.action.bind Action.transactionHash
      detail := some reason }
  let message := s!"CANONICAL INVALIDATION {job.id}: {reason}"
  revertIf (message = "" ∨ maxDetailBytes < message.utf8ByteSize) .alertInvalid
  revertIf (job.actionAlert ≠ none ∧ job.actionAlert ≠ some message) .alertInvalid
  pure { job with
    challengeCandidateHash := some candidateHash
    action := some action
    actionAlert := some message
    orphaned := true
    status := .cancelled }

/-! ### Validation -/

/-- `_validate_jobs` -/
def validateJobs (queue : List Job) : Except QueueError Unit := do
  revertIf (∃ job ∈ queue, job.id = "" ∨ job.requiredMemoryMb < 1) .queueInvalid
  revertIf (¬ (queue.map Job.id).Nodup) .queueInvalid
  let events := (queue.map Job.sourceEventHash).filter (· ≠ "")
  revertIf ((∃ event ∈ events, isSha256 event = false) ∨ ¬ events.Nodup) .queueInvalid
  revertIf (∃ job ∈ queue, job.actionAlert = none ∧
    ∃ action ∈ job.action, action.status.alertRequired = true) .queueInvalid

/-! ### Stale leases -/

def defaultMaxJobAttempts : ℕ := 3

/-- The lease is missing or over. -/
def Job.stale (now : ℤ) (job : Job) : Bool :=
  job.status = .running && match job.leaseExpiresAt with
    | some expires => expires ≤ now
    | none => true

/-- The attempts that a reap counts on; what is no number of attempts counts as none. -/
def Job.attemptCount (job : Job) : ℕ := (job.attempts.getD 0).toNat

/-- What `reap_stale_leases` does to a job whose lease is stale. -/
def Job.reap (maxAttempts : ℕ) (job : Job) : Job :=
  let attempts := job.attemptCount + 1
  let job := { job with attempts := some attempts, leaseExpiresAt := none, leaseToken := none }
  if maxAttempts ≤ attempts then
    { job with status := .failed, failureReason := some "stale_lease_max_attempts_exceeded" }
  else { job with status := .queued }

/-- `reap_stale_leases`; the ids that were reaped and the queue. -/
def reapStaleLeases (now : ℤ) (maxAttempts : ℕ) (queue : List Job) : List String × List Job :=
  ((queue.filter (Job.stale now)).map Job.id,
    queue.map (fun job => if job.stale now then job.reap maxAttempts else job))

/-! ### Plans -/

structure MemorySnapshot where
  totalMb : ℕ
  availableMb : ℕ
  swapUsedMb : ℕ

structure RunnerPolicy where
  maxRunning : ℕ := 1
  reserveMemoryMb : ℕ := 8192
  maxSwapUsedMb : ℕ := 1024
  memorySafetyFactor : ℚ := 2

inductive PlanReason where
  | staleLeaseReapRequired | runnerConcurrencyFull | queueEmpty | retryBackoff | swapGuardTripped
  | jobExceedsHostCapacity | memoryGuardTripped | ready
deriving DecidableEq, Repr

/-- The decision of a plan; its counts are only reported. -/
structure Plan where
  reason : PlanReason
  selected : Option Job := none
  minAvailableMemoryMb : Option ℤ := none

/-- `_challenge_deadline` -/
def Job.challengeDeadline (job : Job) : Option ℕ := job.chainClaim.bind ChainClaim.challengeEndsAt

/-- `_job_sort_key` -/
def Job.sortKey (nowEpoch : ℤ) (job : Job) : ℤ ×ₗ ℤ ×ₗ ℤ ×ₗ ℤ ×ₗ String ×ₗ String :=
  let rank : ℤ × ℤ :=
    match job.challengeDeadline with
    | none => (1, 2 ^ 63 - 1)
    | some deadline => if nowEpoch < deadline then (0, deadline) else (2, deadline)
  toLex (rank.1, toLex (rank.2, toLex (job.chainBlockNumber.getD (2 ^ 63 - 1),
    toLex (job.chainLogIndex.getD (2 ^ 31 - 1), toLex (job.createdAt, job.id)))))

/-- `_retry_is_eligible` -/
def Job.retryIsEligible (wallNow chainNow : ℤ) (job : Job) : Bool :=
  match job.challengeDeadline, job.retryNotBefore with
  | some deadline, some notBefore => decide ((deadline : ℤ) ≤ chainNow) || decide (notBefore ≤ wallNow)
  | none, some notBefore => notBefore ≤ wallNow
  | _, none => true

/-- `plan_runner_queue` -/
def planRunnerQueue (memory : MemorySnapshot) (policy : RunnerPolicy) (now chainNow : ℤ)
    (queue : List Job) : Except QueueError Plan := do
  revertIf (memory.totalMb < 1 ∨ memory.totalMb < memory.availableMb) .queueInvalid
  revertIf (policy.maxRunning < 1 ∨ policy.memorySafetyFactor < 1) .queueInvalid
  validateJobs queue
  let queued := (queue.filter (fun job => job.status = .queued)).insertionSort
    (fun x y => x.sortKey chainNow ≤ y.sortKey chainNow)
  let active := queue.filter (fun job => job.status = .running && !job.stale now)
  if queue.any (Job.stale now) then pure { reason := .staleLeaseReapRequired }
  else if policy.maxRunning ≤ active.length then pure { reason := .runnerConcurrencyFull }
  else match queued with
    | [] => pure { reason := .queueEmpty }
    | first :: _ =>
        match queued.filter (Job.retryIsEligible now chainNow) with
        | [] => pure { reason := .retryBackoff, selected := some first }
        | selected :: _ =>
            let required : ℤ :=
              policy.reserveMemoryMb + ⌈(selected.requiredMemoryMb : ℚ) * policy.memorySafetyFactor⌉
            if policy.maxSwapUsedMb < memory.swapUsedMb then pure { reason := .swapGuardTripped }
            else if (memory.totalMb : ℤ) < required then
              pure ⟨.jobExceedsHostCapacity, some selected, some required⟩
            else if (memory.availableMb : ℤ) < required then
              pure ⟨.memoryGuardTripped, some selected, some required⟩
            else pure ⟨.ready, some selected, some required⟩

/-! ### Admission -/

def activeJobAdmissionLimit : ℕ := 960
def ordinaryJobAdmissionLimit : ℕ := 896
def urgentDeadlineSlackSeconds : ℤ := 6 * 60 * 60

/-- What a new job says; it has not been claimed. -/
structure JobSpec where
  id : String
  sourceEventHash : String
  requiredMemoryMb : ℕ
  createdAt : String := ""
  chainBlockNumber : Option ℤ := none
  chainLogIndex : Option ℤ := none
  chainClaim : Option ChainClaim := none
  retryNotBefore : Option ℤ := none

def JobSpec.job (spec : JobSpec) : Job where
  id := spec.id
  sourceEventHash := spec.sourceEventHash
  requiredMemoryMb := spec.requiredMemoryMb
  createdAt := spec.createdAt
  chainBlockNumber := spec.chainBlockNumber
  chainLogIndex := spec.chainLogIndex
  chainClaim := spec.chainClaim
  retryNotBefore := spec.retryNotBefore

/-- `_is_urgent_deadline_job` -/
def Job.urgent (chainNow : Option ℤ) (job : Job) : Bool :=
  match job.challengeDeadline, chainNow with
  | some deadline, some now => decide (now < deadline ∧ (deadline : ℤ) ≤ now + urgentDeadlineSlackSeconds)
  | _, _ => false

/-- `enqueue_runner_job`, from a queue that needs no archival to admit the job; `archived` is whether
the job has been archived before. -/
def enqueueRunnerJob (spec : JobSpec) (archived : Bool) (chainNow : Option ℤ) (queue : List Job) :
    Except QueueError (List Job) := do
  let job := spec.job
  revertIf (isSha256 job.sourceEventHash = false) .identityInvalid
  validateJobs queue
  if archived then pure queue
  else match queue.find? (fun other => other.sourceEventHash = job.sourceEventHash || other.id = job.id) with
    | some existing => do
        revertIf (existing.id ≠ job.id ∨ existing.sourceEventHash ≠ job.sourceEventHash)
          .eventCollision
        pure queue
    | none => do
        let limit := if job.urgent chainNow then activeJobAdmissionLimit else ordinaryJobAdmissionLimit
        revertIf (limit ≤ queue.length) .admissionLimit
        validateJobs (queue ++ [job])
        pure (queue ++ [job])

end P42Prizes.Challenger
