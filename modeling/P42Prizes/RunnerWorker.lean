import P42Prizes.RunnerQueue
import P42Prizes.Systems

/-! # The workers of the runner

A worker claims a job under a fresh lease token, adjudicates it for minutes while its heartbeat extends
the lease, and records the outcome if the job is still its own.  Each of the three is a transaction on
the queue; between them other workers reap stale leases and claim jobs, the operator cancels jobs or
ends them, and workers die.  A clock is read anew for every transaction, and may show anything. -/

namespace P42Prizes.Challenger

open Reverting Transition
open WalletNonce (modifyFirst)

/-! ### Claiming a job -/

inductive WorkerError where
  | leaseTooShort | chainTimeRequired | jobNotFound | bindingMismatch | verifierLimitInvalid
  | dockerUnavailable
  | queue (error : QueueError)
deriving DecidableEq, Repr

/-- What `run_next_job_once` reads before it claims a job. -/
structure ClaimInput where
  now : ℤ
  leaseSeconds : ℤ := 3600
  /-- `P42_RUNNER_CHAIN_TIMESTAMP` -/
  chainTimestamp : Option ℤ := none
  memory : MemorySnapshot
  policy : RunnerPolicy := {}
  /-- The id and the source event of the only job that may be claimed. -/
  exact : Option (String × String) := none
  /-- The wall-clock limit of the verifier of the selected job, from its manifest. -/
  manifest : Except String ℕ
  docker : Bool := true
  token : String

/-- `_runner_chain_now` -/
def runnerChainNow (now : ℤ) (required : Bool) : Option ℤ → Except WorkerError ℤ
  | none => if required then .error .chainTimeRequired else .ok now
  | some timestamp => .ok timestamp

/-- `_minimum_lease_seconds` -/
def minimumLeaseSeconds (wallSeconds : ℕ) : ℤ := max 60 (wallSeconds + 30)

/-- The detail of a disposition. -/
def detailOf (message fallback : String) : Option String :=
  some ((if message = "" then fallback else message).take 512).toString

def Job.lease (input : ClaimInput) (job : Job) : Job :=
  { job with
    status := .running
    startedAt := some input.now
    leaseExpiresAt := some (input.now + input.leaseSeconds)
    leaseToken := some input.token }

namespace ClaimInput

variable (input : ClaimInput)

/-- The jobs that the plan may choose from; `none` when the one job that may be claimed is not queued. -/
def planningQueue (queue : List Job) : Except WorkerError (Option (List Job)) :=
  match input.exact with
  | none => .ok (some queue)
  | some (jobId, sourceEventHash) =>
      match queue.find? (fun job => job.id = jobId) with
      | none => .error .jobNotFound
      | some exactJob =>
          if exactJob.sourceEventHash ≠ sourceEventHash then .error .bindingMismatch
          else if exactJob.status ≠ .queued then .ok none
          else .ok (some (queue.filter (fun job => job.id = exactJob.id || job.status = .running)))

/-- A job that cannot be run here is ended. -/
def dispose (selected : Job) (reason : DispositionReason) (detail : Option String) (queue : List Job) :
    Except WorkerError (Option Job × List Job) := do
  let queue ← (updateJob selected.id (setRunnerLocalDisposition ⟨reason, detail⟩ false)
    queue).mapError .queue
  pure (none, queue)

/-- What follows from a plan; the job is the one that is claimed. -/
def follow (plan : Plan) (queue : List Job) : Except WorkerError (Option Job × List Job) :=
  match plan.reason, plan.selected with
  | .ready, some selected =>
      match input.manifest with
      | .error message =>
          dispose selected .jobRunError (detailOf message "runner manifest load failed") queue
      | .ok wallSeconds => do
          revertIf (input.docker = false) .dockerUnavailable
          revertIf (wallSeconds = 0) .verifierLimitInvalid
          revertIf (input.leaseSeconds < minimumLeaseSeconds wallSeconds) .leaseTooShort
          pure (some (selected.lease input),
            modifyFirst (fun job => job.id = selected.id) (Job.lease input) queue)
  | .jobExceedsHostCapacity, some selected =>
      let required := plan.minAvailableMemoryMb.getD 0
      let total := input.memory.totalMb
      dispose selected .jobExceedsHostCapacity
        (some s!"required minimum {required} MB exceeds host total {total} MB") queue
  | _, _ => pure (none, queue)

/-- The first transaction of `run_next_job_once`. -/
def claim (queue : List Job) : Except WorkerError (Option Job × List Job) := do
  revertIf (input.leaseSeconds < 60) .leaseTooShort
  let chainNow ← runnerChainNow input.now (queue.any (fun job => job.challengeDeadline.isSome))
    input.chainTimestamp
  let (_, queue) := reapStaleLeases input.now defaultMaxJobAttempts queue
  match ← input.planningQueue queue with
  | none => pure (none, queue)
  | some planning => do
      let plan ← (planRunnerQueue input.memory input.policy input.now chainNow planning).mapError
        .queue
      input.follow plan queue

end ClaimInput

/-! ### Holding a job -/

/-- The job is still under the lease of the token. -/
def Job.heldBy (token : String) (job : Job) : Bool :=
  job.status = .running && job.leaseToken = some token

/-- A turn of `_runner_lease_heartbeat`. -/
def heartbeat (jobId token : String) (now leaseSeconds : ℤ) (queue : List Job) : List Job :=
  match queue.find? (fun job => job.id = jobId) with
  | none => queue
  | some fresh =>
      if fresh.heldBy token then
        modifyFirst (fun job => job.id = jobId)
          (fun job => { job with leaseExpiresAt := some (now + leaseSeconds) }) queue
      else queue

/-! ### Recording an outcome -/

def maxStorageRetries : ℤ := 3
def retryBackoffSeconds : ℤ := 15

/-- What the transcript of a run says. -/
structure Verdict where
  valid : Bool
  candidate : Option Candidate
deriving DecidableEq

/-- How `_run_job` ends: with its transcript, or with an error, which an error of the storage may
survive. -/
inductive RunResult where
  | transcript (verdict : Verdict)
  | error (message : String) (storage : Bool)
deriving DecidableEq

def RunResult.isError : RunResult → Bool
  | error _ _ => true
  | transcript _ => false

/-- `_transcript_succeeded` -/
def Verdict.succeeded (verdict : Verdict) : Bool :=
  verdict.valid && match verdict.candidate with
    | none => true
    | some candidate => candidate.action = .none

/-- `_transcript_retryable` -/
def Verdict.retryable (verdict : Verdict) : Bool :=
  match verdict.candidate with
  | none => false
  | some candidate => candidate.action = .retry

/-- `_retry_reason` -/
def Verdict.retryReason (verdict : Verdict) : String :=
  match verdict.candidate with
  | none => "retryable_verification_unavailable"
  | some candidate =>
      if candidate.reasonCode = "" then "retryable_verification_unavailable" else candidate.reasonCode

/-- The clocks of a record, and whether the transcript of a retry whose window has closed verifies. -/
structure RecordInput where
  now : ℤ
  chainTimestamp : Option ℤ := none
  retryVerified : Bool := true

namespace RecordInput

variable (input : RecordInput)

/-- `_retry_window_open` -/
def retryWindowOpen (job : Job) : Bool :=
  match job.chainClaim with
  | none => true
  | some claim =>
      match claim.challengeEndsAt, input.chainTimestamp with
      | some deadline, some timestamp => timestamp < deadline
      | _, _ => false

/-- `_retry_backoff_deadline` -/
def retryBackoffDeadline (job : Job) : ℤ :=
  match job.challengeDeadline, input.chainTimestamp with
  | some deadline, some timestamp =>
      input.now + min retryBackoffSeconds (max 0 (deadline - timestamp))
  | _, _ => input.now + retryBackoffSeconds

/-- `retries + 1`, of a count that is one. -/
def next (retries : Option ℤ) : ℤ :=
  match retries with
  | some n => if 0 ≤ n then n + 1 else 1
  | none => 1

/-- The outcome of a run that ended with an error. -/
def recordError (message : String) (storage : Bool) (fresh : Job) : Except QueueError Job :=
  let retryCount := next fresh.storageRetryCount
  let freed := { fresh with finishedAt := some input.now, leaseExpiresAt := none, leaseToken := none }
  if storage = true ∧ retryCount ≤ maxStorageRetries then
    pure { freed with
      status := .queued
      storageRetryCount := some retryCount
      lastRetryReason := some ("transcript_storage_error: " ++ message)
      retryNotBefore := some (input.retryBackoffDeadline freed)
      failureReason := none }
  else
    setRunnerLocalDisposition ⟨.jobRunError, detailOf message "runner job failed"⟩
      input.retryVerified
      { freed with status := .failed, failureReason := some ("job_run_error: " ++ message) }

/-- The outcome of a run with a transcript. -/
def recordTranscript (verdict : Verdict) (fresh : Job) : Except QueueError Job :=
  let freed := { fresh with
    finishedAt := some input.now
    transcript := some verdict.candidate
    leaseExpiresAt := none
    leaseToken := none }
  let candidateHash := verdict.candidate.map Candidate.candidateHash
  if verdict.retryable then
    if input.retryWindowOpen fresh then
      pure { freed with
        retryCount := some (next fresh.retryCount)
        status := .queued
        lastRetryReason := some verdict.retryReason
        retryNotBefore := some (input.retryBackoffDeadline freed)
        failureReason := none
        challengeCandidateHash := none }
    else
      setRunnerLocalDisposition
        ⟨.retryWindowExpired, detailOf verdict.retryReason ""⟩ input.retryVerified
        { freed with
          status := .failed
          failureReason := some "retry_window_expired"
          retryNotBefore := none
          challengeCandidateHash := candidateHash.or fresh.challengeCandidateHash }
  else
    pure { freed with
      status := if verdict.succeeded then .succeeded else .failed
      retryNotBefore := none
      challengeCandidateHash := candidateHash.or fresh.challengeCandidateHash }

def record (result : RunResult) (fresh : Job) : Except QueueError Job :=
  match result with
  | .error message storage => input.recordError message storage fresh
  | .transcript verdict => input.recordTranscript verdict fresh

/-- The last transaction of `run_next_job_once`; whether the outcome was recorded, and the queue. -/
def recordOutcome (jobId token : String) (result : RunResult) (queue : List Job) :
    Except QueueError (Bool × List Job) :=
  match queue.find? (fun job => job.id = jobId) with
  | none => pure (false, queue)
  | some fresh =>
      if fresh.heldBy token then do
        let job ← input.record result fresh
        pure (true, modifyFirst (fun job => job.id = jobId) (fun _ => job) queue)
      else pure (false, queue)

end RecordInput

/-! ### Runs -/

/-- Where a worker is: it waits for the execution slot, adjudicates, has a result, has tried to record
it, or is dead. -/
inductive Phase where
  | claimed
  | adjudicating
  | finished (result : RunResult)
  | closed
  | crashed
deriving DecidableEq

/-- A run of `run_next_job_once` that has claimed a job. -/
structure Worker where
  jobId : String
  token : String
  leaseSeconds : ℤ
  phase : Phase

structure World where
  queue : List Job := []
  workers : List Worker := []
  /-- The worker that holds the execution slot of the queue. -/
  slot : Option ℕ := none

inductive Act where
  | enqueue (spec : JobSpec) (archived : Bool) (chainNow : Option ℤ)
  | claim (input : ClaimInput)
  | heartbeat (worker : ℕ) (now : ℤ)
  | start (worker : ℕ)
  | finish (worker : ℕ) (result : RunResult)
  | record (worker : ℕ) (input : RecordInput)
  | crash (worker : ℕ)
  | recordAction (update : ActionUpdate)
  | terminalize (jobId : String) (disposition : Disposition) (retryVerified : Bool)
  | quarantine (jobId : String) (reason : String)

namespace World

variable (w : World)

/-- A transaction that throws leaves the queue as it was. -/
def commit {ε : Type} (result : Except ε (List Job)) : World :=
  match result with
  | .ok queue => { w with queue := queue }
  | .error _ => w

def setPhase (i : ℕ) (phase : Phase) : World :=
  { w with workers := w.workers.modify i (fun worker => { worker with phase := phase }) }

/-- The slot without the worker, which the system takes it from when it ends. -/
def freeSlot (i : ℕ) : World :=
  { w with slot := if w.slot = some i then none else w.slot }

/-- The claim of a job, and the worker that it makes. -/
def claim (input : ClaimInput) : World :=
  match input.claim w.queue with
  | .error _ => w
  | .ok (none, queue) => { w with queue := queue }
  | .ok (some job, queue) =>
      { w with
        queue := queue
        workers := w.workers ++ [⟨job.id, input.token, input.leaseSeconds, .claimed⟩] }

/-- The attempt of a worker to record its result; it ends the worker. -/
def record (i : ℕ) (worker : Worker) (input : RecordInput) (result : RunResult) : World :=
  let w' := w.commit ((input.recordOutcome worker.jobId worker.token result w.queue).map Prod.snd)
  w'.setPhase i .closed

def step : Act → Option World
  | .enqueue spec archived chainNow => some (w.commit (enqueueRunnerJob spec archived chainNow w.queue))
  | .claim input => some (w.claim input)
  | .heartbeat i now => do
      let worker ← w.workers[i]?
      if worker.phase = .crashed then none
      else some { w with queue := heartbeat worker.jobId worker.token now worker.leaseSeconds w.queue }
  | .start i => do
      let worker ← w.workers[i]?
      if worker.phase = .claimed ∧ w.slot = none then
        some { (w.setPhase i .adjudicating) with slot := some i }
      else none
  | .finish i result => do
      let worker ← w.workers[i]?
      -- a worker that cannot take the slot ends with an error
      if worker.phase = .adjudicating ∨ (worker.phase = .claimed ∧ result.isError = true) then
        some ((w.setPhase i (.finished result)).freeSlot i)
      else none
  | .record i input => do
      let worker ← w.workers[i]?
      match worker.phase with
      | .finished result => some (w.record i worker input result)
      | _ => none
  | .crash i => some ((w.setPhase i .crashed).freeSlot i)
  | .recordAction update => some (w.commit (recordRunnerAction update w.queue))
  | .terminalize jobId disposition retryVerified =>
      some (w.commit (updateJob jobId (setRunnerLocalDisposition disposition retryVerified) w.queue))
  | .quarantine jobId reason =>
      some (w.commit (updateJob jobId (quarantineCanonical reason) w.queue))

end World

end P42Prizes.Challenger
