import P42Prizes.ChallengeEnvelope
import P42Prizes.Passes
import P42Prizes.RunnerQueue
import P42Prizes.Systems

/-! # The passes of the operator over its challenges

The runner leaves a transcript with a candidate in the job of every reveal.  A pass of the operator
takes one job, reserves its bond in the spending envelope, signs the challenge, and follows the
transaction until it is final or can be given up; what has become of it is the action of the job in the
queue of the runner.  The envelope and the queue are two files, each written as a whole, and the
operator may stop before any write.

What a pass reads elsewhere (the chain, the transcript, the journals) is its view; a read that throws is
`none`.  Times of recording, and what the queue keeps for the delivery of its alerts besides the
message, are left out. -/

namespace P42Prizes.Challenger

open Passes Reverting Agent Transition
open WalletNonce (isHexString32 isSafeInteger modifyFirst)

/-! ### What a pass reads and writes -/

/-- The two files that a pass writes. -/
structure Files where
  envelope : Envelope := {}
  queue : List Job := []
deriving DecidableEq, Repr

structure Config where
  chainId : ℕ
  problemId : String
  submissionContract : String
  challengeContract : String
  finalityConfirmations : ℕ

inductive PassError where
  | unavailable | candidateMissing | candidateUnknown | candidateMismatch | jobDisappeared
  | envelope (error : EnvelopeError)
  | queue (error : QueueError)
deriving DecidableEq, Repr

abbrev OperatorPass := Pass Files PassError

/-- One operation on the envelope; an intent may change the file and throw. -/
def onEnvelope (op : EnvelopeOp) : OperatorPass Report :=
  Pass.write (fun files =>
    let out := op.run files.envelope
    (out.1.mapError .envelope, { files with envelope := out.2 }))

def onQueue (f : List Job → Except QueueError (List Job)) : OperatorPass Unit :=
  Pass.write (fun files =>
    match f files.queue with
    | .ok queue => (.ok (), { files with queue := queue })
    | .error error => (.error (.queue error), files))

/-- `recordAction`; the bridge is not given an empty detail. -/
def recordAction (job : Job) (candidate : Candidate) (status : ActionStatus)
    (transactionHash : Option String) (detail alertMessage : Option String) : OperatorPass Unit :=
  onQueue (recordRunnerAction
    { jobId := job.id
      candidateHash := candidate.candidateHash
      status := status
      transactionHash := transactionHash
      detail := detail.filter (· ≠ "")
      alertMessage := alertMessage.filter (· ≠ "") })

/-- `recordLocalDisposition` -/
def recordLocalDisposition (job : Job) (reason : DispositionReason) (detail : Option String)
    (retryVerified : Bool) : OperatorPass Unit :=
  let d : Disposition := ⟨reason, (detail.filter (· ≠ "")).map (fun text => (text.take 512).toString)⟩
  onQueue (updateJob job.id (setRunnerLocalDisposition d retryVerified))

/-- What the exits of a pass that give a candidate up record. -/
structure Rejection where
  status : ActionStatus
  detail : String
  alertMessage : String

/-- The outcome of checks that throw where something cannot be read. -/
inductive Gate (α : Type) where
  | unavailable
  | rejected (rejection : Rejection)
  | passed (a : α)

/-! ### The state of a submission -/

/-- What is read of a submission on the chain. -/
structure SubmissionView where
  status : Option ℕ
  revealInstanceHash : Option String
  latestTimestamp : Option (Option ℕ)

/-- The window is over, or the latest block is missing. -/
def windowClosed (candidate : Candidate) : Option ℕ → Bool
  | none => true
  | some timestamp => candidate.challengeEndsAt ≤ timestamp

/-- `candidateStillChallengeable`; the reason, if it is not. -/
def candidateStillChallengeable (candidate : Candidate) (view : SubmissionView) :
    Option (Except String Unit) := do
  let status ← view.status
  if status ≠ 2 then return .error s!"submission status is {status}"
  let live ← view.revealInstanceHash
  if live.toLower ≠ candidate.revealInstanceHash.toLower then
    return .error "reveal instance changed before rebroadcast"
  let latest ← view.latestTimestamp
  if windowClosed candidate latest then
    return .error "challenge window closed before rebroadcast"
  return .ok ()

/-! ### Following a transaction -/

structure Receipt where
  success : Bool
  blockNumber : ℕ
  blockHash : String

inductive ReceiptState where
  | reorged | submitted | confirmed
deriving DecidableEq, Repr

/-- `classifyReceiptFinality` -/
def classifyReceiptFinality (receipt : Receipt) (canonicalBlockHash : Option String)
    (latest required : ℕ) : Option ReceiptState :=
  if latest < receipt.blockNumber then none
  else match canonicalBlockHash with
    | none => some .reorged
    | some canonical =>
        if isHexString32 receipt.blockHash = false ∨ isHexString32 canonical = false ∨
            receipt.blockHash.toLower ≠ canonical.toLower then some .reorged
        else if required ≤ latest - receipt.blockNumber + 1 then some .confirmed
        else some .submitted

inductive NonceDecision where
  | broadcast
  | known
  | fenced (reason : String)

/-- What `reconcileBroadcast` reads, in the order in which it does; `journal` is whether the transcript,
the policy, the signed record and the allocation of its nonce pass. -/
structure BroadcastView where
  journal : Bool := true
  receipt : Option (Option Receipt) := some none
  canonicalBlockHash : Option (Option String) := some none
  latestBlockNumber : Option ℕ := some 0
  pending : Option Bool := some false
  nonceRecorded : Bool := true
  registry : Except String Unit := .ok ()
  submission : SubmissionView
  nonceDecision : Option NonceDecision := some .broadcast
  broadcast : Bool := true

namespace BroadcastView

variable (view : BroadcastView)

/-- The state of the receipt, if there is one. -/
def receiptState (required : ℕ) : Option (Option (Receipt × ReceiptState)) := do
  match ← view.receipt with
  | none => return none
  | some receipt => do
      let canonical ← view.canonicalBlockHash
      let latest ← view.latestBlockNumber
      let state ← classifyReceiptFinality receipt canonical latest required
      return some (receipt, state)

/-- The checks before a transaction that is not known any more is broadcast again; what passes is
whether it is known after all. -/
def rebroadcastGate (job : Job) (candidate : Candidate) : Gate Bool :=
  match view.registry with
  | .error message =>
      let reason := "registry binding rejected before rebroadcast: " ++ message
      .rejected ⟨.registryBindingRejected, reason, s!"REFUSED {job.id}: {reason}"⟩
  | .ok () =>
      match candidateStillChallengeable candidate view.submission with
      | none => .unavailable
      | some (.error reason) => .rejected ⟨.superseded, reason, s!"SUPERSEDED {job.id}: {reason}"⟩
      | some (.ok ()) =>
          match view.nonceDecision with
          | none => .unavailable
          | some (.fenced reason) =>
              .rejected ⟨.superseded, reason, s!"NONCE FENCED {job.id}: {reason}"⟩
          | some .known => .passed true
          | some .broadcast => .passed false

end BroadcastView

/-- The end of `reconcileBroadcast`. -/
def recordBroadcast (job : Job) (candidate : Candidate) (status : ActionStatus) (hash : String) :
    OperatorPass Unit :=
  if status = .broadcast then pure ()
  else recordAction job candidate .broadcast (some hash) none none

/-- `reconcileBroadcast` of a transaction that is not known. -/
def rebroadcast (view : BroadcastView) (job : Job) (candidate : Candidate) (status : ActionStatus)
    (hash : String) : OperatorPass Unit :=
  match view.rebroadcastGate job candidate with
  | .unavailable => Pass.throw .unavailable
  | .rejected rejection =>
      recordAction job candidate rejection.status (some hash) (some rejection.detail)
        (some rejection.alertMessage)
  | .passed known => do
      Pass.observe .unavailable
        (if known || (view.broadcast && view.nonceRecorded) then some () else none)
      recordBroadcast job candidate status hash

/-- `reconcileBroadcast` of a transaction without a canonical receipt. -/
def reconcilePending (view : BroadcastView) (job : Job) (candidate : Candidate)
    (status : ActionStatus) (hash : String) : OperatorPass Unit := do
  let pending ← Pass.observe .unavailable view.pending
  if pending then
    Pass.observe .unavailable (if view.nonceRecorded then some () else none)
    recordBroadcast job candidate status hash
  else
    if status = .submitted then recordAction job candidate .reorged (some hash) none none
    rebroadcast view job candidate status hash

/-- The evidence of a final receipt, as `finalizeChallengeSpend` takes it. -/
def Receipt.evidence (receipt : Receipt) (hash : String) : Option FinalizedReceipt :=
  if isSafeInteger receipt.blockNumber = true ∧ isHexString32 receipt.blockHash = true then
    some ⟨hash, receipt.blockNumber, receipt.blockHash.toLower⟩
  else none

/-- `reconcileBroadcast` of a transaction with a final receipt. -/
def settleReceipt (job : Job) (candidate : Candidate) (receipt : Receipt) (hash : String) :
    OperatorPass Unit := do
  if receipt.success then
    let _ ← onEnvelope (.finalize candidate.candidateHash (receipt.evidence hash))
    recordAction job candidate .confirmed (some hash) none none
  else
    let _ ← onEnvelope (.release candidate.candidateHash)
    recordAction job candidate .broadcastReverted (some hash) none none

/-- `reconcileBroadcast` of what is known of the receipt. -/
def reconcileReceipt (view : BroadcastView) (job : Job) (candidate : Candidate) (status : ActionStatus)
    (hash : String) : Option (Receipt × ReceiptState) → OperatorPass Unit
  | none => reconcilePending view job candidate status hash
  | some (_, .reorged) => do
      if status ≠ .reorged then recordAction job candidate .reorged (some hash) none none
      reconcilePending view job candidate status hash
  | some (_, .submitted) =>
      if status ≠ .submitted then recordAction job candidate .submitted (some hash) none none
      else pure ()
  | some (receipt, .confirmed) => settleReceipt job candidate receipt hash

/-- The candidate of the job, whose transcript is read again. -/
def Job.candidate (job : Job) : Option Candidate := job.transcript.join

def reconcileBroadcast (config : Config) (view : BroadcastView) (job : Job) : OperatorPass Bool :=
  match job.action with
  | none => pure false
  | some action =>
      match action.transactionHash with
      | none => pure false
      | some hash =>
          if action.status = .confirmed ∨ action.status = .broadcastReverted then pure true
          else if action.status.terminal = true then pure false
          else do
            Pass.observe .unavailable (if view.journal then some () else none)
            let candidate ← Pass.observe .candidateMissing job.candidate
            let receipt ← Pass.observe .unavailable (view.receiptState config.finalityConfirmations)
            reconcileReceipt view job candidate action.status hash receipt
            pure true

/-! ### Consuming a candidate -/

/-- What the reservation depends on besides the candidate. -/
structure Admission where
  day : ℕ
  healthy : Bool := true
  admitted : Bool := true
  openChallenges : Option ℕ := some 0

/-- The signed transaction. -/
structure Signed where
  journalPath : String
  transactionHash : String
  detail : String

/-- What `consumeCandidate` reads, in the order in which it does. -/
structure ConsumeView where
  transcript : Except String Unit := .ok ()
  retryVerified : Bool := true
  locked : Bool := true
  registry : Except String Unit := .ok ()
  submission : SubmissionView
  bond : Option ℕ
  admission : Option Admission
  policyWritten : Bool := true
  walletLocked : Bool := true
  /-- The transaction, unless something fails before it is signed and in its journal. -/
  signed : Option Signed
  record : Bool := true
  broadcast : BroadcastView

/-- The checks before a challenge is prepared; what passes is its bond. -/
def ConsumeView.gate (view : ConsumeView) (job : Job) (candidate : Candidate) : Gate ℕ :=
  match view.registry with
  | .error message =>
      let detail := "registry binding rejected before signing: " ++ message
      .rejected ⟨.registryBindingRejected, detail, s!"REFUSED {job.id}: {detail}"⟩
  | .ok () =>
      let cap := candidate.maxBondWei
      let provisioned := defaultLimits.perChallengeWei
      if cap ≤ 0 ∨ provisioned < cap then
        .rejected ⟨.invalidSpendCap, s!"candidate cap {cap} exceeds provisioned cap {provisioned}",
          s!"REFUSED {job.id}: invalid candidate spend cap {cap}"⟩
      else match view.submission.status with
        | none => .unavailable
        | some status =>
            if status ≠ 2 then
              .rejected ⟨.superseded, s!"submission status is {status}",
                s!"SUPERSEDED {job.id}: submission status is {status}"⟩
            else match view.submission.revealInstanceHash with
              | none => .unavailable
              | some live =>
                  let liveHash := live.toLower
                  let recorded := candidate.revealInstanceHash
                  if liveHash ≠ recorded.toLower then
                    .rejected ⟨.superseded, s!"reveal instance changed from {recorded} to {liveHash}",
                      s!"SUPERSEDED {job.id}: reveal instance changed before action consumption"⟩
                  else match view.submission.latestTimestamp with
                    | none => .unavailable
                    | some latest =>
                        if windowClosed candidate latest then
                          .rejected ⟨.windowExpired, "challenge window closed before action consumption",
                            s!"MISSED WINDOW {job.id}: {candidate.reasonCode}"⟩
                        else match view.bond with
                          | none => .unavailable
                          | some bond =>
                              if (bond : ℤ) > cap ∨ (bond : ℤ) > provisioned then
                                .rejected ⟨.bondOverCap, s!"required {bond}; cap {cap}",
                                  s!"UNPOLICED {job.id}: bond {bond} exceeds cap {cap} ({candidate.candidateHash})"⟩
                              else .passed bond

/-- The operation of the action intent and what follows it. -/
def signAndBroadcast (config : Config) (view : ConsumeView) (job : Job) (candidate : Candidate) :
    OperatorPass Unit :=
  match view.signed with
  | none => do
      -- the reservation is released and the error thrown on
      let _ ← onEnvelope (.intent candidate.candidateHash .fails)
      Pass.throw .unavailable
  | some signed => do
      let _ ← onEnvelope
        (.intent candidate.candidateHash (.marks signed.journalPath signed.transactionHash false))
      Pass.observe .unavailable (if view.record then some () else none)
      recordAction job candidate .signed (some signed.transactionHash) (some signed.detail) none
      let action : Action :=
        ⟨candidate.candidateHash, .signed, some signed.transactionHash, some signed.detail⟩
      let _ ← reconcileBroadcast config view.broadcast { job with action := some action }

/-- What `consumeCandidate` asks to reserve. -/
def reservation (config : Config) (candidate : Candidate) (bond : ℕ) (admission : Admission) :
    ReserveInput where
  id := candidate.candidateHash
  problemId := config.problemId
  amountWei := bond
  healthy := admission.healthy
  admitted := admission.admitted
  openChallenges := admission.openChallenges

/-- The reservation of the bond; an error disables the challenge for now. -/
def reserve (day : ℕ) (input : ReserveInput) : OperatorPass Bool :=
  Pass.write (fun files =>
    let out := EnvelopeOp.run files.envelope (.reserve day input)
    (.ok out.1.toBool, { files with envelope := out.2 }))

/-- `consumeCandidate` once a challenge has passed its checks. -/
def fileChallenge (config : Config) (view : ConsumeView) (job : Job) (candidate : Candidate)
    (bond : ℕ) : OperatorPass Unit :=
  match view.admission with
  | none => pure ()
  | some admission => do
      let reserved ← reserve admission.day (reservation config candidate bond admission)
      if reserved then
        Pass.observe .unavailable (if view.policyWritten && view.walletLocked then some () else none)
        signAndBroadcast config view job candidate

/-- `consumeCandidate` of a challenge that has no action yet. -/
def prepareChallenge (config : Config) (view : ConsumeView) (job : Job) (candidate : Candidate) :
    OperatorPass Unit :=
  match view.gate job candidate with
  | .unavailable => Pass.throw .unavailable
  | .rejected rejection =>
      recordAction job candidate rejection.status none (some rejection.detail)
        (some rejection.alertMessage)
  | .passed bond => fileChallenge config view job candidate bond

/-- `consumeCandidate` under the lock of the submission. -/
def consumeChallenge (config : Config) (view : ConsumeView) (job : Job) (candidate : Candidate) :
    OperatorPass Unit := do
  let files ← Pass.get
  let durable ← Pass.observe .jobDisappeared (files.queue.find? (fun entry => entry.id = job.id))
  if durable.action ≠ none then
    Pass.observe .unavailable (if view.walletLocked then some () else none)
    let _ ← reconcileBroadcast config view.broadcast durable
  else
    prepareChallenge config view job candidate

/-- The challenge names the chain, the problem and the contracts of the operator, and the event of the
job. -/
def Candidate.Matches (candidate : Candidate) (config : Config) (job : Job) : Prop :=
  candidate.chainId = config.chainId ∧ candidate.problemId = config.problemId ∧
    candidate.submissionContract = config.submissionContract ∧
    candidate.challengeContract = config.challengeContract ∧
    candidate.sourceEventHash = job.sourceEventHash

instance (candidate : Candidate) (config : Config) (job : Job) :
    Decidable (candidate.Matches config job) := inferInstanceAs (Decidable (_ ∧ _))

/-- `consumeCandidate` of a job with a transcript and without an action. -/
def consumeTranscript (config : Config) (view : ConsumeView) (job : Job) (candidate : Candidate) :
    OperatorPass Unit :=
  match candidate.action with
  | .retry =>
      if job.status = .failed ∧ job.failureReason = some "retry_window_expired" then
        recordLocalDisposition job .retryWindowExpired (some candidate.reasonCode) view.retryVerified
      else pure ()
  | .none => recordAction job candidate .noAction none (some candidate.reasonCode) none
  | .quarantine =>
      recordAction job candidate .quarantined none (some candidate.reasonCode)
        (some s!"QUARANTINE {job.id}: {candidate.reasonCode} ({candidate.candidateHash})")
  | .other => Pass.throw .candidateUnknown
  | .challenge => do
      Pass.observe .candidateMismatch (if candidate.Matches config job then some () else none)
      Pass.observe .unavailable (if view.locked then some () else none)
      consumeChallenge config view job candidate

def consumeCandidate (config : Config) (view : ConsumeView) (job : Job) : OperatorPass Unit :=
  if job.orphaned = true ∨ job.terminalDisposition ≠ none then pure ()
  else if job.action ≠ none then do
    Pass.observe .unavailable (if view.walletLocked then some () else none)
    let _ ← reconcileBroadcast config view.broadcast job
  else match job.transcript with
    | none =>
        if job.status = .failed ∨ job.status = .succeeded then
          recordLocalDisposition job .transcriptMissing
            (some (((job.failureReason).filter (· ≠ "")).getD "terminal runner job has no transcript"))
            view.retryVerified
        else pure ()
    | some candidate =>
        match view.transcript with
        | .error message =>
            recordLocalDisposition job .transcriptInvalid (some message) view.retryVerified
        | .ok () =>
            match candidate with
            | none => pure ()
            | some candidate => consumeTranscript config view job candidate

/-! ### Runs -/

/-- What the runner writes into a job. -/
structure Outcome where
  status : RunnerStatus
  failureReason : Option String
  transcript : Option (Option Candidate)

/-- The candidate of the outcome has a hash of its own, which commits to the event of the job. -/
def Outcome.Fits (outcome : Outcome) (job : Job) (queue : List Job) : Prop :=
  match outcome.transcript.join with
  | none => True
  | some candidate => isSha256 candidate.candidateHash = true ∧
      ∀ other ∈ queue, other.id ≠ job.id →
        other.candidate.map Candidate.candidateHash ≠ some candidate.candidateHash

instance (outcome : Outcome) (job : Job) (queue : List Job) : Decidable (outcome.Fits job queue) := by
  unfold Outcome.Fits
  cases outcome.transcript.join <;> infer_instance

/-- A job that the runner may run: it has no transcript yet, or one that asks for another run. -/
def Job.Runnable (job : Job) : Prop :=
  job.action = none ∧ job.terminalDisposition = none ∧
    ∀ c, job.candidate = some c → c.action = .retry

instance (job : Job) : Decidable job.Runnable :=
  decidable_of_iff (job.action = none ∧ job.terminalDisposition = none ∧
    ∀ c ∈ job.candidate, c.action = .retry) (by simp [Job.Runnable, Option.mem_def])

/-- The job with the outcome; while another run may follow, no candidate is bound to it. -/
def Job.deliver (job : Job) (outcome : Outcome) : Job :=
  { job with
    status := outcome.status
    failureReason := outcome.failureReason
    transcript := outcome.transcript
    challengeCandidateHash :=
      match outcome.transcript.join with
      | none => job.challengeCandidateHash
      | some candidate =>
          if candidate.action = .retry ∧ outcome.status ≠ .failed then none
          else some candidate.candidateHash }

inductive Turn where
  /-- A pass over one job, which is granted so many writes. -/
  | consume (jobId : String) (view : ConsumeView) (writes : ℕ)
  | deliver (jobId : String) (outcome : Outcome)
  | quarantine (jobId : String) (reason : String)

/-- The files under any passes, outcomes of the runner and invalidations by the scan of the chain. -/
def challenger (config : Config) : System Files Turn where
  init files := files.envelope = {} ∧ (files.queue.map Job.id).Nodup ∧
    ∀ job ∈ files.queue, job.transcript = none ∧ job.action = none ∧ job.terminalDisposition = none
  step files
    | .consume jobId view writes =>
        (files.queue.find? (fun job => job.id = jobId)).map
          (fun job => (consumeCandidate config view job).after files writes)
    | .deliver jobId outcome =>
        match files.queue.find? (fun job => job.id = jobId) with
        | none => none
        | some job =>
            if job.Runnable ∧ outcome.Fits job files.queue then
              some { files with
                queue := modifyFirst (fun job => job.id = jobId) (fun job => job.deliver outcome)
                  files.queue }
            else none
    | .quarantine jobId reason =>
        match updateJob jobId (quarantineCanonical reason) files.queue with
        | .ok queue => some { files with queue := queue }
        | .error _ => none

end P42Prizes.Challenger
