import P42Prizes.ChallengeEnvelope
import P42Prizes.HighWater

/-! # The health of the runner

Every challenge is paid for under a health artifact of the runner.  The artifacts form a chain: each names the
hash of the one before it, and repeats its acknowledgement of past incidents or brings a new one with an
authorization of the recovery authority.  The envelope file keeps a record of the last accepted artifact, its
high water, which the next one is checked against; a caller may have it checked against the artifact itself
as well.

Only the second version of the artifacts is in the chain; one of the first version leaves the record alone.
Numbers are integers within the bounds of the schema, as JavaScript's comparisons and sums have them there, and a
record of the schema stands for its canonical JSON.  The hash function, the signatures, `Date.parse` and
`toLowerCase` come with the platform. -/

namespace P42Prizes.RunnerHealth

open Agent HighWater Reverting

/-! ### Artifacts -/

structure Counters where
  oomKills : ℕ
  workerRestarts : ℕ
  queueCorruptionEvents : ℕ
deriving DecidableEq, Repr

structure Signature where
  publicKey : String
  signature : String
deriving DecidableEq, Repr

structure IncidentScope where
  healthPublicKey : String
  hostId : String
  bootId : String
  queueId : String
  chainId : ℕ
  contract : String
deriving DecidableEq, Repr

/-- An incident without its hash and signature. -/
structure IncidentBody where
  generation : ℕ
  counters : Counters
  scope : IncidentScope
  blockNumber : ℕ
  blockHash : String
  blockTime : ℕ
deriving DecidableEq, Repr

structure IncidentArtifact extends IncidentBody where
  artifactHash : String
  signature : Signature
deriving DecidableEq, Repr

structure RecoveryScope extends IncidentScope where
  targetSequence : ℕ
  priorArtifactHash : Option String
  targetBlockNumber : ℕ
  targetBlockHash : String
  acknowledgementBlockNumber : ℕ
  acknowledgementBlockHash : String
deriving DecidableEq, Repr

/-- A recovery authorization without its hash and signature. -/
structure AuthorizationBody where
  generation : ℕ
  priorCounters : Counters
  currentCounters : Counters
  baseline : Counters
  remediationArtifactHash : String
  rehearsalArtifactHash : String
  incidentArtifact : IncidentArtifact
  incidentArtifactHash : String
  scope : RecoveryScope
deriving DecidableEq, Repr

structure RecoveryAuthorization extends AuthorizationBody where
  authorizationHash : String
  signature : Signature
deriving DecidableEq, Repr

structure CounterAcknowledgement where
  generation : ℕ
  baseline : Counters
  acknowledgedBlockNumber : ℕ
  acknowledgedBlockHash : String
  recoveryAuthorization : Option RecoveryAuthorization
deriving DecidableEq, Repr

structure Producer where
  hostId : String
  bootId : String
  queueId : String
deriving DecidableEq, Repr

structure BootTransition where
  previousBootId : String
  newBootId : String
  reason : String
  transitionBlockNumber : ℕ
  transitionBlockHash : String
deriving DecidableEq, Repr

structure ChainBlock where
  chainId : ℕ
  contract : String
  blockNumber : ℕ
  blockHash : String
  blockTime : ℕ
deriving DecidableEq, Repr

inductive FaultStatus where
  | active | recovered
deriving DecidableEq, Repr

structure ArchiveFault where
  status : FaultStatus
  firstObservedAtUtc : String
  lastObservedAtUtc : String
  eventCount : ℕ
  reason : String
  reasonHash : String
  recoveryGeneration : ℕ
  recoveredAtUtc : Option String
  jobId : Option String
  sourceEventHash : Option String
  archiveHash : Option String
deriving DecidableEq, Repr

inductive Decision where
  | start | wait
deriving DecidableEq, Repr

inductive Guard where
  | green | red
deriving DecidableEq, Repr

structure RunnerPlan where
  decision : Decision
  maxActiveRunning : ℕ
  swapGuard : Guard
  hostCapacity : Guard
  concurrencyGuard : Guard
deriving DecidableEq, Repr

structure QueueMetrics where
  queueHash : String
  queueBytes : ℕ
  canonicalByteHeadroom : ℕ
  activeJobCount : ℕ
  queuedJobCount : ℕ
  ordinaryAdmissionHeadroom : ℕ
  urgentAdmissionHeadroom : ℕ
  archiveRecordCount : ℕ
  tombstoneCount : ℕ
  oldestQueuedAgeSeconds : Option ℕ
  earliestLiveDeadline : Option ℕ
  minimumChallengeSlackSeconds : Option ℕ
  expiredDeadlineCriticalCount : ℕ
  warningSlackSeconds : ℕ
  criticalSlackSeconds : ℕ
  archiveFault : Option ArchiveFault
  archiveFaultHistory : Option ArchiveFault
  runnerPlan : RunnerPlan
deriving DecidableEq, Repr

/-- A health artifact without its hash and signature. -/
structure HealthBody where
  observedAtUtc : String
  sequence : ℕ
  priorArtifactHash : Option String
  producer : Producer
  bootTransition : Option BootTransition
  chain : ChainBlock
  counters : Counters
  counterAcknowledgement : CounterAcknowledgement
  queue : QueueMetrics
deriving DecidableEq, Repr

structure HealthArtifact extends HealthBody where
  artifactHash : String
  signature : Signature
deriving DecidableEq, Repr

/-- The `authorization_hash` of the recovery authorization, if there is one. -/
def CounterAcknowledgement.recoveryHash (a : CounterAcknowledgement) : Option String :=
  a.recoveryAuthorization.map RecoveryAuthorization.authorizationHash

/-- What the program has from its platform; the hashes are in their `sha256:` form. -/
structure Platform where
  dateParse : String → Option ℤ
  toLowerCase : String → String
  textHash : String → String
  artifactHash : HealthBody → String
  authorizationHash : AuthorizationBody → String
  incidentHash : IncidentBody → String
  /-- Of a domain, a public key, a hash and a signature. -/
  verifySignature : String → String → String → String → Bool

/-! ### The schema -/

namespace Schema

/-- `"minimum": least, "maximum": 9007199254740991` -/
def integer (least n : ℕ) : Bool := least ≤ n && n ≤ 2 ^ 53 - 1

/-- `"minLength": 1` -/
def nonempty (s : String) : Bool := s ≠ ""

def address : String → Bool := matchesFixed ['0', 'x'] 40 isLowerHex

def blockHash : String → Bool := isBytes32 isLowerHex

def publicKey : String → Bool := matchesFixed "ed25519:".toList 64 isLowerHex

/-- Reads so many digits. -/
def digits : ℕ → List Char → Option (List Char)
  | 0, cs => some cs
  | n + 1, c :: cs => if isDecimal c then digits n cs else none
  | _ + 1, [] => none

/-- Reads numbers of so many digits, each with the mark that follows it. -/
def numbers : List (ℕ × Char) → List Char → Option (List Char)
  | [], cs => some cs
  | (count, mark) :: rest, cs =>
      match digits count cs with
      | some (c :: cs) => if c = mark then numbers rest cs else none
      | _ => none

/-- The format `date-time`. -/
def dateTime (env : Platform) (s : String) : Bool :=
  (match numbers [(4, '-'), (2, '-'), (2, 'T'), (2, ':'), (2, ':')] s.toList with
    | none => false
    | some rest =>
        match digits 2 rest with
        | some ['Z'] => true
        | some ('.' :: fraction) =>
            let count := fraction.length - 1
            1 ≤ count && count ≤ 6 && digits count fraction = some ['Z']
        | _ => false) && (env.dateParse s).isSome

def counters (c : Counters) : Bool :=
  integer 0 c.oomKills && integer 0 c.workerRestarts && integer 0 c.queueCorruptionEvents

def signature (s : Signature) : Bool :=
  publicKey s.publicKey && matchesFixed "ed25519:".toList 128 isLowerHex s.signature

def incidentScope (s : IncidentScope) : Bool :=
  publicKey s.healthPublicKey && nonempty s.hostId && nonempty s.bootId && nonempty s.queueId &&
    integer 1 s.chainId && address s.contract

def counterIncident (i : IncidentArtifact) : Bool :=
  integer 1 i.generation && counters i.counters && incidentScope i.scope && integer 0 i.blockNumber &&
    blockHash i.blockHash && integer 1 i.blockTime && isSha256 i.artifactHash && signature i.signature

def counterRecovery (a : RecoveryAuthorization) : Bool :=
  integer 1 a.generation && counters a.priorCounters && counters a.currentCounters && counters a.baseline &&
    isSha256 a.remediationArtifactHash && isSha256 a.rehearsalArtifactHash &&
    counterIncident a.incidentArtifact && isSha256 a.incidentArtifactHash &&
    incidentScope a.scope.toIncidentScope && integer 1 a.scope.targetSequence &&
    a.scope.priorArtifactHash.all isSha256 && integer 0 a.scope.targetBlockNumber &&
    blockHash a.scope.targetBlockHash && integer 0 a.scope.acknowledgementBlockNumber &&
    blockHash a.scope.acknowledgementBlockHash && isSha256 a.authorizationHash && signature a.signature

def counterAcknowledgement (a : CounterAcknowledgement) : Bool :=
  integer 1 a.generation && counters a.baseline && integer 0 a.acknowledgedBlockNumber &&
    blockHash a.acknowledgedBlockHash && a.recoveryAuthorization.all counterRecovery

def bootTransition (t : BootTransition) : Bool :=
  nonempty t.previousBootId && nonempty t.newBootId && nonempty t.reason && t.reason.length ≤ 512 &&
    integer 0 t.transitionBlockNumber && blockHash t.transitionBlockHash

def archiveFaultHistory (env : Platform) (f : ArchiveFault) : Bool :=
  dateTime env f.firstObservedAtUtc && dateTime env f.lastObservedAtUtc && integer 1 f.eventCount &&
    nonempty f.reason && isSha256 f.reasonHash && integer 0 f.recoveryGeneration &&
    f.recoveredAtUtc.all (dateTime env) && f.jobId.all nonempty && f.sourceEventHash.all isSha256 &&
    f.archiveHash.all isSha256

def queue (env : Platform) (q : QueueMetrics) : Bool :=
  isSha256 q.queueHash && integer 1 q.queueBytes && integer 0 q.canonicalByteHeadroom &&
    integer 0 q.activeJobCount && integer 0 q.queuedJobCount && integer 0 q.ordinaryAdmissionHeadroom &&
    integer 0 q.urgentAdmissionHeadroom && integer 0 q.archiveRecordCount && integer 0 q.tombstoneCount &&
    q.oldestQueuedAgeSeconds.all (integer 0) && q.earliestLiveDeadline.all (integer 1) &&
    q.minimumChallengeSlackSeconds.all (integer 1) && integer 0 q.expiredDeadlineCriticalCount &&
    q.warningSlackSeconds = 3600 && q.criticalSlackSeconds = 900 &&
    q.archiveFault.all (archiveFaultHistory env) && q.archiveFaultHistory.all (archiveFaultHistory env) &&
    integer 1 q.runnerPlan.maxActiveRunning

/-- `runnerHealthV2SchemaValidator` -/
def runnerHealthV2 (env : Platform) (h : HealthArtifact) : Bool :=
  dateTime env h.observedAtUtc && integer 1 h.sequence && h.priorArtifactHash.all isSha256 &&
    nonempty h.producer.hostId && nonempty h.producer.bootId && nonempty h.producer.queueId &&
    h.bootTransition.all bootTransition && integer 1 h.chain.chainId && address h.chain.contract &&
    integer 0 h.chain.blockNumber && blockHash h.chain.blockHash && integer 1 h.chain.blockTime &&
    counters h.counters && counterAcknowledgement h.counterAcknowledgement && queue env h.queue &&
    isSha256 h.artifactHash && signature h.signature

end Schema

/-! ### Admission -/

/-- What a caller expects of an artifact; a key it leaves out is not compared. -/
structure ExpectedHealth where
  publicKey : Option String := none
  recoveryPublicKey : Option String := none
  recoveryCooldownMs : Option ℕ := none
  remediationArtifactHash : Option String := none
  rehearsalArtifactHash : Option String := none
  hostId : Option String := none
  bootId : Option String := none
  queueId : Option String := none
  chainId : Option ℕ := none
  contract : Option String := none

/-- The record of the last accepted artifact in the envelope file. -/
structure HealthHighWater where
  sequence : ℕ
  artifactHash : String
  priorArtifactHash : Option String
  hostId : String
  bootId : String
  queueId : String
  counters : Counters
  counterAcknowledgement : CounterAcknowledgement
  consumedRecoveryAuthorizationHashes : List String
deriving DecidableEq, Repr

/-- The artifact that authorized a reservation. -/
structure ReservationBinding where
  sequence : ℕ
  artifactHash : String
deriving DecidableEq, Repr

/-- The options of `runnerHealthAdmission`; times are in milliseconds. -/
structure AdmissionOptions where
  now : ℤ
  maxAgeMs : ℤ := 300000
  expected : ExpectedHealth := {}
  prior : Option HealthArtifact := none
  highWater : Option HealthHighWater := none
  reservationBinding : Option ReservationBinding := none
  permitUnanchoredSequence : Bool := false

inductive Green where
  | greenV2 | greenWarningSlack
deriving DecidableEq, Repr

variable (env : Platform)

/-- A turn of the loop over the expected bindings. -/
def checkBinding (key actual : String) : Option String → Except String Unit
  | none => pure ()
  | some value => revertIf (env.toLowerCase actual ≠ env.toLowerCase value) ("binding " ++ key)

/-- The loop over the expected bindings, in the order in which the operator gives them. -/
def checkBindings (expected : ExpectedHealth) (health : HealthArtifact) : Except String Unit := do
  revertIf (∃ value ∈ expected.publicKey, health.signature.publicKey ≠ value) "binding public_key"
  checkBinding env "host_id" health.producer.hostId expected.hostId
  checkBinding env "boot_id" health.producer.bootId expected.bootId
  checkBinding env "queue_id" health.producer.queueId expected.queueId
  checkBinding env "chain_id" (toString health.chain.chainId) (expected.chainId.map toString)
  checkBinding env "contract" health.chain.contract expected.contract

/-- What `validateRunnerHealthAuthenticity` checks of the artifact alone, after its bindings. -/
def checkSignedHash (health : HealthArtifact) : Except String Unit := do
  revertIf (env.artifactHash health.toHealthBody ≠ health.artifactHash) "artifact hash"
  revertIf (env.verifySignature "P42-RUNNER-HEALTH-V2" health.signature.publicKey health.artifactHash
    health.signature.signature = false) "signature"

def validateRunnerHealthAuthenticity (expected : ExpectedHealth) (health : HealthArtifact) :
    Except String Unit := do
  revertIf (Schema.runnerHealthV2 env health = false) "v2 schema"
  checkBindings env expected health
  checkSignedHash env health

/-- Whether a counter of `c` is below that of `d`. -/
def Counters.Below (c d : Counters) : Prop :=
  c.oomKills < d.oomKills ∨ c.workerRestarts < d.workerRestarts ∨
    c.queueCorruptionEvents < d.queueCorruptionEvents

instance (c d : Counters) : Decidable (c.Below d) :=
  inferInstanceAs (Decidable (_ ∨ _ ∨ _))

def Counters.zero : Counters := ⟨0, 0, 0⟩

/-- `expected[key] && actual !== expected[key]` -/
def Differs (expected : Option String) (actual : String) : Prop :=
  ∃ value ∈ expected, value ≠ "" ∧ actual ≠ value

instance (expected : Option String) (actual : String) : Decidable (Differs expected actual) :=
  match expected with
  | none => isFalse fun ⟨_, h, _⟩ => nomatch h
  | some value => decidable_of_iff (value ≠ "" ∧ actual ≠ value) (by simp [Differs])

/-- The scope that an incident of the artifact must have. -/
def HealthArtifact.scope (health : HealthArtifact) : IncidentScope where
  healthPublicKey := health.signature.publicKey
  hostId := health.producer.hostId
  bootId := health.producer.bootId
  queueId := health.producer.queueId
  chainId := health.chain.chainId
  contract := health.chain.contract

/-- The scope that a recovery authorization of the artifact must have. -/
def HealthArtifact.recoveryScope (health : HealthArtifact) : RecoveryScope where
  toIncidentScope := health.scope
  targetSequence := health.sequence
  priorArtifactHash := health.priorArtifactHash
  targetBlockNumber := health.chain.blockNumber
  targetBlockHash := health.chain.blockHash
  acknowledgementBlockNumber := health.counterAcknowledgement.acknowledgedBlockNumber
  acknowledgementBlockHash := health.counterAcknowledgement.acknowledgedBlockHash

/-- `validateCounterRecoveryAuthorization`; of the previous artifact it reads the counters. -/
def validateCounterRecoveryAuthorization (previous : Option Counters) (current : HealthArtifact)
    (expected : ExpectedHealth) : Except String Unit := do
  match current.counterAcknowledgement.recoveryAuthorization with
  | none => .error "independent counter recovery authorization is required"
  | some authorization =>
      revertIf (expected.recoveryPublicKey.getD "" = "" ∨
        some authorization.signature.publicKey ≠ expected.recoveryPublicKey)
        "counter recovery authority mismatch"
      revertIf (authorization.signature.publicKey = current.signature.publicKey)
        "counter recovery authority must differ from health signer"
      revertIf (Differs expected.remediationArtifactHash authorization.remediationArtifactHash)
        "counter recovery remediation mismatch"
      revertIf (Differs expected.rehearsalArtifactHash authorization.rehearsalArtifactHash)
        "counter recovery rehearsal mismatch"
      revertIf (env.authorizationHash authorization.toAuthorizationBody ≠ authorization.authorizationHash)
        "counter recovery authorization hash mismatch"
      revertIf (env.verifySignature "P42-RUNNER-COUNTER-RECOVERY-V1" authorization.signature.publicKey
        authorization.authorizationHash authorization.signature.signature = false)
        "counter recovery signature invalid"
      revertIf (authorization.generation ≠ current.counterAcknowledgement.generation ∨
        authorization.priorCounters ≠ previous.getD .zero ∨
        authorization.currentCounters ≠ current.counters ∨
        authorization.baseline ≠ current.counterAcknowledgement.baseline)
        "counter recovery transition mismatch"
      revertIf (authorization.scope ≠ current.recoveryScope) "counter recovery scope mismatch"
      let incident := authorization.incidentArtifact
      revertIf (authorization.incidentArtifactHash ≠ incident.artifactHash ∨
        incident.generation ≠ authorization.generation ∨ incident.counters ≠ current.counters)
        "counter incident linkage mismatch"
      revertIf (env.incidentHash incident.toIncidentBody ≠ incident.artifactHash ∨
        some incident.signature.publicKey ≠ expected.recoveryPublicKey)
        "counter incident authority or hash mismatch"
      revertIf (env.verifySignature "P42-RUNNER-COUNTER-INCIDENT-V1" incident.signature.publicKey
        incident.artifactHash incident.signature.signature = false) "counter incident signature invalid"
      revertIf (incident.scope ≠ current.scope) "counter incident scope mismatch"
      let cooldownSeconds := (expected.recoveryCooldownMs.getD 86400000 + 999) / 1000
      revertIf (incident.blockNumber > current.chain.blockNumber ∨
        incident.blockTime > current.chain.blockTime ∨
        current.chain.blockTime - incident.blockTime < cooldownSeconds)
        "counter recovery canonical cooldown incomplete"

/-- `validateCounterAcknowledgement`; of the previous artifact or of its record it reads the counters and the
acknowledgement. -/
def validateCounterAcknowledgement (previous : Option (Counters × CounterAcknowledgement))
    (current : HealthArtifact) (expected : ExpectedHealth) : Except String Unit := do
  let acknowledgement := current.counterAcknowledgement
  revertIf (current.counters.Below acknowledgement.baseline)
    "counter acknowledgement exceeds lifetime counter"
  match previous with
  | none =>
      if current.counters = .zero ∧ acknowledgement.recoveryAuthorization = none ∧
          acknowledgement.baseline = .zero then
        pure ()
      else
        validateCounterRecoveryAuthorization env none current expected
  | some (counters, previous) =>
      if acknowledgement.generation = previous.generation then
        revertIf (acknowledgement ≠ previous) "counter baseline changed without recovery generation"
      else if acknowledgement.generation = previous.generation + 1 then do
        revertIf (acknowledgement.baseline.Below previous.baseline)
          "counter acknowledgement baseline rolled back"
        revertIf (acknowledgement.acknowledgedBlockNumber ≠ current.chain.blockNumber ∨
          acknowledgement.acknowledgedBlockHash ≠ current.chain.blockHash)
          "counter recovery is not bound to current canonical block"
        validateCounterRecoveryAuthorization env (some counters) current expected
      else
        .error "counter recovery generation gap"

/-- The boot of the artifact after one of the boot `bootId`. -/
def checkBoot (bootId : String) (current : HealthArtifact) (invalid spurious : String) :
    Except String Unit :=
  if current.producer.bootId ≠ bootId then
    revertIf (∀ transition ∈ current.bootTransition, transition.previousBootId ≠ bootId ∨
      transition.newBootId ≠ current.producer.bootId ∨
      transition.transitionBlockNumber ≠ current.chain.blockNumber ∨
      transition.transitionBlockHash ≠ current.chain.blockHash) invalid
  else
    revertIf (current.bootTransition ≠ none) spurious

def validateRunnerHealthPredecessor (prior current : HealthArtifact) (expected : ExpectedHealth) :
    Except String Unit := do
  let previousBoot := (current.bootTransition.map BootTransition.previousBootId).getD
    current.producer.bootId
  validateRunnerHealthAuthenticity env { expected with bootId := some previousBoot } prior
  revertIf (current.sequence ≠ prior.sequence + 1 ∨ current.priorArtifactHash ≠ some prior.artifactHash)
    "predecessor sequence linkage invalid"
  revertIf (current.counters.Below prior.counters) "predecessor counter rollback"
  validateCounterAcknowledgement env (some (prior.counters, prior.counterAcknowledgement)) current expected
  revertIf (current.producer.hostId ≠ prior.producer.hostId ∨
    current.producer.queueId ≠ prior.producer.queueId) "predecessor producer identity fork"
  checkBoot prior.producer.bootId current "predecessor boot transition invalid"
    "spurious predecessor boot transition"

/-- The branch of `runnerHealthAdmission` for a stored record. -/
def validateHighWater (highWater : HealthHighWater) (binding : Option ReservationBinding)
    (health : HealthArtifact) (expected : ExpectedHealth) : Except String Unit := do
  revertIf (∃ b ∈ binding, health.sequence ≠ b.sequence ∨ health.artifactHash ≠ b.artifactHash)
    "health generation differs from reservation authorization"
  if health.sequence = highWater.sequence ∧ health.artifactHash = highWater.artifactHash then
    revertIf (binding ≠ some ⟨health.sequence, health.artifactHash⟩)
      "accepted health generation is not bound to this reservation"
  else if health.sequence = highWater.sequence + 1 ∧
      health.priorArtifactHash = some highWater.artifactHash then do
    revertIf (∃ recoveryHash ∈ health.counterAcknowledgement.recoveryHash,
      recoveryHash ∈ highWater.consumedRecoveryAuthorizationHashes)
      "counter recovery authorization already consumed"
    revertIf (health.counters.Below highWater.counters) "counter high-water rollback"
    validateCounterAcknowledgement env (some (highWater.counters, highWater.counterAcknowledgement)) health
      expected
    revertIf (health.producer.hostId ≠ highWater.hostId ∨ health.producer.queueId ≠ highWater.queueId)
      "health host or queue identity changed"
    checkBoot highWater.bootId health "invalid signed boot transition" "spurious boot transition"
  else
    .error "health chain fork, replay, or sequence gap"

/-- The checks of the queue metrics, given the block time of the artifact. -/
def validateQueue (blockTime : ℕ) (q : QueueMetrics) : Except String Unit := do
  revertIf (q.queueBytes + q.canonicalByteHeadroom ≠ 1024 * 1024 - 64 * 1024 ∨
    q.ordinaryAdmissionHeadroom ≠ 896 - q.activeJobCount ∨
    q.urgentAdmissionHeadroom ≠ 960 - q.activeJobCount) "headroom algebra"
  revertIf (q.queuedJobCount > q.activeJobCount ∨ q.tombstoneCount ≠ q.archiveRecordCount * 2 ∨
    q.warningSlackSeconds ≠ 3600 ∨ q.criticalSlackSeconds ≠ 900) "metric consistency"
  revertIf (q.earliestLiveDeadline.isNone ≠ q.minimumChallengeSlackSeconds.isNone ∨
    ∃ deadline ∈ q.earliestLiveDeadline,
      q.minimumChallengeSlackSeconds.map Nat.cast ≠ some ((deadline : ℤ) - blockTime)) "deadline algebra"
  match q.archiveFaultHistory with
  | some history =>
      revertIf (env.textHash history.reason ≠ history.reasonHash ∨
        decide (history.status = .active) ≠ q.archiveFault.isSome ∨
        decide (history.status = .recovered) ≠ history.recoveredAtUtc.isSome)
        "archive fault history consistency"
  | none => revertIf (q.archiveFault ≠ none) "archive fault lacks history"
  revertIf (q.archiveFault ≠ none ∨ q.canonicalByteHeadroom = 0 ∨ q.ordinaryAdmissionHeadroom = 0 ∨
    q.urgentAdmissionHeadroom = 0 ∨ q.expiredDeadlineCriticalCount ≠ 0 ∨
    ∃ slack ∈ q.minimumChallengeSlackSeconds, slack ≤ q.criticalSlackSeconds) "critical queue health"

/-- The checks of `runnerHealthAdmission` before those of the chain. -/
def validateRoot (options : AdmissionOptions) (health : HealthArtifact) : Except String Unit := do
  validateRunnerHealthAuthenticity env options.expected health
  revertIf (∀ observed ∈ env.dateParse health.observedAtUtc, observed > options.now ∨
    options.now - observed > options.maxAgeMs ∨ observed ≠ health.chain.blockTime * 1000) "stale time"
  revertIf (decide (health.sequence = 1) ≠ health.priorArtifactHash.isNone) "sequence root"
  revertIf (health.sequence = 1 ∧ health.bootTransition ≠ none) "root cannot be a boot transition"
  revertIf (health.sequence > 1 ∧ options.prior = none ∧ options.highWater = none ∧
    options.permitUnanchoredSequence = false) "sequence predecessor missing"

/-- The checks of `runnerHealthAdmission` of the chain: against the artifact before and against the record. -/
def validateChain (options : AdmissionOptions) (health : HealthArtifact) : Except String Unit := do
  match options.prior with
  | some prior => validateRunnerHealthPredecessor env prior health options.expected
  | none => pure ()
  match options.highWater with
  | some highWater => validateHighWater env highWater options.reservationBinding health options.expected
  | none =>
      revertIf (options.prior = none ∧ health.sequence ≠ 1 ∧ options.permitUnanchoredSequence = false)
        "health chain must begin at sequence one"

/-- The checks of `runnerHealthAdmission` after those of the queue. -/
def validateIncidents (options : AdmissionOptions) (health : HealthArtifact) : Except String Unit := do
  if options.highWater = none ∧ options.prior = none then
    validateCounterAcknowledgement env none health options.expected
  else
    pure ()
  revertIf (health.counters ≠ health.counterAcknowledgement.baseline) "unacknowledged host counter delta"
  let plan := health.queue.runnerPlan
  revertIf (plan.maxActiveRunning ≠ 1 ∨ plan.decision ≠ .start ∨ plan.swapGuard ≠ .green ∨
    plan.hostCapacity ≠ .green ∨ plan.concurrencyGuard ≠ .green) "runner plan"

/-- `runnerHealthAdmission` of an artifact of the second version; the error is the `detail` of a refusal. -/
def runnerHealthAdmission (options : AdmissionOptions) (health : HealthArtifact) :
    Except String Green := do
  validateRoot env options health
  validateChain env options health
  validateQueue env health.chain.blockTime health.queue
  validateIncidents env options health
  if ∃ slack ∈ health.queue.minimumChallengeSlackSeconds, slack ≤ health.queue.warningSlackSeconds then
    pure .greenWarningSlack
  else
    pure .greenV2

/-- `admission.allowed` -/
def Allowed (options : AdmissionOptions) (health : HealthArtifact) : Bool :=
  (runnerHealthAdmission env options health).isOk

/-! ### The operations on the envelope file -/

def healthHighWater (health : HealthArtifact) (previous : Option HealthHighWater) :
    HealthHighWater where
  sequence := health.sequence
  artifactHash := health.artifactHash
  priorArtifactHash := health.priorArtifactHash
  hostId := health.producer.hostId
  bootId := health.producer.bootId
  queueId := health.producer.queueId
  counters := health.counters
  counterAcknowledgement := health.counterAcknowledgement
  consumedRecoveryAuthorizationHashes :=
    let consumed := (previous.map HealthHighWater.consumedRecoveryAuthorizationHashes).getD []
    match health.counterAcknowledgement.recoveryHash with
    | some recoveryHash => if recoveryHash ∈ consumed then consumed else consumed ++ [recoveryHash]
    | none => consumed

/-- The envelope file with its health record. -/
structure HealthFile where
  envelope : Envelope := {}
  highWater : Option HealthHighWater := none

inductive HealthError where
  | envelope (error : EnvelopeError)
  | reservationNotFound | highWaterNotAdvanced
deriving DecidableEq

inductive HealthReport where
  | envelope (report : Report)
  | reauthorized (sequence : ℕ) (artifactHash : String)
deriving DecidableEq

/-- An artifact as a caller offers it. -/
structure Offer where
  health : HealthArtifact
  now : ℤ
  expected : ExpectedHealth := {}
  prior : Option HealthArtifact := none

namespace HealthFile

/-- `reserveChallengeSpend` under an artifact; it is checked before the lock is taken, and again under the lock
with the record of the file. -/
def reserveChallengeSpend (day : ℕ) (input : ReserveInput) (offer : Offer) (f : HealthFile) :
    Except HealthError (HealthReport × HealthFile) :=
  let options : AdmissionOptions := { now := offer.now, expected := offer.expected, prior := offer.prior }
  let input := { input with
    healthy := Allowed env options offer.health
    admitted := Allowed env { options with highWater := f.highWater } offer.health }
  match f.envelope.reserveChallengeSpend day input with
  | .ok (report, envelope) =>
      .ok (.envelope report, ⟨envelope, some (healthHighWater offer.health f.highWater)⟩)
  | .error error => .error (.envelope error)

/-- `reauthorizeChallengeReservation`; the binding it writes on the reservation is what it reports. -/
def reauthorizeChallengeReservation (id : String) (offer : Offer) (f : HealthFile) :
    Except HealthError (HealthReport × HealthFile) :=
  match f.envelope.read with
  | .error error => .error (.envelope error)
  | .ok envelope => do
      revertIf (envelope.days.all (fun entry => has entry.2.reservations id = false) = true)
        .reservationNotFound
      revertIf (Allowed env { now := offer.now, expected := offer.expected, highWater := f.highWater }
        offer.health = false) .highWaterNotAdvanced
      pure (.reauthorized offer.health.sequence offer.health.artifactHash,
        ⟨envelope.write, some (healthHighWater offer.health f.highWater)⟩)

end HealthFile

/-- The operations on the file: the two that are offered an artifact, and every other one. -/
inductive HealthOp where
  | reserve (day : ℕ) (input : ReserveInput) (offer : Offer)
  | reauthorize (id : String) (offer : Offer)
  | other (op : EnvelopeOp)

/-- The artifact that the operation is offered. -/
def HealthOp.offered : HealthOp → Option HealthArtifact
  | reserve _ _ offer | reauthorize _ offer => some offer.health
  | other _ => none

/-- An operation that throws leaves the file as it was. -/
def HealthFile.settle (f : HealthFile) : Except HealthError (HealthReport × HealthFile) →
    Except HealthError HealthReport × HealthFile
  | .ok (report, f') => (.ok report, f')
  | .error error => (.error error, f)

/-- The report of an operation and the file after it. -/
def HealthOp.run (f : HealthFile) : HealthOp → Except HealthError HealthReport × HealthFile
  | reserve day input offer => f.settle (f.reserveChallengeSpend env day input offer)
  | reauthorize id offer => f.settle (f.reauthorizeChallengeReservation env id offer)
  | other op =>
      match op.run f.envelope with
      | (.ok report, envelope) => (.ok (.envelope report), { f with envelope })
      | (.error error, envelope) => (.error (.envelope error), { f with envelope })

/-- The file from an empty one on. -/
def system : Transition.System HealthFile HealthOp where
  init f := f.highWater = none
  step f op := some (op.run env f).2

/-- The artifacts that were accepted so far, the last one first. -/
def record (f : HealthFile) (op : HealthOp) (_ : HealthFile) (accepted : List HealthArtifact) :
    List HealthArtifact :=
  match op.offered, (op.run env f).1 with
  | some health, .ok _ => health :: accepted
  | _, _ => accepted

end P42Prizes.RunnerHealth
