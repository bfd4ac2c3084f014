import P42Prizes.HadamardMini
import P42Prizes.Idempotency

/-! # Commits and reveals of the portal

A solver commits to a solution and later reveals it.  A reveal first reads the state, then leases its
commit, runs the verifier, and records a submission in the update that also completes its request.  Only
the first commit of a solution can be credited.  Maintenance ends leases, abandons commits that have
expired and removes old records; it runs in every update, before and behind the change.

Times are milliseconds and scores are rational numbers; the chain of events is left out.  A commit bears
its place in the order of acceptance, and the log keeps the commits that maintenance has removed and every
submission that was ever recorded; no decision reads these. -/

namespace P42Prizes.PortalCommits

open Reverting Transition
open Portal (IdempotencyRecord Operation PortalError Reservation Snapshot Store updatePortalState)
open WalletNonce (isHexDigit modifyFirst)
open Verifier (Bytes Json)
export Verifier (Bytes)

/-! ### Problems and credit -/

inductive Direction where
  | minimize | maximize
deriving DecidableEq, Repr

structure Problem where
  id : ℕ
  slug : String
  direction : Direction
  seedBest : ℚ
  currentBest : ℚ
  optimum : ℚ
  minImprovement : ℚ
deriving DecidableEq

inductive SubmissionState where
  | committed | revealed | challenged | finalized | rejected | voided
deriving DecidableEq, Repr

inductive PortalDataSource where
  | localPhase0 | chainP42V1
deriving DecidableEq, Repr

inductive SettlementState where
  | unsettled | ineligible | finalized
deriving DecidableEq, Repr

structure Submission where
  serial : ℕ
  id : String
  problemId : ℕ
  problemSlug : String
  agentName : String
  source : PortalDataSource
  settlementState : SettlementState
  state : SubmissionState
  score : ℚ
  provisionalImprovement : ℚ
  solutionCid : String
  commitHash : String
  submittedAt : ℕ
  windowEndsAt : ℕ
deriving DecidableEq

/-- The rows that the best score is taken over, in any order. -/
def finalizedFrontierRows (problem : Problem) (submissions : List Submission) : List Submission :=
  submissions.filter fun submission => submission.problemId = problem.id && submission.state = .finalized &&
    submission.source = .chainP42V1 && submission.settlementState = .finalized

def betterForDirection (problem : Problem) (left right : ℚ) : ℚ :=
  match problem.direction with
  | .minimize => if left < right then left else right
  | .maximize => if right < left then left else right

def scoreDistance (problem : Problem) (fromScore toScore : ℚ) : ℚ :=
  match problem.direction with
  | .minimize => fromScore - toScore
  | .maximize => toScore - fromScore

def normalizationScale (problem : Problem) : ℚ :=
  let seedToOptimum := scoreDistance problem problem.seedBest problem.optimum
  if 0 < seedToOptimum then seedToOptimum else 1

def frontierBest (problem : Problem) (submissions : List Submission) : ℚ :=
  (finalizedFrontierRows problem submissions).foldl
    (fun best submission => betterForDirection problem submission.score best)
    (betterForDirection problem problem.currentBest problem.seedBest)

structure Credit where
  credit : ℚ
  priorBest : ℚ
  eligible : Bool

def incrementalFrontierCredit (problem : Problem) (candidateScore : ℚ) (submissions : List Submission) : Credit :=
  let priorBest := frontierBest problem submissions
  let rawDelta := scoreDistance problem priorBest candidateScore
  if rawDelta ≤ 0 then { credit := 0, priorBest, eligible := false }
  else if problem.minImprovement ≤ |rawDelta| then
    { credit := rawDelta / normalizationScale problem, priorBest, eligible := true }
  else { credit := 0, priorBest, eligible := false }

/-! ### The log -/

structure PortalLease where
  id : String
  expiresAt : ℕ
deriving DecidableEq, Repr

structure CommitRecord where
  serial : ℕ
  id : String
  problemId : ℕ
  agentName : String
  solverAddress : String
  solutionCid : String
  commitHash : String
  createdAt : ℕ
  expiresAt : ℕ
  revealed : Bool := false
  abandonedAt : Option ℕ := none
  revealLease : Option PortalLease := none
deriving DecidableEq

structure Log where
  commits : List CommitRecord := []
  submissions : List Submission := []
  accepted : ℕ := 0
  gone : List CommitRecord := []
  recorded : List Submission := []

/-- The catalogue, the functions of the platform and the limits of the portal. -/
structure Settings where
  problems : List Problem
  submissions : List Submission
  verify : String → HadamardMini.VerdictReport
  keccak256 : String → String
  sha256 : Bytes → String
  commitTtlMs : ℕ
  revealLeaseMs : ℕ
  terminalRetentionMs : ℕ
  idempotencyLeaseMs : ℕ
  idempotencyRetentionMs : ℕ
  maxCommits : ℕ
  maxSubmissions : ℕ
  maxIdempotency : ℕ
  fits : Snapshot Log Submission → Bool

/-- `problems` -/
def problems : List Problem :=
  [⟨1, "hadamard-mini", .minimize, 6, 0, 0, 1 / 6⟩,
    ⟨2, "erdos-min-overlap", .minimize,
      1424992289798782609633201801352767458976314440679252577 / 3741444197802851304404516484910431627947663875649308401,
      1424992289798782609633201801352767458976314440679252577 / 3741444197802851304404516484910431627947663875649308401,
      0, 1 / 1000000000000⟩,
    ⟨3, "edges-vs-triangles", .maximize, -16684282317138839 / 23437500000000000,
      -16684282317138839 / 23437500000000000, 0, 1 / 1000000000000⟩,
    ⟨4, "arithmetic-kakeya", .minimize, 7 / 4, 7 / 4, 1, 1 / 1000000000000⟩,
    ⟨5, "autoconvolution-c1-upper", .minimize,
      15041971118343665197137380984232095998912388144895190342004000000000000 /
        10008961702715850455872036862958802052289156042841554837278437518918769,
      15041971118343665197137380984232095998912388144895190342004000000000000 /
        10008961702715850455872036862958802052289156042841554837278437518918769,
      0, 1 / 1000000000000⟩,
    ⟨6, "autoconvolution-c2-lower", .maximize,
      140651861665566489683881393353250795846281833 / 146070932420211259869783468438333325818535926,
      140651861665566489683881393353250795846281833 / 146070932420211259869783468438333325818535926,
      1, 1 / 1000000000000⟩,
    ⟨7, "signed-autoconvolution-c3-upper", .minimize, 3 / 2, 3 / 2, 0, 1 / 1000000000000⟩,
    ⟨8, "mertens-lp-ceiling-k12000", .minimize, 249371902576813203926437 / 250000000000000000000000,
      249371902576813203926437 / 250000000000000000000000, 0, 1 / 1000000000000⟩,
    ⟨9, "pnt-sparse-mertens-construction", .maximize, 9974252022196793 / 10000000000000000,
      9974252022196793 / 10000000000000000, 10001 / 10000, 1 / 1000000000000⟩,
    ⟨10, "hadamard-668-defect", .minimize, 55444, 55444, 0, 1 / 222778⟩,
    ⟨11, "q6-intersecting-hypergraph", .minimize, 18, 18, 14, 1⟩,
    ⟨12, "distinct-subset-sums-a11", .minimize, 594, 594, 310, 1⟩,
    ⟨13, "b3-ruler-11-marks", .minimize, 445, 445, 310, 1⟩,
    ⟨14, "b3-subset-first-jump-9", .minimize, 376, 376, 151, 1⟩,
    ⟨15, "edp-c3-longest-sequence", .maximize, 130000, 130000, 2000000, 1⟩,
    ⟨16, "c4-star-ramsey-a17", .maximize, 21, 21, 22, 1⟩,
    ⟨17, "hypercube-q7-c4-free", .maximize, 304, 304, 448, 1⟩]

/-- `submissions`, the sample that the portal shows. -/
def submissions : List Submission :=
  [{  serial := 0, id := "sub_001", problemId := 1, problemSlug := "hadamard-mini", agentName := "CHRONOS"
      source := .localPhase0, settlementState := .unsettled, state := .revealed, score := 0
      provisionalImprovement := 1
      solutionCid := "sha256:4771e6e4e18ebecb9f4f74f9849f69b784319256d8bd4d04c9f62164a9cdb1b7"
      commitHash := "0x9f5cdfdb4f8216c2eef2bd22412375728354a84cfa988b391e71d587bae16ec5"
      submittedAt := 1783447800000, windowEndsAt := 1783707000000 }]

/-- The portal with its own catalogue and the verifier of the pilot problem. -/
def deployed (loads : Bytes → Except String Json) (p : Settings) : Settings :=
  { p with
    problems := problems
    submissions := submissions
    verify := fun solutionRaw => HadamardMini.reportForSolution loads p.sha256 solutionRaw.toUTF8.toList }

variable (p : Settings)

def getProblemById (id : ℕ) : Option Problem := p.problems.find? fun problem => problem.id = id

def commitIsExpired (now : ℕ) (commit : CommitRecord) : Bool :=
  commit.abandonedAt.isSome || commit.expiresAt ≤ now

def leaseIsActive (now : ℕ) (lease : PortalLease) : Bool := now < lease.expiresAt

/-- The round of `maintainPortalState` over the commits. -/
def maintainCommit (now : ℕ) (commit : CommitRecord) : CommitRecord :=
  let commit := { commit with revealLease := commit.revealLease.filter (leaseIsActive now) }
  if commit.revealed = false ∧ commit.abandonedAt = none ∧ commit.revealLease = none ∧
      commitIsExpired now commit = true then
    { commit with abandonedAt := some now }
  else commit

/-- When a commit ended, if it did. -/
def terminalAt (commit : CommitRecord) : Option ℕ :=
  commit.abandonedAt.or (if commit.revealed then some commit.createdAt else none)

def keepsCommit (now : ℕ) (commit : CommitRecord) : Bool :=
  match terminalAt commit with
  | none => true
  | some terminal => now ≤ terminal + p.terminalRetentionMs

def keepsSubmission (now : ℕ) (submission : Submission) : Bool :=
  submission.source = .chainP42V1 || now ≤ submission.submittedAt + p.terminalRetentionMs

/-- What `maintainPortalState` does to commits and submissions. -/
def maintainLog (now : ℕ) (log : Log) : Log :=
  let commits := log.commits.map (maintainCommit now)
  { log with
    commits := commits.filter (keepsCommit p now)
    gone := log.gone ++ commits.filter (fun commit => !keepsCommit p now commit)
    submissions := log.submissions.filter (keepsSubmission p now) }

def store : Store Log Submission where
  idempotencyLeaseMs := p.idempotencyLeaseMs
  idempotencyRetentionMs := p.idempotencyRetentionMs
  maxIdempotency := p.maxIdempotency
  maintainRest := maintainLog p
  appendPortalEvent _ log := log
  fits := p.fits
  sha256 := p.sha256

/-! ### Committing -/

/-- `COMMIT_HASH` and `EVM_ADDRESS` -/
def isHexText (digits : ℕ) (value : String) : Bool :=
  match value.toList with
  | '0' :: 'x' :: hex => hex.length = digits && hex.all isHexDigit
  | _ => false

def failed {α : Type} (message : String) : Except PortalError α := .error (.operationFailed message)

def normalizeSolverAddress (address : String) : Except PortalError String :=
  if isHexText 40 address then .ok address.toLower
  else failed "solver_address must be a 20-byte 0x-prefixed EVM address"

/-- The length of a text in UTF-16 units. -/
def utf16Length (text : String) : ℕ :=
  (text.toList.map fun c => if c.toNat < 0x10000 then 1 else 2).sum

/-- `commitHash`, of a normalized address. -/
def commitHash (solutionCid solverAddress salt : String) : String :=
  "0x" ++ p.keccak256 (s!"p42:v0|cid:{utf16Length solutionCid}:{solutionCid}|solver:{solverAddress}|" ++
    s!"salt:{utf16Length salt}:{salt}")

structure CommitInput where
  problemId : ℕ
  agentName : String
  solutionCid : String
  solverAddress : String
  commitHash : Option String
  devSalt : Option String

/-- `prepareCommit`, with the id and the time it draws; an empty salt counts as none. -/
def prepareCommit (id : String) (createdAt : ℕ) (input : CommitInput) : Except PortalError CommitRecord := do
  let solverAddress ← normalizeSolverAddress input.solverAddress
  let computedHash := (input.devSalt.filter (· ≠ "")).map (commitHash p input.solutionCid solverAddress)
  match input.commitHash.or computedHash with
  | none => failed "commit_hash is required unless dev_salt is supplied for local simulation"
  | some commitHash => do
      revertIf (isHexText 64 commitHash = false)
        (.operationFailed "commit_hash must be a 32-byte 0x-prefixed hash")
      pure
        { serial := 0, id, problemId := input.problemId, agentName := input.agentName, solverAddress
          solutionCid := input.solutionCid, commitHash := commitHash.toLower, createdAt
          expiresAt := createdAt + p.commitTtlMs }

def persistCommit (record : CommitRecord) (log : Log) : Except PortalError Log := do
  revertIf (∃ commit ∈ log.commits, commit.commitHash = record.commitHash)
    (.operationFailed "a commit with this commit_hash already exists")
  revertIf (p.maxCommits ≤ log.commits.length) .capacityReached
  pure { log with
    commits := log.commits ++ [{ record with serial := log.accepted }]
    accepted := log.accepted + 1 }

/-! ### Revealing -/

structure RevealInput where
  commitId : String
  salt : String
  solutionRaw : String
  problemSlug : String
  solverAddress : String

/-- What a reveal has read before it takes its lease. -/
structure Opened where
  record : CommitRecord
  problem : Problem
  solverAddress : String

def sha256SolutionCid (rawSolution : String) : String := p.sha256 rawSolution.toUTF8.toList

def assertSolutionMatchesCid (solutionCid rawSolution : String) : Except PortalError Unit := do
  revertIf (¬ "sha256:".toList <+: solutionCid.toList) (.operationFailed
    "Phase 0 reveal requires solution_cid=sha256:<raw-solution-hash>; external CID retrieval is not wired")
  revertIf (sha256SolutionCid p rawSolution ≠ solutionCid.toLower)
    (.operationFailed "revealed solution bytes do not match committed solution_cid")

/-- The checks of `revealCommit` on the state that it reads first. -/
def openCommit (now : ℕ) (input : RevealInput) (log : Log) : Except PortalError Opened :=
  match log.commits.find? fun commit => commit.id = input.commitId with
  | none => failed "commit not found"
  | some record => do
      revertIf (record.revealed = true) (.operationFailed "commit already revealed")
      revertIf (commitIsExpired now record = true) (.operationFailed "commit expired before reveal")
      match getProblemById p record.problemId with
      | none => failed "problem not found"
      | some problem => do
          revertIf (problem.slug ≠ input.problemSlug) (.operationFailed "problem does not match commit")
          let solverAddress ← normalizeSolverAddress input.solverAddress
          revertIf (solverAddress ≠ record.solverAddress)
            (.operationFailed "solver_address does not match commit owner")
          revertIf (commitHash p record.solutionCid solverAddress input.salt ≠ record.commitHash)
            (.operationFailed "commit preimage does not match recorded hash")
          revertIf (input.problemSlug ≠ "hadamard-mini")
            (.operationFailed "external verifier runner is not wired in the Phase 0 portal")
          assertSolutionMatchesCid p record.solutionCid input.solutionRaw
          pure { record, problem, solverAddress }

/-- A reveal reserves its commit. -/
def reserveReveal (now : ℕ) (commitId leaseId : String) (log : Log) : Except PortalError Log :=
  match log.commits.find? fun commit => commit.id = commitId with
  | none => failed "commit not found"
  | some storedCommit => do
      revertIf (storedCommit.revealed = true) (.operationFailed "commit already revealed")
      revertIf (commitIsExpired now storedCommit = true) (.operationFailed "commit expired before reveal")
      revertIf (∃ lease ∈ storedCommit.revealLease, leaseIsActive now lease = true)
        (.operationFailed "commit reveal already in progress")
      pure { log with
        commits := modifyFirst (fun commit => commit.id = commitId)
          (fun commit => { commit with revealLease := some ⟨leaseId, now + p.revealLeaseMs⟩ }) log.commits }

/-- The commits that count for the priority of a solution. -/
def competes (now problemId : ℕ) (solutionCid : String) (commit : CommitRecord) : Bool :=
  commit.problemId = problemId && commit.solutionCid = solutionCid && commit.abandonedAt = none &&
    (commit.revealed || commit.revealLease.isSome || !commitIsExpired now commit)

/-- A reveal in progress. -/
inductive Stage where
  | opened | reserved | failed | done
deriving DecidableEq, Repr

structure Reveal extends Opened where
  input : RevealInput
  leaseId : String
  stage : Stage

/-- The operation that records the submission of a reveal; `now` is the clock within the update. -/
def recordReveal (now : ℕ) (submissionId : String) (reveal : Reveal) : Operation Log Submission := fun log =>
  match log.commits.find? fun commit => commit.id = reveal.input.commitId with
  | none => failed "commit not found"
  | some storedCommit => do
      revertIf (storedCommit.revealed = true) (.operationFailed "commit already revealed")
      revertIf (∀ lease ∈ storedCommit.revealLease, lease.id ≠ reveal.leaseId)
        (.operationFailed "reveal lease expired; retry the reveal")
      let verdict := p.verify reveal.input.solutionRaw
      let firstMatchingCommit := log.commits.find? (competes now reveal.record.problemId reveal.record.solutionCid)
      let isFirstCommitter := firstMatchingCommit.any fun commit => commit.id = storedCommit.id
      let settlement :=
        if verdict.valid && isFirstCommitter then
          incrementalFrontierCredit reveal.problem verdict.score (p.submissions ++ log.submissions)
        else { credit := 0, priorBest := reveal.problem.currentBest, eligible := false }
      let submission : Submission :=
        { serial := storedCommit.serial, id := submissionId, problemId := reveal.record.problemId
          problemSlug := reveal.input.problemSlug, agentName := reveal.record.agentName
          source := .localPhase0
          settlementState := if verdict.valid && settlement.eligible then .unsettled else .ineligible
          state := if verdict.valid && settlement.eligible then .revealed else .rejected
          score := verdict.score, provisionalImprovement := settlement.credit
          solutionCid := reveal.record.solutionCid, commitHash := reveal.record.commitHash
          submittedAt := now, windowEndsAt := now + 72 * 60 * 60 * 1000 }
      revertIf (p.maxSubmissions ≤ log.submissions.length) .capacityReached
      pure (submission, { log with
        commits := modifyFirst (fun commit => commit.id = reveal.input.commitId)
          (fun commit => { commit with revealed := true, revealLease := none }) log.commits
        submissions := log.submissions ++ [submission]
        recorded := log.recorded ++ [submission] })

/-- A reveal that has failed gives its lease back. -/
def releaseReveal (commitId leaseId : String) (log : Log) : Log :=
  { log with
    commits := modifyFirst (fun commit => commit.id = commitId)
      (fun commit =>
        if commit.revealed = false ∧ commit.revealLease.any (fun lease => lease.id = leaseId) = true then
          { commit with revealLease := none }
        else commit) log.commits }

/-! ### The portal at work -/

structure World where
  snapshot : Snapshot Log Submission
  clock : ℕ
  reveals : List Reveal

/-- An attempt, with the clock before and behind its update and the clock that the change reads.  A reveal
whose process dies makes no more attempts. -/
inductive Attempt where
  | commit (input : CommitInput) (commitId : String) (createdAt before behind : ℕ)
  | begin (input : RevealInput) (leaseId : String) (now : ℕ)
  | reserve (leaseId : String) (before now behind : ℕ)
  | record (leaseId : String) (reservation : Option Reservation) (submissionId : String)
      (before now behind : ℕ)
  | release (leaseId : String) (before behind : ℕ)
  | other (change : List (IdempotencyRecord Submission) →
      Except PortalError (List (IdempotencyRecord Submission))) (before behind : ℕ)

/-- The change of an update that leaves the idempotency records. -/
def onLog (change : Log → Except PortalError Log) (s : Snapshot Log Submission) :
    Except PortalError (Unit × Snapshot Log Submission) := do
  let rest ← change s.rest
  pure ((), { s with rest })

/-- The change of `completeIdempotentOperation`; a request may have no reservation. -/
def completeOperation (reservation : Option Reservation) (operation : Operation Log Submission)
    (s : Snapshot Log Submission) : Except PortalError (Unit × Snapshot Log Submission) :=
  match reservation with
  | none => do
      let (_, rest) ← operation s.rest
      pure ((), { s with rest })
  | some reservation => do
      let (_, s) ← Portal.completeIdempotentOperation (store p) reservation
        (fun submission => if submission.state = .revealed then 201 else 422) operation s
      pure ((), s)

/-- The reveal of a lease enters a stage. -/
def World.setStage (leaseId : String) (stage : Stage) (w : World) : World :=
  { w with reveals := w.reveals.map fun reveal =>
      if reveal.leaseId = leaseId then { reveal with stage } else reveal }

/-- The world behind an update; one that fails changes nothing but the clock. -/
def World.update (before behind : ℕ)
    (change : Snapshot Log Submission → Except PortalError (Unit × Snapshot Log Submission))
    (done failed : World → World) (w : World) : World :=
  match updatePortalState (store p) before behind change w.snapshot with
  | .ok (_, snapshot) => done { w with snapshot, clock := behind }
  | .error _ => failed { w with clock := behind }

def World.reveal? (w : World) (leaseId : String) (stages : List Stage) : Option Reveal :=
  w.reveals.find? fun reveal => reveal.leaseId = leaseId && reveal.stage ∈ stages

/-- One attempt; the clock does not go back and lease ids are fresh. -/
def step (w : World) : Attempt → Option World
  | .commit input commitId createdAt before behind =>
      if w.clock ≤ before ∧ before ≤ behind ∧ createdAt ≤ before then
        some (w.update p before behind (onLog fun log => do
          let record ← prepareCommit p commitId createdAt input
          persistCommit p record log) id id)
      else none
  | .begin input leaseId now =>
      if w.clock ≤ now ∧ leaseId ∉ w.reveals.map Reveal.leaseId then
        match openCommit p now input w.snapshot.rest with
        | .ok opened => some { w with
            clock := now, reveals := { toOpened := opened, input, leaseId, stage := .opened } :: w.reveals }
        | .error _ => some { w with clock := now }
      else none
  | .reserve leaseId before now behind =>
      if w.clock ≤ before ∧ before ≤ now ∧ now ≤ behind then
        (w.reveal? leaseId [.opened]).map fun reveal =>
          w.update p before behind (onLog (reserveReveal p now reveal.input.commitId leaseId))
            (World.setStage leaseId .reserved) (World.setStage leaseId .done)
      else none
  | .record leaseId reservation submissionId before now behind =>
      if w.clock ≤ before ∧ before ≤ now ∧ now ≤ behind then
        (w.reveal? leaseId [.reserved]).map fun reveal =>
          w.update p before behind (completeOperation p reservation (recordReveal p now submissionId reveal))
            (World.setStage leaseId .done) (World.setStage leaseId .failed)
      else none
  | .release leaseId before behind =>
      if w.clock ≤ before ∧ before ≤ behind then
        (w.reveal? leaseId [.reserved, .failed]).map fun reveal =>
          w.update p before behind (onLog fun log => .ok (releaseReveal reveal.input.commitId leaseId log))
            (World.setStage leaseId .done) (World.setStage leaseId .done)
      else none
  | .other change before behind =>
      if w.clock ≤ before ∧ before ≤ behind then
        some (w.update p before behind (fun s => do
          let idempotency ← change s.idempotency
          pure ((), { s with idempotency })) id id)
      else none

/-- A portal without commits and reveals. -/
def system : System World Attempt where
  init w := w.snapshot.rest = {} ∧ w.reveals = []
  step := step p

end P42Prizes.PortalCommits
