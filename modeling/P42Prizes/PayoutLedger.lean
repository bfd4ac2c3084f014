import P42Prizes.Deployment

/-! # The payout ledger

`P42PayoutLedger` keeps the credit of the solvers until `close` and fixes the pool balance the
credits share.  Closed with credit, every solver is entitled to the floor of its share, which
the pool consumes through `consumeClaim`; closed without credit, the sponsors are refunded.

What the ledger reads from the pool and from its credit recorder is passed as the values of
the interfaces `IP42EscrowPool` and `IP42CreditCloseGuard`.  `_sweepRollover`, which also
moves money in the pool, is in `BountyPool.lean`. -/

namespace P42Prizes

open Reverting Function

inductive LedgerEvent where
  | newActionsPaused (paused : Bool)
  | creditRecorderSet (recorder : Address)
  | rolloverDestinationSet (destination : Address)
  | creditRecorded (solver : Address) (atoms totalCreditAtoms : ℕ)
  | creditVoided (solver : Address) (atoms totalCreditAtoms : ℕ)
  | closed (poolBalance feeReserve closedAt claimDeadline : ℕ)
  | claimConsumed (solver : Address) (grossAmount feeAmount : ℕ)
  | rolloverSwept (destination : Address) (amount : ℕ)
deriving DecidableEq, Repr

/-- The storage of `P42PayoutLedger`, with the events it has emitted, newest first. -/
structure PayoutLedger where
  closed : Bool := false
  pausedNewActions : Bool := false
  rolloverSwept : Bool := false
  residualSwept : Bool := false
  closedAt : ℕ := 0
  creditRecorder : Address := 0
  rolloverDestination : Address := 0
  closedPoolBalance : ℕ := 0
  feeReserve : ℕ := 0
  totalCreditAtoms : ℕ := 0
  totalGrossClaimed : ℕ := 0
  totalFeeAccrued : ℕ := 0
  creditAtomsOf : Address → ℕ := fun _ => 0
  claimedWeiOf : Address → ℕ := fun _ => 0
  logs : List LedgerEvent := []

/-- `IP42CreditCloseGuard` -/
structure CreditCloseGuard where
  openSubmissionCount : ℕ
  pausedAll : Bool
  creditRecoveryEndsAt : ℕ

/-- `IP42EscrowPool`, the part read by `setRolloverDestination` -/
structure EscrowPoolBinding where
  registry : Address
  problemId : ℕ

namespace PayoutLedger

variable (d : Deployment) (e : Env)

def emit (ev : LedgerEvent) (l : PayoutLedger) : PayoutLedger := { l with logs := ev :: l.logs }

def onlyOwner : Outcome Unit := revertIf (e.sender ≠ d.lc.owner) (fail .notOwner)

def setPausedNewActions (paused : Bool) (l : PayoutLedger) : Outcome PayoutLedger := do
  onlyOwner d e
  pure ({ l with pausedNewActions := paused }.emit (.newActionsPaused paused))

def setCreditRecorder (recorder : Address) (l : PayoutLedger) : Outcome PayoutLedger := do
  onlyOwner d e
  require (recorder ≠ 0) (fail .recorderZero)
  revertIf (l.creditRecorder ≠ 0) (fail .creditRecorderAlreadySet)
  pure ({ l with creditRecorder := recorder }.emit (.creditRecorderSet recorder))

def setRolloverDestination (pool : EscrowPoolBinding) (destination : Address)
    (l : PayoutLedger) : Outcome PayoutLedger := do
  onlyOwner d e
  revertIf (l.rolloverDestination ≠ 0) (fail .rolloverAlreadySet)
  revertIf (destination = d.lc.treasury) (fail .rolloverDestinationNotSeparate)
  revertIf (e.ext.codehash destination ≠ d.vaultCodehash) (fail .rolloverDestinationInvalid)
  revertIf (pool.registry = 0) (fail .poolRegistryNotSet)
  revertIf (pool.problemId = 0 ∨ e.ext.problemPool pool.registry pool.problemId ≠ d.pool)
    (fail .poolRegistryBindingInvalid)
  revertIf (e.ext.vaultRegistry destination ≠ pool.registry)
    (fail .rolloverRegistryMismatch [pool.registry.toNat, (e.ext.vaultRegistry destination).toNat])
  revertIf (e.ext.vaultAllocator destination ≠ d.lc.owner)
    (fail .rolloverAllocatorMismatch [d.lc.owner.toNat, (e.ext.vaultAllocator destination).toNat])
  pure ({ l with rolloverDestination := destination }.emit (.rolloverDestinationSet destination))

/-- Until the recorder is set, the owner records. -/
def requireRecorder (l : PayoutLedger) : Outcome Unit :=
  if l.creditRecorder = 0 then revertIf (e.sender ≠ d.lc.owner) (fail .notCreditRecorder)
  else revertIf (e.sender ≠ l.creditRecorder) (fail .notCreditRecorder)

def recordCredit (solver : Address) (atoms : ℕ) (l : PayoutLedger) : Outcome PayoutLedger := do
  l.requireRecorder d e
  revertIf l.closed (fail .closed)
  revertIf l.pausedNewActions (fail .pausedNewActions)
  revertIf (atoms = 0) (fail .zeroCredit)
  require (solver ≠ 0) (fail .solverZero)
  let total := l.totalCreditAtoms
  let solverCredit := l.creditAtomsOf solver
  let headroom ← subU maxTotalCreditAtoms total
  revertIf (atoms > headroom) (fail .creditBoundExceeded [atoms, headroom])
  let solverHeadroom ← subU maxTotalCreditAtoms solverCredit
  revertIf (atoms > solverHeadroom) (fail .creditBoundExceeded [atoms, solverHeadroom])
  pure ({ l with
    totalCreditAtoms := total + atoms
    creditAtomsOf := update l.creditAtomsOf solver (solverCredit + atoms) }.emit
      (.creditRecorded solver atoms (total + atoms)))

def voidCredit (solver : Address) (atoms : ℕ) (l : PayoutLedger) : Outcome PayoutLedger := do
  revertIf (e.sender ≠ l.creditRecorder) (fail .notCreditRecorder)
  revertIf l.closed (fail .closed)
  revertIf (atoms = 0) (fail .zeroCredit)
  let credited := l.creditAtomsOf solver
  revertIf (credited < atoms ∨ l.totalCreditAtoms < atoms)
    (fail .voidExceedsCredit [credited, atoms])
  pure ({ l with
    creditAtomsOf := update l.creditAtomsOf solver (credited - atoms)
    totalCreditAtoms := l.totalCreditAtoms - atoms }.emit
      (.creditVoided solver atoms (l.totalCreditAtoms - atoms)))

def provisionalEntitlement (funded : ℕ) (solver : Address) (additionalAtoms : ℕ)
    (l : PayoutLedger) : Outcome ℕ := do
  let total := l.totalCreditAtoms
  let solverCredit := l.creditAtomsOf solver
  let headroom ← subU maxTotalCreditAtoms total
  revertIf (additionalAtoms > headroom) (fail .creditBoundExceeded [additionalAtoms, headroom])
  let solverHeadroom ← subU maxTotalCreditAtoms solverCredit
  revertIf (additionalAtoms > solverHeadroom)
    (fail .creditBoundExceeded [additionalAtoms, solverHeadroom])
  let denominator := total + additionalAtoms
  if denominator = 0 then pure 0
  else mulDiv funded (solverCredit + additionalAtoms) denominator

/-! ### After the close -/

def fundingDeadline : ℕ := d.lc.closeByTimestamp - minCompetitionSeconds

def effectiveEarliestCloseTimestamp (firstFundedAt : ℕ) : Outcome ℕ :=
  if firstFundedAt = 0 then pure d.lc.earliestCloseTimestamp
  else do
    let fundedEarliest ← addU64 firstFundedAt minCompetitionSeconds
    pure (max fundedEarliest d.lc.earliestCloseTimestamp)

def positiveCreditClose (l : PayoutLedger) : Bool := l.closed && decide (l.totalCreditAtoms ≠ 0)

def sponsorRefundsEnabled (l : PayoutLedger) : Bool := l.closed && decide (l.totalCreditAtoms = 0)

def claimDeadline (l : PayoutLedger) : Outcome ℕ :=
  if l.positiveCreditClose then addU64 l.closedAt claimDeadlineSeconds else pure 0

/-- The checks `close` makes with the credit recorder, if there is one. -/
def requireSettled (recorder : CreditCloseGuard) (l : PayoutLedger) : Outcome Unit :=
  if l.creditRecorder ≠ 0 then do
    revertIf (recorder.openSubmissionCount ≠ 0)
      (fail .openSubmissions [recorder.openSubmissionCount])
    revertIf recorder.pausedAll (fail .fullPauseActive)
    revertIf (e.now < recorder.creditRecoveryEndsAt)
      (fail .creditRecoveryWindowOpen [recorder.creditRecoveryEndsAt, e.now])
  else pure ()

def close (funded : ℕ) (recorder : CreditCloseGuard) (l : PayoutLedger) :
    Outcome PayoutLedger := do
  revertIf l.closed (fail .closed)
  revertIf (e.now < d.lc.closeByTimestamp)
    (fail .closeByNotReached [d.lc.closeByTimestamp, e.now])
  revertIf (l.rolloverDestination = 0) (fail .rolloverDestinationNotSet)
  l.requireSettled e recorder
  let l := { l with
    closed := true
    closedAt := e.now
    closedPoolBalance := funded
    feeReserve := 0 }
  let deadline ← l.claimDeadline
  pure (l.emit (.closed funded 0 e.now deadline))

def finalEntitlement (solver : Address) (l : PayoutLedger) : Outcome ℕ :=
  if l.positiveCreditClose then
    mulDiv l.closedPoolBalance (l.creditAtomsOf solver) l.totalCreditAtoms
  else pure 0

def claimable (solver : Address) (l : PayoutLedger) : Outcome ℕ :=
  if l.positiveCreditClose then do
    let deadline ← l.claimDeadline
    if e.now > deadline then pure 0
    else do
      let entitlement ← l.finalEntitlement solver
      pure (entitlement - l.claimedWeiOf solver)
  else pure 0

/-- Returns `(grossAmount, feeAmount)`. -/
def consumeClaim (solver : Address) (l : PayoutLedger) : Outcome ((ℕ × ℕ) × PayoutLedger) := do
  revertIf (e.sender ≠ d.pool) (fail .notPool)
  revertIf (¬ l.closed) (fail .notClosed)
  if l.positiveCreditClose then
    let deadline ← l.claimDeadline
    revertIf (e.now > deadline) (fail .claimsExpired [deadline, e.now])
    let grossAmount ← l.claimable e solver
    let claimed ← addU256 (l.claimedWeiOf solver) grossAmount
    let feeAmount ← mulDiv grossAmount d.lc.feeBps 10000
    let totalGross ← addU256 l.totalGrossClaimed grossAmount
    let totalFee ← addU256 l.totalFeeAccrued feeAmount
    let l := { l with
      claimedWeiOf := update l.claimedWeiOf solver claimed
      totalGrossClaimed := totalGross
      totalFeeAccrued := totalFee }
    pure ((grossAmount, feeAmount), l.emit (.claimConsumed solver grossAmount feeAmount))
  else pure ((0, 0), l)

/-- The guards and the flags of `_sweepRollover`. -/
def beginSweep (l : PayoutLedger) : Outcome PayoutLedger := do
  revertIf (¬ l.closed) (fail .notClosed)
  revertIf (¬ l.positiveCreditClose) (fail .rolloverNotAvailable)
  let deadline ← l.claimDeadline
  revertIf (e.now ≤ deadline) (fail .claimsNotExpired [deadline, e.now])
  revertIf l.rolloverSwept (fail .rolloverAlreadySwept)
  pure { l with rolloverSwept := true, residualSwept := true }

/-! ### What each call does -/

variable {d e} {l l' : PayoutLedger}

@[simp] theorem emit_closed (ev : LedgerEvent) : (l.emit ev).closed = l.closed := rfl
@[simp] theorem emit_closedAt (ev : LedgerEvent) : (l.emit ev).closedAt = l.closedAt := rfl
@[simp] theorem emit_rolloverSwept (ev : LedgerEvent) :
    (l.emit ev).rolloverSwept = l.rolloverSwept := rfl
@[simp] theorem emit_creditRecorder (ev : LedgerEvent) :
    (l.emit ev).creditRecorder = l.creditRecorder := rfl
@[simp] theorem emit_rolloverDestination (ev : LedgerEvent) :
    (l.emit ev).rolloverDestination = l.rolloverDestination := rfl
@[simp] theorem emit_closedPoolBalance (ev : LedgerEvent) :
    (l.emit ev).closedPoolBalance = l.closedPoolBalance := rfl
@[simp] theorem emit_totalCreditAtoms (ev : LedgerEvent) :
    (l.emit ev).totalCreditAtoms = l.totalCreditAtoms := rfl
@[simp] theorem emit_totalGrossClaimed (ev : LedgerEvent) :
    (l.emit ev).totalGrossClaimed = l.totalGrossClaimed := rfl
@[simp] theorem emit_totalFeeAccrued (ev : LedgerEvent) :
    (l.emit ev).totalFeeAccrued = l.totalFeeAccrued := rfl
@[simp] theorem emit_creditAtomsOf (ev : LedgerEvent) :
    (l.emit ev).creditAtomsOf = l.creditAtomsOf := rfl
@[simp] theorem emit_claimedWeiOf (ev : LedgerEvent) :
    (l.emit ev).claimedWeiOf = l.claimedWeiOf := rfl

theorem recordCredit_eq_ok {solver : Address} {atoms : ℕ} :
    recordCredit d e solver atoms l = .ok l' ↔
      l.requireRecorder d e = .ok () ∧ l.closed = false ∧ l.pausedNewActions = false ∧
      atoms ≠ 0 ∧ solver ≠ 0 ∧ l.totalCreditAtoms + atoms ≤ maxTotalCreditAtoms ∧
      l.creditAtomsOf solver + atoms ≤ maxTotalCreditAtoms ∧
      { l with
        totalCreditAtoms := l.totalCreditAtoms + atoms
        creditAtomsOf := update l.creditAtomsOf solver (l.creditAtomsOf solver + atoms) }.emit
          (.creditRecorded solver atoms (l.totalCreditAtoms + atoms)) = l' := by
  simp only [recordCredit, bind_eq_ok, revertIf_eq_ok, checkedSub_eq_ok, require_eq_ok, pure_eq_ok,
    exists_const, and_assoc, exists_and_left, exists_eq_left', Bool.not_eq_true, gt_iff_lt, not_lt,
    ne_eq, Unique.exists_iff, PUnit.default_eq_unit]
  constructor
  · rintro ⟨hrec, hclosed, hpaused, hatoms, hsolver, h1, h2, h3, h4, rfl⟩
    exact ⟨hrec, hclosed, hpaused, hatoms, hsolver, by omega, by omega, rfl⟩
  · rintro ⟨hrec, hclosed, hpaused, hatoms, hsolver, h1, h2, rfl⟩
    exact ⟨hrec, hclosed, hpaused, hatoms, hsolver, by omega, by omega, by omega, by omega, rfl⟩

end PayoutLedger
end P42Prizes
