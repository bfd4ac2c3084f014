import P42Prizes.PayoutLedger

/-! # The bounty pool

`P42BountyPool` holds the ETH of one problem.  Sponsors fund it before the close; afterwards
solvers claim or donate their share, sponsors are refunded, the treasury takes the fees and
the ledger sweeps the residual.

Every payout makes one call with value to its payee.  The payee runs before the call of the
pool is finished, so each payout is modelled in two halves: the first makes the checks and all
the bookkeeping and returns the `Payout` that is pending, `pay` hands over the ETH, and
`finish` is the rest of the function, run when the payee has returned.  In between the flag
`_claiming` stays set and any call of any contract may come. -/

namespace P42Prizes

open Reverting Function

inductive PoolEvent where
  | ledgerSet (ledger : Address)
  | submissionManagerSet (submissionManager : Address)
  | registrySet (registry : Address) (problemId : ℕ)
  | acceptingFundsSet (acceptingFunds : Bool)
  | funded (sender : Address) (amount newBalance fundingCap earliestCloseTimestamp
      closeByTimestamp : ℕ)
  | sponsorshipFunded (payer sponsor : Address) (amount sponsorPrincipal accountedBalance : ℕ)
  | sponsorRefunded (sponsor recipient : Address) (principal : ℕ)
  | claimed (solver : Address) (amount : ℕ)
  | claimedTo (solver recipient : Address) (amount : ℕ)
  | solverClaimSettled (solver recipient : Address) (grossAmount solverPayment feeAmount : ℕ)
  | winningsDonated (solver destinationPool : Address) (grossAmount donatedAmount feeAmount : ℕ)
  | feePaid (recipient : Address) (amount : ℕ)
  | feeAccrued (solver : Address) (amount accruedFeeBalance : ℕ)
  | feeClaimed (treasury recipient : Address) (amount : ℕ)
  | rolloverPaid (recipient : Address) (amount : ℕ)
  | forcedEthRecovered (recipient : Address) (amount remainingForcedEth : ℕ)
  | forcedEthSwept (caller destination : Address) (amount remainingForcedEth : ℕ)
deriving DecidableEq, Repr

/-- The storage of `P42BountyPool`, its ETH balance and its events, newest first. -/
structure BountyPool where
  ledger : Address := 0
  submissionManager : Address := 0
  registry : Address := 0
  problemId : ℕ := 0
  acceptingFunds : Bool := false
  everFunded : Bool := false
  firstFundedAt : ℕ := 0
  accountedBalance : ℕ := 0
  totalFunded : ℕ := 0
  totalClaimed : ℕ := 0
  totalWinningsDonated : ℕ := 0
  totalGrossClaimed : ℕ := 0
  totalFeeAccrued : ℕ := 0
  totalFeePaid : ℕ := 0
  accruedFeeBalance : ℕ := 0
  totalSponsorRefunded : ℕ := 0
  totalRolloverPaid : ℕ := 0
  totalForcedEthRecovered : ℕ := 0
  totalResidualPaid : ℕ := 0
  sponsorshipOf : Address → ℕ := fun _ => 0
  claiming : Bool := false
  balance : ℕ := 0
  logs : List PoolEvent := []

/-- `ISubmissionManagerArmed` -/
structure SubmissionManagerArmed where
  fundingArmed : Bool
  fundingAuthorizationExpiresAt : ℕ
  objectiveProofCapabilityActive : Bool

/-- A payout whose payee is being called. -/
inductive Payout where
  | claim (solver recipient : Address) (grossAmount solverPayment feeAmount : ℕ)
  | donation (solver destinationPool : Address) (grossAmount donatedAmount feeAmount : ℕ)
  | refund (sponsor recipient : Address) (principal : ℕ)
  | fee (recipient : Address) (amount : ℕ)
  | rollover (recipient : Address) (amount : ℕ)
  | forced (caller destination : Address) (amount : ℕ)
deriving DecidableEq, Repr

namespace Payout

def payee : Payout → Address
  | claim _ recipient _ _ _ => recipient
  | donation _ destinationPool _ _ _ => destinationPool
  | refund _ recipient _ => recipient
  | fee recipient _ => recipient
  | rollover recipient _ => recipient
  | forced _ destination _ => destination

def value : Payout → ℕ
  | claim _ _ _ solverPayment _ => solverPayment
  | donation _ _ _ donatedAmount _ => donatedAmount
  | refund _ _ principal => principal
  | fee _ amount => amount
  | rollover _ amount => amount
  | forced _ _ amount => amount

end Payout

namespace BountyPool

variable (d : Deployment) (e : Env)

def emit (ev : PoolEvent) (p : BountyPool) : BountyPool := { p with logs := ev :: p.logs }

def onlyOwner : Outcome Unit := revertIf (e.sender ≠ d.pc.owner) (fail .notOwner)

/-! ### Administration -/

def setLedger (ledger : Address) (p : BountyPool) : Outcome BountyPool := do
  onlyOwner d e
  revertIf (p.ledger ≠ 0) (fail .ledgerAlreadySet)
  require (ledger ≠ 0) (fail .ledgerZero)
  pure ({ p with ledger := ledger }.emit (.ledgerSet ledger))

def setSubmissionManager (submissionManager : Address) (p : BountyPool) : Outcome BountyPool := do
  onlyOwner d e
  revertIf (p.submissionManager ≠ 0) (fail .submissionManagerAlreadySet)
  require (submissionManager ≠ 0) (fail .submissionManagerZero)
  pure ({ p with submissionManager := submissionManager }.emit
    (.submissionManagerSet submissionManager))

def setRegistry (registry : Address) (problemId : ℕ) (p : BountyPool) : Outcome BountyPool := do
  onlyOwner d e
  revertIf (p.registry ≠ 0) (fail .registryAlreadySet)
  require (registry ≠ 0) (fail .registryZero)
  revertIf (problemId = 0 ∨ e.ext.problemPool registry problemId ≠ d.pool)
    (fail .badProblemBinding)
  pure ({ p with registry := registry, problemId := problemId }.emit
    (.registrySet registry problemId))

def requireFrozenRegistryBinding (registry : Address) (p : BountyPool) : Outcome Unit := do
  revertIf (e.ext.problemPool registry p.problemId ≠ d.pool) (fail .badProblemBinding)
  revertIf (e.ext.explicitlyFrozen registry p.problemId = false) (fail .problemNotFrozen)

/-- The checks of `setAcceptingFunds(true)`. -/
def requireLaunched (manager : SubmissionManagerArmed) (l : PayoutLedger) (p : BountyPool) :
    Outcome Unit := do
  revertIf (p.ledger = 0) (fail .ledgerNotSet)
  revertIf (l.rolloverDestination = 0) (fail .rolloverDestinationNotSet)
  let deadline := PayoutLedger.fundingDeadline d
  revertIf (e.now > deadline) (fail .fundingWindowClosed [deadline, e.now])
  revertIf (p.registry = 0) (fail .registryNotSet)
  p.requireFrozenRegistryBinding d e p.registry
  revertIf (l.creditRecorder ≠ p.submissionManager)
    (fail .creditRecorderMismatch [l.creditRecorder.toNat, p.submissionManager.toNat])
  revertIf (p.submissionManager = 0 ∨ manager.fundingArmed = false) (fail .fundingNotArmed)
  revertIf (manager.objectiveProofCapabilityActive = false) (fail .objectiveProofCapabilityInactive)
  revertIf (e.now > manager.fundingAuthorizationExpiresAt)
    (fail .fundingAuthorizationExpired [manager.fundingAuthorizationExpiresAt, e.now])

def setAcceptingFunds (manager : SubmissionManagerArmed) (accepting : Bool) (l : PayoutLedger)
    (p : BountyPool) : Outcome BountyPool := do
  onlyOwner d e
  (if accepting then p.requireLaunched d e manager l else pure ())
  pure ({ p with acceptingFunds := accepting }.emit (.acceptingFundsSet accepting))

/-! ### Funding -/

/-- `_fund`, called with `e.value` on behalf of `sponsor`; the ETH of the call has arrived. -/
def fundAs (manager : SubmissionManagerArmed) (sponsor : Address) (l : PayoutLedger)
    (p : BountyPool) : Outcome BountyPool := do
  require (0 < e.value) (fail .zeroFunding)
  revertIf (p.submissionManager = 0 ∨ manager.fundingArmed = false) (fail .fundingNotArmed)
  revertIf (manager.objectiveProofCapabilityActive = false) (fail .objectiveProofCapabilityInactive)
  revertIf (p.acceptingFunds = false) (fail .notAcceptingFunds)
  revertIf (p.registry = 0) (fail .registryNotSet)
  p.requireFrozenRegistryBinding d e p.registry
  revertIf (p.ledger ≠ 0 ∧ l.closed = true) (fail .poolClosed)
  revertIf (e.now > manager.fundingAuthorizationExpiresAt)
    (fail .fundingAuthorizationExpired [manager.fundingAuthorizationExpiresAt, e.now])
  revertIf (p.ledger = 0) (fail .callFailed)
  let deadline := PayoutLedger.fundingDeadline d
  revertIf (e.now > deadline) (fail .fundingWindowClosed [deadline, e.now])
  let currentBalance := p.accountedBalance
  let room ← subU d.pc.fundingCap currentBalance
  revertIf (e.value > room) (fail .fundingCapExceeded [d.pc.fundingCap, currentBalance + e.value])
  let newBalance ← addU256 currentBalance e.value
  let principal ← addU256 (p.sponsorshipOf sponsor) e.value
  let totalFunded ← addU256 p.totalFunded e.value
  let p := { p with
    accountedBalance := newBalance
    sponsorshipOf := update p.sponsorshipOf sponsor principal
    firstFundedAt := if p.everFunded then p.firstFundedAt else e.now
    everFunded := true
    totalFunded := totalFunded }
  let earliestClose ← PayoutLedger.effectiveEarliestCloseTimestamp d p.firstFundedAt
  let p := p.emit (.funded e.sender e.value newBalance d.pc.fundingCap earliestClose
    d.lc.closeByTimestamp)
  pure (p.emit (.sponsorshipFunded e.sender sponsor e.value principal newBalance))

/-- `receive()` and `fund()` -/
def fund (manager : SubmissionManagerArmed) (l : PayoutLedger) (p : BountyPool) :
    Outcome BountyPool := p.fundAs d e manager e.sender l

def fundFor (manager : SubmissionManagerArmed) (sponsor : Address) (l : PayoutLedger)
    (p : BountyPool) : Outcome BountyPool := do
  revertIf (sponsor = 0) (fail .recipientZero)
  p.fundAs d e manager sponsor l

def forcedEthAvailable (p : BountyPool) : ℕ := p.balance - p.accountedBalance

def rolloverBalance (p : BountyPool) : Outcome ℕ := subU p.accountedBalance p.accruedFeeBalance

/-! ### Payouts, up to the call of the payee -/

/-- The entry of `nonReentrant`. -/
def enter (p : BountyPool) : Outcome BountyPool := do
  require (p.claiming = false) (fail .reentrantClaim)
  pure { p with claiming := true }

def debitAccounted (amount : ℕ) (p : BountyPool) : Outcome BountyPool := do
  let available := p.accountedBalance
  revertIf (amount > available) (fail .accountingUnderflow [available, amount])
  pure { p with accountedBalance := available - amount }

/-- The common part of `_claimTo` and `donateClaimToPool`: the claim of the caller is consumed
and booked.  Returns `(grossAmount, solverPayment, feeAmount)`. -/
def settleClaim (solver : Address) (l : PayoutLedger) (p : BountyPool) :
    Outcome ((ℕ × ℕ × ℕ) × PayoutLedger × BountyPool) := do
  revertIf (p.ledger = 0) (fail .ledgerNotSet)
  let ((grossAmount, feeAmount), l) ← l.consumeClaim d { e with sender := d.pool } solver
  revertIf (grossAmount = 0) (fail .nothingToClaim)
  let solverPayment ← subU grossAmount feeAmount
  let p ← p.debitAccounted solverPayment
  let totalGrossClaimed ← addU256 p.totalGrossClaimed grossAmount
  let totalClaimed ← addU256 p.totalClaimed solverPayment
  let totalFeeAccrued ← addU256 p.totalFeeAccrued feeAmount
  let accruedFeeBalance ← addU256 p.accruedFeeBalance feeAmount
  pure ((grossAmount, solverPayment, feeAmount), l, { p with
    totalGrossClaimed := totalGrossClaimed
    totalClaimed := totalClaimed
    totalFeeAccrued := totalFeeAccrued
    accruedFeeBalance := accruedFeeBalance })

/-- `_claimTo` -/
def claimAs (solver recipient : Address) (l : PayoutLedger) (p : BountyPool) :
    Outcome (Payout × PayoutLedger × BountyPool) := do
  let ((grossAmount, solverPayment, feeAmount), l, p) ← p.settleClaim d e solver l
  pure (.claim solver recipient grossAmount solverPayment feeAmount, l, p)

def claim (l : PayoutLedger) (p : BountyPool) : Outcome (Payout × PayoutLedger × BountyPool) := do
  let p ← p.enter
  p.claimAs d e e.sender e.sender l

def claimTo (recipient : Address) (l : PayoutLedger) (p : BountyPool) :
    Outcome (Payout × PayoutLedger × BountyPool) := do
  let p ← p.enter
  revertIf (recipient = 0) (fail .recipientZero)
  p.claimAs d e e.sender recipient l

def donateClaimToPool (destinationPool : Address) (l : PayoutLedger) (p : BountyPool) :
    Outcome (Payout × PayoutLedger × BountyPool) := do
  let p ← p.enter
  revertIf (destinationPool = 0 ∨ destinationPool = d.pool) (fail .invalidDonationPool)
  revertIf (p.registry = 0) (fail .registryNotSet)
  let destinationProblemId := e.ext.problemId destinationPool
  revertIf (e.ext.registry destinationPool ≠ p.registry ∨ destinationProblemId = 0 ∨
      e.ext.problemPool p.registry destinationProblemId ≠ destinationPool ∨
      e.ext.explicitlyFrozen p.registry destinationProblemId = false ∨
      e.ext.acceptingFunds destinationPool = false)
    (fail .invalidDonationPool)
  let ((grossAmount, donatedAmount, feeAmount), l, p) ← p.settleClaim d e e.sender l
  let totalWinningsDonated ← addU256 p.totalWinningsDonated donatedAmount
  pure (.donation e.sender destinationPool grossAmount donatedAmount feeAmount, l,
    { p with totalWinningsDonated := totalWinningsDonated })

/-- `_sponsorRefundTo` -/
def sponsorRefundAs (sponsor recipient : Address) (l : PayoutLedger) (p : BountyPool) :
    Outcome (Payout × BountyPool) := do
  revertIf (p.ledger = 0) (fail .ledgerNotSet)
  revertIf (l.sponsorRefundsEnabled = false) (fail .sponsorRefundsDisabled)
  let principal := p.sponsorshipOf sponsor
  revertIf (principal = 0) (fail .nothingToRefund)
  let p := { p with sponsorshipOf := update p.sponsorshipOf sponsor 0 }
  let p ← p.debitAccounted principal
  let totalSponsorRefunded ← addU256 p.totalSponsorRefunded principal
  pure (.refund sponsor recipient principal, { p with totalSponsorRefunded := totalSponsorRefunded })

def sponsorRefund (l : PayoutLedger) (p : BountyPool) : Outcome (Payout × BountyPool) := do
  let p ← p.enter
  p.sponsorRefundAs e.sender e.sender l

def sponsorRefundTo (recipient : Address) (l : PayoutLedger) (p : BountyPool) :
    Outcome (Payout × BountyPool) := do
  let p ← p.enter
  revertIf (recipient = 0) (fail .recipientZero)
  p.sponsorRefundAs e.sender recipient l

def recoverForcedEth (amount : ℕ) (l : PayoutLedger) (p : BountyPool) :
    Outcome (Payout × BountyPool) := do
  let p ← p.enter
  let available := p.forcedEthAvailable
  revertIf (amount = 0 ∨ amount > available) (fail .forcedEthExceedsAvailable [available, amount])
  revertIf (p.ledger = 0 ∨ l.closed = false) (fail .forcedEthRecoveryNotClosed)
  revertIf (l.rolloverDestination = 0) (fail .forcedEthRolloverNotSet)
  let totalForcedEthRecovered ← addU256 p.totalForcedEthRecovered amount
  pure (.forced e.sender l.rolloverDestination amount,
    { p with totalForcedEthRecovered := totalForcedEthRecovered })

/-- `_claimFeesTo` -/
def claimFeesAs (recipient : Address) (p : BountyPool) : Outcome (Payout × BountyPool) := do
  let amount := p.accruedFeeBalance
  revertIf (amount = 0) (fail .nothingToClaim)
  let p := { p with accruedFeeBalance := 0 }
  let p ← p.debitAccounted amount
  let totalFeePaid ← addU256 p.totalFeePaid amount
  pure (.fee recipient amount, { p with totalFeePaid := totalFeePaid })

def claimFees (p : BountyPool) : Outcome (Payout × BountyPool) := do
  let p ← p.enter
  revertIf (p.ledger = 0) (fail .ledgerNotSet)
  p.claimFeesAs d.lc.treasury

def claimFeesTo (recipient : Address) (p : BountyPool) : Outcome (Payout × BountyPool) := do
  let p ← p.enter
  revertIf (recipient = 0) (fail .recipientZero)
  revertIf (p.ledger = 0) (fail .ledgerNotSet)
  revertIf (e.sender ≠ d.lc.treasury) (fail .feeClaimOnly)
  p.claimFeesAs recipient

def payRollover (recipient : Address) (amount : ℕ) (l : PayoutLedger) (p : BountyPool) :
    Outcome (Payout × BountyPool) := do
  let p ← p.enter
  revertIf (e.sender ≠ p.ledger) (fail .notLedger)
  revertIf (recipient = 0 ∨ recipient ≠ l.rolloverDestination) (fail .notLedger)
  let p ← p.debitAccounted amount
  let totalRolloverPaid ← addU256 p.totalRolloverPaid amount
  let totalResidualPaid ← addU256 p.totalResidualPaid amount
  pure (.rollover recipient amount,
    { p with totalRolloverPaid := totalRolloverPaid, totalResidualPaid := totalResidualPaid })

/-! ### The call of the payee, and what follows it -/

/-- Hand over the ETH of a payout.  The submission manager, the challenge manager and the
ledger have no `receive` function and reject it; the pool itself answers with `receive()`. -/
def pay (manager : SubmissionManagerArmed) (payout : Payout) (l : PayoutLedger) (p : BountyPool) :
    Outcome BountyPool := do
  revertIf (p.balance < payout.value) (fail .transferFailed)
  revertIf (payout.payee ∈ [d.submissionManager, d.challengeManager, d.ledger])
    (fail .transferFailed)
  if payout.payee = d.pool then
    p.fundAs d { e with sender := d.pool, value := payout.value } manager d.pool l
  else do
    require e.ext.accepts (fail .transferFailed)
    pure { p with balance := p.balance - payout.value }

/-- The events after the call of the payee. -/
def finishEvents (payout : Payout) (p : BountyPool) : List PoolEvent :=
  match payout with
  | .claim solver recipient grossAmount solverPayment feeAmount =>
      [.solverClaimSettled solver recipient grossAmount solverPayment feeAmount,
        .claimedTo solver recipient solverPayment, .claimed solver solverPayment] ++
      if feeAmount = 0 then [] else [.feeAccrued solver feeAmount p.accruedFeeBalance]
  | .donation solver destinationPool grossAmount donatedAmount feeAmount =>
      [.solverClaimSettled solver destinationPool grossAmount donatedAmount feeAmount,
        .winningsDonated solver destinationPool grossAmount donatedAmount feeAmount] ++
      if feeAmount = 0 then [] else [.feeAccrued solver feeAmount p.accruedFeeBalance]
  | .refund sponsor recipient principal => [.sponsorRefunded sponsor recipient principal]
  | .fee recipient amount => [.feeClaimed d.lc.treasury recipient amount, .feePaid recipient amount]
  | .rollover recipient amount => [.rolloverPaid recipient amount]
  | .forced caller destination amount =>
      [.forcedEthSwept caller destination amount p.forcedEthAvailable,
        .forcedEthRecovered destination amount p.forcedEthAvailable]

/-- The rest of the function after the call of the payee, and the exit of `nonReentrant`. -/
def finish (payout : Payout) (p : BountyPool) : BountyPool :=
  { p with logs := p.finishEvents d payout ++ p.logs, claiming := false }

end BountyPool

namespace PayoutLedger

variable (d : Deployment) (e : Env)

/-- `_sweepRollover`, up to the call of the rollover destination; no payout is pending when the
residual is zero. -/
def sweepRollover (l : PayoutLedger) (p : BountyPool) :
    Outcome (Option Payout × PayoutLedger × BountyPool) := do
  let l ← l.beginSweep e
  let amount ← p.rolloverBalance
  if amount = 0 then pure (none, l.emit (.rolloverSwept l.rolloverDestination 0), p)
  else do
    let (payout, p) ← p.payRollover { e with sender := d.ledger } l.rolloverDestination amount l
    pure (some payout, l, p)

end PayoutLedger
end P42Prizes
