import P42Prizes.ChallengeMoves

/-! # What a call of the ledger or the pool does

The counterpart of `ManagerMoves` for the two contracts that hold the bounty.  `PoolMove` lists
the successful calls as updates of both storages: `fundBy`, `credit` and `uncredit`, `closeWith`,
and the payouts, whose bookkeeping (`Booked`) is done before the payee is called. -/

namespace P42Prizes

open Reverting Function

/-- An event that says nothing about payouts. -/
def PoolEvent.IsNote : PoolEvent → Prop
  | solverClaimSettled .. => False
  | sponsorRefunded .. => False
  | _ => True

namespace PayoutLedger

/-- The effect of `recordCredit`. -/
def credit (solver : Address) (atoms : ℕ) (l : PayoutLedger) : PayoutLedger :=
  { l with
    totalCreditAtoms := l.totalCreditAtoms + atoms
    creditAtomsOf := update l.creditAtomsOf solver (l.creditAtomsOf solver + atoms) }

/-- The effect of `voidCredit`. -/
def uncredit (solver : Address) (atoms : ℕ) (l : PayoutLedger) : PayoutLedger :=
  { l with
    totalCreditAtoms := l.totalCreditAtoms - atoms
    creditAtomsOf := update l.creditAtomsOf solver (l.creditAtomsOf solver - atoms) }

/-- The effect of `close`. -/
def closeWith (now funded : ℕ) (l : PayoutLedger) : PayoutLedger :=
  { l with closed := true, closedAt := now, closedPoolBalance := funded, feeReserve := 0 }

/-- The effect of `consumeClaim`. -/
def consume (solver : Address) (gross fee : ℕ) (l : PayoutLedger) : PayoutLedger :=
  { l with
    claimedWeiOf := update l.claimedWeiOf solver (l.claimedWeiOf solver + gross)
    totalGrossClaimed := l.totalGrossClaimed + gross
    totalFeeAccrued := l.totalFeeAccrued + fee }

/-- The effect of `beginSweep`. -/
def sweep (l : PayoutLedger) : PayoutLedger := { l with rolloverSwept := true, residualSwept := true }

/-- A claim that `consumeClaim` grants. -/
structure Grants (d : Deployment) (e : Env) (solver : Address) (gross fee : ℕ) (l : PayoutLedger) :
    Prop where
  closed : l.closed = true
  credited : l.totalCreditAtoms ≠ 0
  inTime : e.now ≤ l.closedAt + claimDeadlineSeconds
  share : ∃ entitlement, mulDiv l.closedPoolBalance (l.creditAtomsOf solver) l.totalCreditAtoms =
    .ok entitlement ∧ gross = entitlement - l.claimedWeiOf solver
  fee : mulDiv gross d.lc.feeBps 10000 = .ok fee
  nonzero : gross ≠ 0

variable {d : Deployment} {e : Env} {l l' : PayoutLedger}

theorem voidCredit_ok {solver : Address} {atoms : ℕ} (h : l.voidCredit e solver atoms = .ok l') :
    e.sender = l.creditRecorder ∧ l.closed = false ∧ atoms ≠ 0 ∧ atoms ≤ l.creditAtomsOf solver ∧
    atoms ≤ l.totalCreditAtoms ∧
    l' = (l.uncredit solver atoms).emit (.creditVoided solver atoms (l.totalCreditAtoms - atoms)) := by
  simp only [voidCredit, bind_eq_ok, revertIf_eq_ok, pure_eq_ok, exists_const, ne_eq, not_not,
    not_or, not_lt, Bool.not_eq_true] at h
  obtain ⟨hsender, hclosed, hatoms, ⟨hsolver, htotal⟩, rfl⟩ := h
  exact ⟨hsender, hclosed, hatoms, hsolver, htotal, rfl⟩

theorem recordCredit_ok {solver : Address} {atoms : ℕ}
    (h : l.recordCredit d e solver atoms = .ok l') :
    (l.creditRecorder = 0 ∨ e.sender = l.creditRecorder) ∧ l.closed = false ∧ atoms ≠ 0 ∧
    l.totalCreditAtoms + atoms ≤ maxTotalCreditAtoms ∧
    l' = (l.credit solver atoms).emit (.creditRecorded solver atoms (l.totalCreditAtoms + atoms)) := by
  obtain ⟨hrec, hclosed, -, hatoms, -, htotal, -, rfl⟩ := recordCredit_eq_ok.mp h
  refine ⟨?_, hclosed, hatoms, htotal, rfl⟩
  unfold requireRecorder at hrec
  split at hrec
  · rename_i hzero
    exact Or.inl hzero
  · simp only [revertIf_eq_ok, ne_eq, not_not] at hrec
    exact Or.inr hrec

theorem close_ok {funded : ℕ} {recorder : CreditCloseGuard} (h : l.close d e funded recorder = .ok l') :
    l.closed = false ∧ d.lc.closeByTimestamp ≤ e.now ∧ l.requireSettled e recorder = .ok () ∧
    ∃ ev, l' = (l.closeWith e.now funded).emit ev := by
  simp only [close, bind_eq_ok, revertIf_eq_ok, pure_eq_ok, Unique.exists_iff, not_lt,
    Bool.not_eq_true] at h
  obtain ⟨hclosed, hnow, -, hsettled, deadline, -, rfl⟩ := h
  exact ⟨hclosed, hnow, hsettled, _, rfl⟩

theorem claimDeadline_of_credited (hclosed : l.closed = true) (htotal : l.totalCreditAtoms ≠ 0)
    {t : ℕ} : l.claimDeadline = .ok t ↔
      l.closedAt + claimDeadlineSeconds < 2 ^ 64 ∧ l.closedAt + claimDeadlineSeconds = t := by
  have hpos : l.positiveCreditClose = true := by simp [positiveCreditClose, hclosed, htotal]
  simp only [claimDeadline, hpos, if_true, checkedAdd_eq_ok]

theorem consumeClaim_ok {solver : Address} {gross fee : ℕ}
    (h : l.consumeClaim d e solver = .ok ((gross, fee), l')) (hgross : gross ≠ 0) :
    l.Grants d e solver gross fee ∧
      l' = (l.consume solver gross fee).emit (.claimConsumed solver gross fee) := by
  simp only [consumeClaim, bind_eq_ok, revertIf_eq_ok, exists_const, not_not] at h
  obtain ⟨-, hclosed, h⟩ := h
  split at h
  · rename_i hpos
    have htotal : l.totalCreditAtoms ≠ 0 := by
      simpa [positiveCreditClose, hclosed] using hpos
    simp only [bind_eq_ok, revertIf_eq_ok, checkedAdd_eq_ok, pure_eq_ok, exists_const, and_assoc,
      exists_and_left, exists_eq_left', claimDeadline_of_credited hclosed htotal, not_lt, gt_iff_lt,
      Prod.mk.injEq] at h
    obtain ⟨hlt, hnow, _, hclaim, -, _, hfee, -, -, rfl, rfl, rfl⟩ := h
    simp only [claimable, hpos, if_true, bind_eq_ok, claimDeadline_of_credited hclosed htotal,
      and_assoc, exists_and_left, exists_eq_left', gt_iff_lt, not_lt.mpr hnow, if_false,
      finalEntitlement, pure_eq_ok] at hclaim
    obtain ⟨-, entitlement, hent, hg⟩ := hclaim
    exact ⟨⟨hclosed, htotal, hnow, ⟨entitlement, hent, hg.symm⟩, hfee, hgross⟩, rfl⟩
  · simp only [pure_eq_ok, Prod.mk.injEq] at h
    exact absurd h.1.1.symm hgross

theorem beginSweep_ok (h : l.beginSweep e = .ok l') :
    l.closed = true ∧ l.totalCreditAtoms ≠ 0 ∧ l.closedAt + claimDeadlineSeconds < e.now ∧
    l.rolloverSwept = false ∧ l' = l.sweep := by
  simp only [beginSweep, bind_eq_ok, revertIf_eq_ok, pure_eq_ok, exists_const, not_not,
    Bool.not_eq_true l.rolloverSwept] at h
  obtain ⟨hclosed, hpos, deadline, hdeadline, hnow, hswept, rfl⟩ := h
  have htotal : l.totalCreditAtoms ≠ 0 := by
    simpa [positiveCreditClose, hclosed] using hpos
  rw [claimDeadline_of_credited hclosed htotal] at hdeadline
  obtain ⟨-, rfl⟩ := hdeadline
  exact ⟨hclosed, htotal, not_le.mp hnow, hswept, rfl⟩

/-- The fee of a granted claim is a rounded-down fraction of it. -/
theorem Grants.fee_eq {solver : Address} {gross fee : ℕ} (h : l.Grants d e solver gross fee) :
    fee = gross * d.lc.feeBps / 10000 := by
  obtain ⟨entitlement, hent, hgross⟩ := h.share
  have hent := mulDiv_lt hent
  have hfee := d.lc.feeBps_le
  unfold maxFeeBps at hfee
  have hle : gross * d.lc.feeBps / 10000 ≤ gross := by
    calc gross * d.lc.feeBps / 10000 ≤ gross * 10000 / 10000 :=
          Nat.div_le_div_right (Nat.mul_le_mul_left _ (by omega))
      _ = gross := Nat.mul_div_cancel _ (by norm_num)
  have heq := mulDiv_eq (x := gross) (y := d.lc.feeBps) (d := 10000) (by omega) (by omega)
    (by norm_num) (by norm_num) (by omega)
  rw [h.fee] at heq
  exact Except.ok.inj heq

theorem Grants.fee_lt {solver : Address} {gross fee : ℕ} (h : l.Grants d e solver gross fee) :
    fee < gross := by
  have hfee := d.lc.feeBps_le
  have hne := h.nonzero
  unfold maxFeeBps at hfee
  rw [h.fee_eq]
  calc gross * d.lc.feeBps / 10000 ≤ gross * 250 / 10000 :=
        Nat.div_le_div_right (Nat.mul_le_mul_left _ hfee)
    _ < gross := by omega

end PayoutLedger

namespace BountyPool

/-! ### The updates of the pool -/

def note (evs : List PoolEvent) (p : BountyPool) : BountyPool := { p with logs := evs ++ p.logs }

/-- The effect of `_fund`. -/
def fundBy (now : ℕ) (sponsor : Address) (value : ℕ) (p : BountyPool) : BountyPool :=
  { p with
    accountedBalance := p.accountedBalance + value
    sponsorshipOf := update p.sponsorshipOf sponsor (p.sponsorshipOf sponsor + value)
    firstFundedAt := if p.everFunded then p.firstFundedAt else now
    everFunded := true
    totalFunded := p.totalFunded + value }

/-- A claim or a donation is booked. -/
def settle (gross fee donated : ℕ) (p : BountyPool) : BountyPool :=
  { p with
    claiming := true
    accountedBalance := p.accountedBalance - (gross - fee)
    totalGrossClaimed := p.totalGrossClaimed + gross
    totalClaimed := p.totalClaimed + (gross - fee)
    totalFeeAccrued := p.totalFeeAccrued + fee
    accruedFeeBalance := p.accruedFeeBalance + fee
    totalWinningsDonated := p.totalWinningsDonated + donated }

/-- The refund of a sponsor is booked. -/
def refundTo (sponsor : Address) (p : BountyPool) : BountyPool :=
  { p with
    claiming := true
    sponsorshipOf := update p.sponsorshipOf sponsor 0
    accountedBalance := p.accountedBalance - p.sponsorshipOf sponsor
    totalSponsorRefunded := p.totalSponsorRefunded + p.sponsorshipOf sponsor }

/-- The payment of the accrued fees is booked. -/
def payFees (p : BountyPool) : BountyPool :=
  { p with
    claiming := true
    accruedFeeBalance := 0
    accountedBalance := p.accountedBalance - p.accruedFeeBalance
    totalFeePaid := p.totalFeePaid + p.accruedFeeBalance }

/-- The payment of the residual is booked. -/
def rollOver (amount : ℕ) (p : BountyPool) : BountyPool :=
  { p with
    claiming := true
    accountedBalance := p.accountedBalance - amount
    totalRolloverPaid := p.totalRolloverPaid + amount
    totalResidualPaid := p.totalResidualPaid + amount }

/-- The recovery of forced ETH is booked. -/
def recoverForced (amount : ℕ) (p : BountyPool) : BountyPool :=
  { p with claiming := true, totalForcedEthRecovered := p.totalForcedEthRecovered + amount }

def send (amount : ℕ) (p : BountyPool) : BountyPool := { p with balance := p.balance - amount }

/-- Nothing changes but the pointers, each set once, and the flag of the owner. -/
def Administers (l : PayoutLedger) (p p' : BountyPool) : Prop :=
  ∃ ledger submissionManager registry problemId acceptingFunds evs,
    (∀ ev ∈ evs, ev.IsNote) ∧ (p.ledger ≠ 0 → ledger = p.ledger) ∧
    (p.submissionManager ≠ 0 → submissionManager = p.submissionManager) ∧
    (p.registry ≠ 0 → registry = p.registry ∧ problemId = p.problemId) ∧
    (acceptingFunds = true → p.acceptingFunds = true ∨
      l.creditRecorder = p.submissionManager ∧ p.submissionManager ≠ 0) ∧
    p' = { p with
      ledger := ledger, submissionManager := submissionManager, registry := registry
      problemId := problemId, acceptingFunds := acceptingFunds, logs := evs ++ p.logs }

variable {d : Deployment} {e : Env} {l l' : PayoutLedger} {p p' : BountyPool}

theorem fundAs_ok {manager : SubmissionManagerArmed} {sponsor : Address}
    (h : p.fundAs d e manager sponsor l = .ok p') :
    p.ledger ≠ 0 ∧ l.closed = false ∧ p.accountedBalance + e.value ≤ d.pc.fundingCap ∧
    p.sponsorshipOf sponsor + e.value < 2 ^ 256 ∧ p.totalFunded + e.value < 2 ^ 256 ∧
    ∃ evs, (∀ ev ∈ evs, ev.IsNote) ∧ p' = (p.fundBy e.now sponsor e.value).note evs := by
  simp only [fundAs, bind_eq_ok, require_eq_ok, revertIf_eq_ok, checkedSub_eq_ok, checkedAdd_eq_ok,
    pure_eq_ok, Unique.exists_iff, and_assoc, exists_and_left, exists_eq_left', not_and,
    Bool.not_eq_true, gt_iff_lt, not_lt] at h
  obtain ⟨-, -, -, -, -, -, hclosed, -, hledger, -, hle, hroom, -, hprincipal, htotal, _, -, rfl⟩ := h
  exact ⟨hledger, hclosed hledger, by omega, hprincipal, htotal, [_, _], by simp [PoolEvent.IsNote], rfl⟩

theorem debitAccounted_eq_ok {amount : ℕ} : p.debitAccounted amount = .ok p' ↔
    amount ≤ p.accountedBalance ∧ { p with accountedBalance := p.accountedBalance - amount } = p' := by
  simp only [debitAccounted, bind_eq_ok, revertIf_eq_ok, pure_eq_ok, exists_const, gt_iff_lt, not_lt]

theorem enter_eq_ok : p.enter = .ok p' ↔ p.claiming = false ∧ { p with claiming := true } = p' := by
  simp only [enter, bind_eq_ok, require_eq_ok, pure_eq_ok, exists_const]

theorem settleClaim_ok {solver : Address} {gross payment fee : ℕ} {q : BountyPool}
    (h : p.settleClaim d e solver l = .ok ((gross, payment, fee), l', q)) :
    l.Grants d { e with sender := d.pool } solver gross fee ∧ payment = gross - fee ∧
    payment ≤ p.accountedBalance ∧
    l' = (l.consume solver gross fee).emit (.claimConsumed solver gross fee) ∧
    q = { p with
      accountedBalance := p.accountedBalance - payment
      totalGrossClaimed := p.totalGrossClaimed + gross
      totalClaimed := p.totalClaimed + payment
      totalFeeAccrued := p.totalFeeAccrued + fee
      accruedFeeBalance := p.accruedFeeBalance + fee } := by
  simp only [settleClaim, bind_eq_ok, revertIf_eq_ok, checkedSub_eq_ok, checkedAdd_eq_ok,
    debitAccounted_eq_ok, pure_eq_ok, exists_const, and_assoc, exists_and_left, exists_eq_left',
    Prod.exists, Prod.mk.injEq] at h
  obtain ⟨-, g, f, l₁, hconsume, hg, hle, hroom, -, -, -, -, rfl, rfl, rfl, rfl, rfl⟩ := h
  obtain ⟨hgrants, hl⟩ := PayoutLedger.consumeClaim_ok hconsume hg
  exact ⟨hgrants, rfl, hroom, hl, rfl⟩

/-! ### Payouts -/

/-- What has been booked when the payee of a payout is called. -/
inductive Booked (d : Deployment) (e : Env) (l : PayoutLedger) (p : BountyPool) :
    Payout → PayoutLedger → BountyPool → Prop
  | claim {recipient : Address} {gross fee : ℕ} :
      l.Grants d { e with sender := d.pool } e.sender gross fee → gross - fee ≤ p.accountedBalance →
      Booked d e l p (.claim e.sender recipient gross (gross - fee) fee)
        ((l.consume e.sender gross fee).emit (.claimConsumed e.sender gross fee))
        (p.settle gross fee 0)
  | donation {destination : Address} {gross fee : ℕ} :
      l.Grants d { e with sender := d.pool } e.sender gross fee → gross - fee ≤ p.accountedBalance →
      Booked d e l p (.donation e.sender destination gross (gross - fee) fee)
        ((l.consume e.sender gross fee).emit (.claimConsumed e.sender gross fee))
        (p.settle gross fee (gross - fee))
  | refund {recipient : Address} :
      l.closed = true → l.totalCreditAtoms = 0 → p.sponsorshipOf e.sender ≠ 0 →
      p.sponsorshipOf e.sender ≤ p.accountedBalance →
      Booked d e l p (.refund e.sender recipient (p.sponsorshipOf e.sender)) l
        (p.refundTo e.sender)
  | fee {recipient : Address} :
      p.accruedFeeBalance ≠ 0 → p.accruedFeeBalance ≤ p.accountedBalance →
      Booked d e l p (.fee recipient p.accruedFeeBalance) l p.payFees
  | rollover {recipient : Address} {amount : ℕ} :
      l.closed = true → l.totalCreditAtoms ≠ 0 → l.closedAt + claimDeadlineSeconds < e.now →
      l.rolloverSwept = false → p.accruedFeeBalance ≤ p.accountedBalance →
      amount = p.accountedBalance - p.accruedFeeBalance → amount ≠ 0 →
      Booked d e l p (.rollover recipient amount) l.sweep (p.rollOver amount)
  | forced {destination : Address} {amount : ℕ} :
      l.closed = true → amount ≠ 0 → amount ≤ p.balance - p.accountedBalance →
      Booked d e l p (.forced e.sender destination amount) l (p.recoverForced amount)

theorem Booked.value_ne_zero {payout : Payout} (h : Booked d e l p payout l' p') :
    payout.value ≠ 0 := by
  cases h with
  | claim hgrants _ =>
      have := hgrants.fee_lt
      simp only [Payout.value]
      omega
  | donation hgrants _ =>
      have := hgrants.fee_lt
      simp only [Payout.value]
      omega
  | refund _ _ hne _ => exact hne
  | fee hne _ => exact hne
  | rollover _ _ _ _ _ _ hne => exact hne
  | forced _ hne _ => exact hne

/-- A payout is booked in a closed ledger, but for the fees. -/
theorem Booked.closed {payout : Payout} (h : Booked d e l p payout l' p') :
    l.closed = true ∨ p.accruedFeeBalance ≠ 0 := by
  cases h with
  | claim hgrants _ => exact Or.inl hgrants.closed
  | donation hgrants _ => exact Or.inl hgrants.closed
  | refund hclosed _ _ _ => exact Or.inl hclosed
  | fee hne _ => exact Or.inr hne
  | rollover hclosed _ _ _ _ _ _ => exact Or.inl hclosed
  | forced hclosed _ _ => exact Or.inl hclosed

theorem Booked.closed_eq {payout : Payout} (h : Booked d e l p payout l' p') :
    l'.closed = l.closed := by
  cases h <;> rfl

theorem claimAs_ok {recipient : Address} {payout : Payout} {q : BountyPool}
    (h : q.claimAs d e e.sender recipient l = .ok (payout, l', p'))
    (hq : q = { p with claiming := true }) : Booked d e l p payout l' p' := by
  simp only [claimAs, bind_eq_ok, pure_eq_ok, Prod.exists, Prod.mk.injEq] at h
  obtain ⟨gross, payment, fee, l₁, q₁, hsettle, rfl, rfl, rfl⟩ := h
  obtain ⟨hgrants, rfl, hroom, rfl, rfl⟩ := settleClaim_ok hsettle
  subst hq
  exact .claim hgrants hroom

theorem donateClaimToPool_ok {destination : Address} {payout : Payout}
    (h : p.donateClaimToPool d e destination l = .ok (payout, l', p')) :
    Booked d e l p payout l' p' := by
  simp only [donateClaimToPool, bind_eq_ok, enter_eq_ok, revertIf_eq_ok, checkedAdd_eq_ok,
    pure_eq_ok, exists_const, and_assoc, exists_and_left, exists_eq_left', Prod.exists,
    Prod.mk.injEq] at h
  obtain ⟨-, -, -, -, gross, payment, fee, l₁, q, hsettle, -, rfl, rfl, rfl⟩ := h
  obtain ⟨hgrants, rfl, hroom, rfl, rfl⟩ := settleClaim_ok hsettle
  exact .donation hgrants hroom

theorem sponsorRefundAs_ok {recipient : Address} {payout : Payout} {q : BountyPool}
    (h : q.sponsorRefundAs e.sender recipient l = .ok (payout, p'))
    (hq : q = { p with claiming := true }) : Booked d e l p payout l p' := by
  simp only [sponsorRefundAs, bind_eq_ok, revertIf_eq_ok, debitAccounted_eq_ok, checkedAdd_eq_ok,
    pure_eq_ok, exists_const, and_assoc, exists_and_left, exists_eq_left', Prod.mk.injEq,
    Bool.not_eq_false] at h
  subst hq
  obtain ⟨-, henabled, hne, hle, -, rfl, rfl⟩ := h
  simp only [PayoutLedger.sponsorRefundsEnabled, Bool.and_eq_true, decide_eq_true_eq] at henabled
  exact .refund henabled.1 henabled.2 hne hle

theorem recoverForcedEth_ok {amount : ℕ} {payout : Payout}
    (h : p.recoverForcedEth e amount l = .ok (payout, p')) : Booked d e l p payout l p' := by
  simp only [recoverForcedEth, bind_eq_ok, enter_eq_ok, revertIf_eq_ok, checkedAdd_eq_ok,
    pure_eq_ok, exists_const, and_assoc, exists_and_left, exists_eq_left', Prod.mk.injEq, not_or,
    not_lt, gt_iff_lt, Bool.not_eq_false, forcedEthAvailable] at h
  obtain ⟨-, hne, hle, -, hclosed, -, -, rfl, rfl⟩ := h
  exact .forced hclosed hne hle

theorem claimFeesAs_ok {recipient : Address} {payout : Payout} {q : BountyPool}
    (h : q.claimFeesAs recipient = .ok (payout, p')) (hq : q = { p with claiming := true }) :
    Booked d e l p payout l p' := by
  simp only [claimFeesAs, bind_eq_ok, revertIf_eq_ok, debitAccounted_eq_ok, checkedAdd_eq_ok,
    pure_eq_ok, exists_const, and_assoc, exists_and_left, exists_eq_left', Prod.mk.injEq] at h
  subst hq
  obtain ⟨hne, hle, -, rfl, rfl⟩ := h
  exact .fee hne hle

/-! ### The moves -/

/-- What a successful call does to the ledger and the pool, and the call it leaves suspended. -/
inductive PoolMove (d : Deployment) (e : Env) (l : PayoutLedger) (p : BountyPool) :
    Call → PayoutLedger → BountyPool → List Frame → Prop
  | ledgerAdmin {c : Call} {paused : Bool} {recorder destination : Address} (ev : LedgerEvent) :
      (l.creditRecorder ≠ 0 → recorder = l.creditRecorder) →
      PoolMove d e l p c ({ l with
        pausedNewActions := paused, creditRecorder := recorder
        rolloverDestination := destination }.emit ev) p []
  | poolAdmin {c : Call} {p' : BountyPool} : p.Administers l p' → PoolMove d e l p c l p' []
  | credit {solver : Address} {atoms : ℕ} (ev : LedgerEvent) :
      (l.creditRecorder = 0 ∨ e.sender = l.creditRecorder) → l.closed = false →
      l.totalCreditAtoms + atoms ≤ maxTotalCreditAtoms →
      PoolMove d e l p (.ledger (.recordCredit solver atoms)) ((l.credit solver atoms).emit ev) p []
  | uncredit {solver : Address} {atoms : ℕ} (ev : LedgerEvent) :
      e.sender = l.creditRecorder → l.closed = false → atoms ≤ l.creditAtomsOf solver →
      atoms ≤ l.totalCreditAtoms →
      PoolMove d e l p (.ledger (.voidCredit solver atoms)) ((l.uncredit solver atoms).emit ev) p []
  | close (recorder : CreditCloseGuard) (ev : LedgerEvent) :
      l.closed = false → l.requireSettled e recorder = .ok () →
      PoolMove d e l p (.ledger .close) ((l.closeWith e.now p.accountedBalance).emit ev) p []
  | fund {c : Call} {sponsor : Address} (evs : List PoolEvent) :
      (c = .pool .fund ∨ c = .pool (.fundFor sponsor)) → p.ledger ≠ 0 →
      l.closed = false → p.accountedBalance + e.value ≤ d.pc.fundingCap →
      p.sponsorshipOf sponsor + e.value < 2 ^ 256 → p.totalFunded + e.value < 2 ^ 256 →
      (∀ ev ∈ evs, ev.IsNote) →
      PoolMove d e l p c l ((p.fundBy e.now sponsor e.value).note evs) []
  | sweepNothing {c : Call} (ev : LedgerEvent) :
      l.closed = true → l.totalCreditAtoms ≠ 0 → l.closedAt + claimDeadlineSeconds < e.now →
      p.accountedBalance = p.accruedFeeBalance → PoolMove d e l p c (l.sweep.emit ev) p []
  | payout {c : Call} {payout : Payout} {l' : PayoutLedger} {p' : BountyPool} :
      Booked d e l p payout l' p' → l.closed = true → payout.value ≤ p.balance →
      PoolMove d e l p c l' (p'.send payout.value) [.payout payout]
  | earlyFee {c : Call} {recipient : Address} {p' : BountyPool} :
      l.closed = false → p.accruedFeeBalance ≠ 0 →
      PoolMove d e l p c l p' [.payout (.fee recipient p.accruedFeeBalance)]

theorem Booked.balance_eq {payout : Payout} (h : Booked d e l p payout l' p') :
    p'.balance = p.balance := by
  cases h <;> rfl

/-- The payee of a booked payout is called, unless it is the closed pool itself. -/
theorem Booked.start {payout : Payout} {s : SubmissionManager} {f : List Frame} {q : BountyPool}
    {l₁ : PayoutLedger} (h : Booked d e l p payout l₁ q)
    (hrun : startPayout d e s payout l₁ q = .ok (p', l', f)) {c : Call} :
    PoolMove d e l p c l' p' f := by
  simp only [startPayout, h.value_ne_zero, if_false, map_eq_ok, Prod.mk.injEq] at hrun
  obtain ⟨_, hpay, rfl, rfl, rfl⟩ := hrun
  simp only [pay, bind_eq_ok, revertIf_eq_ok, exists_const, not_lt] at hpay
  obtain ⟨hbal, -, hpay⟩ := hpay
  rw [h.balance_eq] at hbal
  have hclosed := h.closed_eq
  cases hl : l.closed with
  | false =>
      cases h with
      | claim hgrants _ => rw [hgrants.closed] at hl; cases hl
      | donation hgrants _ => rw [hgrants.closed] at hl; cases hl
      | refund hc _ _ _ => rw [hc] at hl; cases hl
      | fee hne _ => exact .earlyFee hl hne
      | rollover hc _ _ _ _ _ _ => rw [hc] at hl; cases hl
      | forced hc _ _ => rw [hc] at hl; cases hl
  | true =>
      split at hpay
      · rw [(fundAs_ok hpay).2.1, hl] at hclosed
        cases hclosed
      · simp only [bind_eq_ok, require_eq_ok, pure_eq_ok, exists_const] at hpay
        obtain ⟨-, rfl⟩ := hpay
        exact .payout h hl hbal

end BountyPool

open BountyPool

variable {d : Deployment} {e : Env} {s : SubmissionManager} {l l' : PayoutLedger}
  {p p' : BountyPool} {f : List Frame}

/-- Every successful call of the ledger is a move. -/
theorem LedgerCall.move_of_run {c : LedgerCall} (h : c.run d e s l p = .ok (p', l', f)) :
    PoolMove d e l p (.ledger c) l' p' f := by
  cases c with
  | setPausedNewActions paused =>
      simp only [LedgerCall.run, map_eq_ok, Prod.mk.injEq, PayoutLedger.setPausedNewActions,
        bind_eq_ok, pure_eq_ok, Unique.exists_iff] at h
      obtain ⟨_, ⟨-, rfl⟩, rfl, rfl, rfl⟩ := h
      exact .ledgerAdmin _ (fun _ => rfl)
  | setCreditRecorder recorder =>
      simp only [LedgerCall.run, map_eq_ok, Prod.mk.injEq, PayoutLedger.setCreditRecorder,
        bind_eq_ok, pure_eq_ok, revertIf_eq_ok, Unique.exists_iff] at h
      obtain ⟨_, ⟨-, -, hzero, rfl⟩, rfl, rfl, rfl⟩ := h
      exact .ledgerAdmin _ (fun hne => absurd hne hzero)
  | setRolloverDestination destination =>
      simp only [LedgerCall.run, map_eq_ok, Prod.mk.injEq, PayoutLedger.setRolloverDestination,
        bind_eq_ok, pure_eq_ok, Unique.exists_iff] at h
      obtain ⟨_, ⟨-, -, -, -, -, -, -, -, rfl⟩, rfl, rfl, rfl⟩ := h
      exact .ledgerAdmin _ (fun _ => rfl)
  | recordCredit solver atoms =>
      simp only [LedgerCall.run, map_eq_ok, Prod.mk.injEq] at h
      obtain ⟨_, h, rfl, rfl, rfl⟩ := h
      obtain ⟨hrec, hclosed, -, htotal, rfl⟩ := PayoutLedger.recordCredit_ok h
      exact .credit _ hrec hclosed htotal
  | voidCredit solver atoms =>
      simp only [LedgerCall.run, map_eq_ok, Prod.mk.injEq] at h
      obtain ⟨_, h, rfl, rfl, rfl⟩ := h
      obtain ⟨hsender, hclosed, -, hsolver, htotal, rfl⟩ := PayoutLedger.voidCredit_ok h
      exact .uncredit _ hsender hclosed hsolver htotal
  | close =>
      simp only [LedgerCall.run, map_eq_ok, Prod.mk.injEq] at h
      obtain ⟨_, h, rfl, rfl, rfl⟩ := h
      obtain ⟨hclosed, -, hsettled, ev, rfl⟩ := PayoutLedger.close_ok h
      exact .close _ ev hclosed hsettled
  | sweepRollover =>
      simp only [LedgerCall.run, bind_eq_ok, Prod.exists] at h
      obtain ⟨payout, l₁, p₁, hsweep, h⟩ := h
      simp only [PayoutLedger.sweepRollover, bind_eq_ok, rolloverBalance, checkedSub_eq_ok,
        and_assoc, exists_and_left, exists_eq_left'] at hsweep
      obtain ⟨l₂, hbegin, hle, hsweep⟩ := hsweep
      obtain ⟨hclosed, htotal, hnow, hswept, rfl⟩ := PayoutLedger.beginSweep_ok hbegin
      split at hsweep
      · rename_i hzero
        simp only [pure_eq_ok, Prod.mk.injEq] at hsweep
        obtain ⟨rfl, rfl, rfl⟩ := hsweep
        simp only [pure_eq_ok, Prod.mk.injEq] at h
        obtain ⟨rfl, rfl, rfl⟩ := h
        exact .sweepNothing _ hclosed htotal hnow (by omega)
      · rename_i hne
        simp only [bind_eq_ok, pure_eq_ok, payRollover, enter_eq_ok, revertIf_eq_ok,
          debitAccounted_eq_ok, checkedAdd_eq_ok, exists_const, and_assoc, exists_and_left,
          exists_eq_left', Prod.mk.injEq] at hsweep
        obtain ⟨-, -, -, -, -, -, rfl, rfl, rfl⟩ := hsweep
        exact (Booked.rollover hclosed htotal hnow hswept hle rfl hne).start h

/-- Every successful call of the pool is a move. -/
theorem PoolCall.move_of_run {c : PoolCall} (h : c.run d e s l p = .ok (p', l', f)) :
    PoolMove d e l p (.pool c) l' p' f := by
  cases c with
  | setLedger =>
      simp only [PoolCall.run, map_eq_ok, Prod.mk.injEq, BountyPool.setLedger, bind_eq_ok, pure_eq_ok,
        revertIf_eq_ok, Unique.exists_iff] at h
      obtain ⟨_, ⟨-, hzero, -, rfl⟩, rfl, rfl, rfl⟩ := h
      exact .poolAdmin ⟨_, _, _, _, _, [_], by simp [PoolEvent.IsNote], fun hne => absurd hne hzero,
        fun _ => rfl, fun _ => ⟨rfl, rfl⟩, Or.inl, rfl⟩
  | setSubmissionManager manager =>
      simp only [PoolCall.run, map_eq_ok, Prod.mk.injEq, BountyPool.setSubmissionManager, bind_eq_ok,
        pure_eq_ok, revertIf_eq_ok, Unique.exists_iff] at h
      obtain ⟨_, ⟨-, hzero, -, rfl⟩, rfl, rfl, rfl⟩ := h
      exact .poolAdmin ⟨_, _, _, _, _, [_], by simp [PoolEvent.IsNote], fun _ => rfl,
        fun hne => absurd hne hzero, fun _ => ⟨rfl, rfl⟩, Or.inl, rfl⟩
  | setRegistry registry problemId =>
      simp only [PoolCall.run, map_eq_ok, Prod.mk.injEq, BountyPool.setRegistry, bind_eq_ok,
        pure_eq_ok, revertIf_eq_ok, Unique.exists_iff] at h
      obtain ⟨_, ⟨-, hzero, -, -, rfl⟩, rfl, rfl, rfl⟩ := h
      exact .poolAdmin ⟨_, _, _, _, _, [_], by simp [PoolEvent.IsNote], fun _ => rfl, fun _ => rfl,
        fun hne => absurd hne hzero, Or.inl, rfl⟩
  | setAcceptingFunds accepting =>
      simp only [PoolCall.run, map_eq_ok, Prod.mk.injEq, BountyPool.setAcceptingFunds, bind_eq_ok,
        pure_eq_ok, Unique.exists_iff] at h
      obtain ⟨_, ⟨-, hlaunched, rfl⟩, rfl, rfl, rfl⟩ := h
      refine .poolAdmin ⟨_, _, _, _, _, [_], by simp [PoolEvent.IsNote], fun _ => rfl, fun _ => rfl,
        fun _ => ⟨rfl, rfl⟩, fun haccepting => Or.inr ?_, rfl⟩
      rw [if_pos haccepting] at hlaunched
      simp only [BountyPool.requireLaunched, bind_eq_ok, revertIf_eq_ok, Unique.exists_iff, ne_eq,
        not_not, not_or] at hlaunched
      exact ⟨hlaunched.2.2.2.2.2.1, hlaunched.2.2.2.2.2.2.1.1⟩
  | fund =>
      simp only [PoolCall.run, map_eq_ok, Prod.mk.injEq] at h
      obtain ⟨_, h, rfl, rfl, rfl⟩ := h
      obtain ⟨hledger, hclosed, hcap, hsponsor, htotal, evs, hevs, rfl⟩ := fundAs_ok h
      exact .fund evs (Or.inl rfl) hledger hclosed hcap hsponsor htotal hevs
  | fundFor sponsor =>
      simp only [PoolCall.run, map_eq_ok, Prod.mk.injEq, BountyPool.fundFor, bind_eq_ok, Unique.exists_iff] at h
      obtain ⟨_, ⟨-, h⟩, rfl, rfl, rfl⟩ := h
      obtain ⟨hledger, hclosed, hcap, hsponsor, htotal, evs, hevs, rfl⟩ := fundAs_ok h
      exact .fund evs (Or.inr rfl) hledger hclosed hcap hsponsor htotal hevs
  | claim =>
      simp only [PoolCall.run, BountyPool.claim, bind_eq_ok, enter_eq_ok, and_assoc, exists_and_left,
        exists_eq_left', Prod.exists] at h
      obtain ⟨-, payout, l₁, p₁, hclaim, h⟩ := h
      exact (claimAs_ok hclaim rfl).start h
  | claimTo recipient =>
      simp only [PoolCall.run, BountyPool.claimTo, bind_eq_ok, enter_eq_ok, and_assoc,
        exists_and_left, exists_eq_left', Prod.exists, Unique.exists_iff] at h
      obtain ⟨-, -, payout, l₁, p₁, hclaim, h⟩ := h
      exact (claimAs_ok hclaim rfl).start h
  | donateClaimToPool destination =>
      simp only [PoolCall.run, bind_eq_ok, Prod.exists] at h
      obtain ⟨payout, l₁, p₁, hdonate, h⟩ := h
      exact (donateClaimToPool_ok hdonate).start h
  | sponsorRefund =>
      simp only [PoolCall.run, BountyPool.sponsorRefund, bind_eq_ok, enter_eq_ok, and_assoc,
        exists_and_left, exists_eq_left', Prod.exists] at h
      obtain ⟨-, payout, p₁, hrefund, h⟩ := h
      exact (sponsorRefundAs_ok hrefund rfl).start h
  | sponsorRefundTo recipient =>
      simp only [PoolCall.run, BountyPool.sponsorRefundTo, bind_eq_ok, enter_eq_ok, and_assoc,
        exists_and_left, exists_eq_left', Prod.exists, Unique.exists_iff] at h
      obtain ⟨-, -, payout, p₁, hrefund, h⟩ := h
      exact (sponsorRefundAs_ok hrefund rfl).start h
  | recoverForcedEth amount =>
      simp only [PoolCall.run, bind_eq_ok, Prod.exists] at h
      obtain ⟨payout, p₁, hforced, h⟩ := h
      exact (recoverForcedEth_ok hforced).start h
  | claimFees =>
      simp only [PoolCall.run, BountyPool.claimFees, bind_eq_ok, enter_eq_ok, and_assoc,
        exists_and_left, exists_eq_left', Prod.exists, Unique.exists_iff] at h
      obtain ⟨-, -, payout, p₁, hfee, h⟩ := h
      exact (claimFeesAs_ok hfee rfl).start h
  | claimFeesTo recipient =>
      simp only [PoolCall.run, BountyPool.claimFeesTo, bind_eq_ok, enter_eq_ok, and_assoc,
        exists_and_left, exists_eq_left', Prod.exists, Unique.exists_iff] at h
      obtain ⟨-, -, -, -, payout, p₁, hfee, h⟩ := h
      exact (claimFeesAs_ok hfee rfl).start h

/-- The ledger never reopens. -/
theorem BountyPool.PoolMove.closed {c : Call} (h : PoolMove d e l p c l' p' f) (hl : l.closed = true) :
    l'.closed = true := by
  cases h with
  | ledgerAdmin => exact hl
  | poolAdmin => exact hl
  | credit => exact hl
  | uncredit => exact hl
  | close => rfl
  | fund => exact hl
  | sweepNothing => exact hl
  | payout hbooked _ _ => rw [hbooked.closed_eq, hl]
  | earlyFee => exact hl

/-- Only `close` closes the ledger. -/
theorem BountyPool.PoolMove.closed_eq {c : Call} (h : PoolMove d e l p c l' p' f) :
    l'.closed = l.closed ∨ c = .ledger .close := by
  cases h with
  | close => exact Or.inr rfl
  | payout hbooked _ _ => exact Or.inl hbooked.closed_eq
  | _ => exact Or.inl rfl

/-- The calls that a call of the ledger or the pool leaves suspended are payouts. -/
theorem BountyPool.PoolMove.frames {c : Call} (h : PoolMove d e l p c l' p' f) :
    ∀ x ∈ f, ∃ payout, x = .payout payout := by
  intro x hx
  cases h with
  | payout => exact ⟨_, List.mem_singleton.mp hx⟩
  | earlyFee => exact ⟨_, List.mem_singleton.mp hx⟩
  | _ => cases hx

end P42Prizes
