import P42Prizes.FrontierMoves
import P42Prizes.ProRata

/-! # Conservation in the pool

Every wei that came into the pool is accounted for until it has gone out, on whichever side of a
payout's call the pool stands (`PoolLaws`).  The ledger and the pool together are read as a `Pot`:
the balance at the close is shared in proportion to the credits, and `claimedWeiOf` is what has
been paid out of it.  That the accrued fees stay covered by `accountedBalance` rests on the room
the pot leaves. -/

namespace P42Prizes

open Reverting Function Transition Finset

/-! ### The steps of the ledger and the pool -/

/-- What the submission manager does to the ledger. -/
inductive LedgerMove (l : PayoutLedger) : PayoutLedger → Prop
  | none : LedgerMove l l
  | credit {solver : Address} {atoms : ℕ} (ev : LedgerEvent) : l.closed = false →
      l.totalCreditAtoms + atoms ≤ maxTotalCreditAtoms → LedgerMove l ((l.credit solver atoms).emit ev)
  | uncredit {solver : Address} {atoms : ℕ} (ev : LedgerEvent) : l.closed = false →
      atoms ≤ l.creditAtomsOf solver → atoms ≤ l.totalCreditAtoms →
      LedgerMove l ((l.uncredit solver atoms).emit ev)

theorem SubmissionManager.Move.ledgerMove {d : Deployment} {e : Env} {l l' : PayoutLedger}
    {p : BountyPool} {s s' : SubmissionManager} {c : ManagerCall} {f : List Frame}
    (h : Move d e l p s c s' l' f) : LedgerMove l l' := by
  cases h with
  | finalize _ _ _ _ _ hcredit =>
      split at hcredit
      · rw [hcredit]
        exact .none
      · obtain ⟨-, hclosed, -, hle, rfl⟩ := PayoutLedger.recordCredit_ok hcredit.2
        exact .credit _ hclosed hle
  | void _ _ _ _ _ _ hcredit =>
      split at hcredit
      · rw [hcredit]
        exact .none
      · obtain ⟨-, hclosed, -, hsolver, htotal, rfl⟩ := PayoutLedger.voidCredit_ok hcredit
        exact .uncredit _ hclosed hsolver htotal
  | _ => exact .none

/-- What a step of the board means for the ledger and the pool. -/
inductive PoolStepped (d : Deployment) (w w' : World) : Prop
  | quiet (f : List Frame) : (∀ x, .payout x ∉ f) → w'.pool = w.pool →
      LedgerMove w.ledger w'.ledger →
      (w'.frames = f ++ w.frames ∨ w.frames = f ++ w'.frames) → PoolStepped d w w'
  | force (amount : ℕ) : w.pool.balance + amount < 2 ^ 256 → w'.ledger = w.ledger →
      w'.frames = w.frames → w'.pool = { w.pool with balance := w.pool.balance + amount } →
      PoolStepped d w w'
  | move (e : Env) (c : Call) (f : List Frame) : e.block = w.block → d.IsExternal e.sender →
      w.pool.balance + e.value < 2 ^ 256 →
      BountyPool.PoolMove d e w.ledger { w.pool with balance := w.pool.balance + e.value } c w'.ledger
        w'.pool f →
      w'.frames = f ++ w.frames → PoolStepped d w w'
  | finish (payout : Payout) (evs : List LedgerEvent) : w.frames = .payout payout :: w'.frames →
      w'.pool = w.pool.finish d payout → w'.ledger = { w.ledger with logs := evs ++ w.ledger.logs } →
      PoolStepped d w w'

theorem pool_stepped {d : Deployment} {w w' : World} {a : Action} (h : w.step d a = some w')
    (hbalance : w.pool.balance < 2 ^ 256) : PoolStepped d w w' := by
  cases stepped_of_step h with
  | tick => exact .quiet [] (fun _ => List.not_mem_nil) rfl .none (Or.inl rfl)
  | forceManager => exact .quiet [] (fun _ => List.not_mem_nil) rfl .none (Or.inl rfl)
  | forceChallenge => exact .quiet [] (fun _ => List.not_mem_nil) rfl .none (Or.inl rfl)
  | forcePool amount hlt => exact .force amount hlt rfl rfl rfl
  | @manager _ _ _ _ _ _ f _ _ _ hrun =>
      have hmove := SubmissionManager.move_of_run hrun
      refine .quiet f (fun x hx => ?_) rfl hmove.ledgerMove (Or.inl rfl)
      cases hmove <;> simp at hx
  | @challenge _ _ _ _ _ _ f hsender _ _ hrun =>
      have hmove := ChallengeManager.move_of_run hsender.ne.1 hrun
      refine .quiet f (fun x hx => ?_) rfl .none (Or.inl rfl)
      cases hmove <;> simp at hx
  | @ledger sender ext c p l f hsender hrun =>
      exact .move ⟨w.block, sender, 0, ext⟩ _ f rfl hsender hbalance (LedgerCall.move_of_run hrun) rfl
  | @pool sender value ext c p l f hsender _ hlt hrun =>
      exact .move ⟨w.block, sender, value, ext⟩ _ f rfl hsender hlt (PoolCall.move_of_run hrun) rfl
  | finishManager hf =>
      exact .quiet [_] (by simp) rfl .none (Or.inr hf)
  | finishChallenge hf =>
      exact .quiet [_] (by simp) rfl .none (Or.inr hf)
  | finishPayout hf hl =>
      obtain rfl | ⟨ev, rfl⟩ := hl
      · exact .finish _ [] hf rfl rfl
      · exact .finish _ [ev] hf rfl rfl

/-! ### The invariant -/

/-- The balance at the close, to be shared in proportion to the credits. -/
def PayoutLedger.pot (l : PayoutLedger) : Pot Address :=
  ⟨l.closedPoolBalance, l.creditAtomsOf, l.claimedWeiOf⟩

/-- What links the counters of the ledger and of the pool, at the time `now`. -/
structure Solvent (d : Deployment) (now : ℕ) (l : PayoutLedger) (p : BountyPool) : Prop where
  funded : p.accountedBalance + p.totalClaimed + p.totalFeePaid + p.totalSponsorRefunded +
    p.totalRolloverPaid = p.totalFunded
  funded_lt : p.totalFunded < 2 ^ 256
  fees : p.accruedFeeBalance + p.totalFeePaid = p.totalFeeAccrued
  held : p.accountedBalance ≤ p.balance
  gross : p.totalGrossClaimed = l.totalGrossClaimed
  fee : p.totalFeeAccrued = l.totalFeeAccrued
  split : p.totalClaimed + p.totalFeeAccrued = p.totalGrossClaimed
  cap : p.accountedBalance ≤ d.pc.fundingCap
  whole : l.closedPoolBalance ≤ d.pc.fundingCap
  bound : l.totalCreditAtoms ≤ maxTotalCreditAtoms
  credit : l.totalCreditAtoms = l.pot.total
  claimed : l.totalGrossClaimed = ∑ a, l.claimedWeiOf a
  sound : l.pot.Sound
  ledgerSet : p.totalFunded ≠ 0 → p.ledger ≠ 0
  idle : l.closed = false ∨ l.totalCreditAtoms = 0 →
    p.accountedBalance = ∑ a, p.sponsorshipOf a ∧ p.accruedFeeBalance = 0 ∧
      l.totalGrossClaimed = 0
  shared : l.closed = true → l.totalCreditAtoms ≠ 0 → l.rolloverSwept = false →
    p.accountedBalance + l.totalGrossClaimed = l.closedPoolBalance + p.accruedFeeBalance
  swept : l.rolloverSwept = true → p.accountedBalance = p.accruedFeeBalance
  late : l.rolloverSwept = true → l.closed = true ∧ l.totalCreditAtoms ≠ 0 ∧
    l.closedAt + claimDeadlineSeconds < now

namespace Solvent

variable {d : Deployment} {e : Env} {l l' : PayoutLedger} {p p' : BountyPool} {c : Call}
  {f : List Frame} {now : ℕ}

theorem claimed_le (h : Solvent d now l p) : l.totalGrossClaimed ≤ l.closedPoolBalance := by
  rw [h.claimed]
  exact h.sound.sum_paid_le

/-- The accrued fees are covered. -/
theorem accrued_le (h : Solvent d now l p) : p.accruedFeeBalance ≤ p.accountedBalance := by
  by_cases hidle : l.closed = false ∨ l.totalCreditAtoms = 0
  · rw [(h.idle hidle).2.1]
    exact Nat.zero_le _
  · rw [not_or, Bool.not_eq_false] at hidle
    cases hswept : l.rolloverSwept with
    | true => exact (h.swept hswept).ge
    | false =>
        have hshared := h.shared hidle.1 hidle.2 hswept
        have hle := h.claimed_le
        omega

/-- Nothing is claimed before the close, nor after one without credit. -/
theorem unclaimed (h : Solvent d now l p) (hidle : l.closed = false ∨ l.totalCreditAtoms = 0)
    (a : Address) : l.claimedWeiOf a = 0 := by
  have hzero := (h.idle hidle).2.2
  rw [h.claimed] at hzero
  exact sum_eq_zero_iff.mp hzero a (mem_univ a)

/-- The credits fit a word. -/
theorem credit_lt (h : Solvent d now l p) : l.totalCreditAtoms < 2 ^ 256 := by
  have hle := h.bound
  unfold maxTotalCreditAtoms at hle
  omega

theorem whole_lt (h : Solvent d now l p) : l.closedPoolBalance < 2 ^ 256 :=
  lt_of_le_of_lt h.whole d.pc.fundingCap_lt

/-- What `finalEntitlement` computes after a close with credit. -/
theorem entitlement (h : Solvent d now l p) (hcredit : l.totalCreditAtoms ≠ 0) (a : Address) :
    mulDiv l.closedPoolBalance (l.creditAtomsOf a) l.totalCreditAtoms = .ok (l.pot.share a) := by
  have hle : l.creditAtomsOf a ≤ l.totalCreditAtoms := by
    rw [h.credit]
    exact l.pot.weight_le_total a
  rw [mulDiv_share h.whole_lt hle h.credit_lt (Nat.pos_of_ne_zero hcredit)]
  unfold Pot.share
  rw [← h.credit]
  rfl

/-- A granted claim is for the whole share of a solver that has not claimed. -/
theorem of_grants (h : Solvent d now l p) {solver : Address} {gross fee : ℕ}
    (hg : l.Grants d e solver gross fee) :
    l.claimedWeiOf solver = 0 ∧ gross = l.pot.share solver := by
  obtain ⟨entitlement, hent, hgross⟩ := hg.share
  rw [h.entitlement hg.credited] at hent
  have hent := Except.ok.inj hent
  have hne := hg.nonzero
  have hpaid : l.claimedWeiOf solver = 0 ∨ l.claimedWeiOf solver = l.pot.share solver :=
    h.sound solver
  omega

theorem pot_consume (hzero : l.claimedWeiOf a = 0) (fee : ℕ) (ev : LedgerEvent) :
    ((l.consume a (l.pot.share a) fee).emit ev).pot = l.pot.pay a := by
  unfold PayoutLedger.consume
  rw [hzero, zero_add]
  rfl

/-! ### One lemma for each move -/

/-- The sponsors' principal under a change of one account. -/
theorem sum_sponsorship (g : Address → ℕ) (a : Address) (v : ℕ) :
    ∑ b, update g a v b + g a = ∑ b, g b + v := by
  have h := sum_comp_update univ id g (mem_univ a) v
  simpa only [id] using h

theorem deposit (h : Solvent d now l p) (v : ℕ) :
    Solvent d now l { p with balance := p.balance + v } :=
  { h with held := le_trans h.held (Nat.le_add_right _ _) }

theorem later (h : Solvent d now l p) {now' : ℕ} (hle : now ≤ now') : Solvent d now' l p :=
  { h with late := fun hs => ⟨(h.late hs).1, (h.late hs).2.1, lt_of_lt_of_le (h.late hs).2.2 hle⟩ }

theorem not_swept (h : Solvent d now l p) (hclosed : l.closed = false) : l.rolloverSwept = false := by
  by_contra hs
  rw [Bool.not_eq_false] at hs
  rw [(h.late hs).1] at hclosed
  cases hclosed

/-- Before the close the credits may change. -/
theorem recredit (h : Solvent d now l p) (hclosed : l.closed = false) {total : ℕ}
    {credits : Address → ℕ} (hle : total ≤ maxTotalCreditAtoms) (hsum : total = ∑ a, credits a)
    (logs : List LedgerEvent) : Solvent d now
      { l with totalCreditAtoms := total, creditAtomsOf := credits, logs := logs } p :=
  { h with
    bound := hle
    credit := hsum
    sound := fun a => Or.inl (h.unclaimed (Or.inl hclosed) a)
    idle := fun _ => h.idle (Or.inl hclosed)
    shared := fun hc => absurd (hclosed.symm.trans hc) Bool.false_ne_true
    late := fun hs => absurd ((h.not_swept hclosed).symm.trans hs) Bool.false_ne_true }

theorem ledgerMove (h : Solvent d now l p) (hmove : LedgerMove l l') : Solvent d now l' p := by
  have hcredit := h.credit
  change l.totalCreditAtoms = ∑ b, l.creditAtomsOf b at hcredit
  cases hmove with
  | none => exact h
  | @credit solver atoms ev hclosed hle =>
      have hsum := sum_sponsorship l.creditAtomsOf solver (l.creditAtomsOf solver + atoms)
      refine h.recredit hclosed hle ?_ _
      show l.totalCreditAtoms + atoms = ∑ b, update l.creditAtomsOf solver _ b
      omega
  | @uncredit solver atoms ev hclosed hsolver htotal =>
      have hsum := sum_sponsorship l.creditAtomsOf solver (l.creditAtomsOf solver - atoms)
      refine h.recredit hclosed (le_trans (Nat.sub_le _ _) h.bound) ?_ _
      show l.totalCreditAtoms - atoms = ∑ b, update l.creditAtomsOf solver _ b
      omega

/-- What the payouts do. -/
theorem booked (h : Solvent d e.now l p) {payout : Payout} (hb : BountyPool.Booked d e l p payout l' p')
    (hclosed : l.closed = true) (hle : payout.value ≤ p.balance) :
    Solvent d e.now l' (p'.send payout.value) := by
  have hheld := h.held
  have hfunded := h.funded
  have hfees := h.fees
  have hclaim : ∀ {gross fee donated : ℕ},
      l.Grants d { e with sender := d.pool } e.sender gross fee →
      gross - fee ≤ p.accountedBalance →
      Solvent d e.now ((l.consume e.sender gross fee).emit (.claimConsumed e.sender gross fee))
        ((p.settle gross fee donated).send (gross - fee)) := by
    intro gross fee donated hg hroom
    obtain ⟨hzero, hshare⟩ := h.of_grants hg
    have hfee := hg.fee_lt
    have hgross := h.gross
    have hlfee := h.fee
    have hsplit := h.split
    have hnot : l.rolloverSwept = false := by
      by_contra hs
      rw [Bool.not_eq_false] at hs
      have hlate := (h.late hs).2.2
      have htime := hg.inTime
      change e.now ≤ _ at htime
      omega
    have hshared := h.shared hclosed hg.credited hnot
    have hclaimed := h.claimed
    have hsum := sum_sponsorship l.claimedWeiOf e.sender
      (l.claimedWeiOf e.sender + gross)
    constructor
    · show p.accountedBalance - _ + (p.totalClaimed + _) + p.totalFeePaid + p.totalSponsorRefunded +
        p.totalRolloverPaid = p.totalFunded
      omega
    · exact h.funded_lt
    · show p.accruedFeeBalance + fee + p.totalFeePaid = p.totalFeeAccrued + fee
      omega
    · show p.accountedBalance - _ ≤ p.balance - _
      omega
    · show p.totalGrossClaimed + _ = l.totalGrossClaimed + _
      omega
    · show p.totalFeeAccrued + fee = l.totalFeeAccrued + fee
      omega
    · show p.totalClaimed + _ + (p.totalFeeAccrued + fee) = p.totalGrossClaimed + _
      omega
    · exact le_trans (Nat.sub_le _ _) h.cap
    · exact h.whole
    · exact h.bound
    · exact h.credit
    · simp only [PayoutLedger.emit_totalGrossClaimed, PayoutLedger.emit_claimedWeiOf,
        PayoutLedger.consume]
      omega
    · rw [hshare, pot_consume hzero]
      exact h.sound.pay e.sender
    · exact h.ledgerSet
    · intro hidle
      obtain hopen | hnone := hidle
      · rw [show l.closed = false from hopen] at hclosed
        cases hclosed
      · exact absurd hnone hg.credited
    · intro _ _ _
      show p.accountedBalance - _ + (l.totalGrossClaimed + _) =
        l.closedPoolBalance + (p.accruedFeeBalance + fee)
      omega
    · intro hs
      rw [show l.rolloverSwept = true from hs] at hnot
      cases hnot
    · exact h.late
  cases hb with
  | claim hg hroom => exact hclaim hg hroom
  | donation hg hroom => exact hclaim hg hroom
  | refund _ hnone hne hroom =>
      have hsum := sum_sponsorship p.sponsorshipOf e.sender 0
      obtain ⟨hprincipal, haccrued, hgross⟩ := h.idle (Or.inr hnone)
      refine { h with
        funded := ?_, held := ?_, cap := le_trans (Nat.sub_le _ _) h.cap
        idle := fun _ => ⟨?_, haccrued, hgross⟩, shared := fun _ hcredit => absurd hnone hcredit
        swept := fun hs => absurd hnone (h.late hs).2.1 }
      · show p.accountedBalance - p.sponsorshipOf e.sender + p.totalClaimed + p.totalFeePaid +
          (p.totalSponsorRefunded + p.sponsorshipOf e.sender) + p.totalRolloverPaid = p.totalFunded
        omega
      · show p.accountedBalance - p.sponsorshipOf e.sender ≤ p.balance - p.sponsorshipOf e.sender
        omega
      · show p.accountedBalance - p.sponsorshipOf e.sender = ∑ a, update p.sponsorshipOf e.sender 0 a
        omega
  | fee hne hroom =>
      refine { h with
        funded := ?_, fees := ?_, held := ?_, cap := le_trans (Nat.sub_le _ _) h.cap
        idle := fun hidle => absurd (h.idle hidle).2.1 hne, shared := fun hc hcredit hs => ?_
        swept := fun hs => ?_ }
      · show p.accountedBalance - p.accruedFeeBalance + p.totalClaimed +
          (p.totalFeePaid + p.accruedFeeBalance) + p.totalSponsorRefunded + p.totalRolloverPaid =
            p.totalFunded
        omega
      · show 0 + (p.totalFeePaid + p.accruedFeeBalance) = p.totalFeeAccrued
        omega
      · show p.accountedBalance - p.accruedFeeBalance ≤ p.balance - p.accruedFeeBalance
        omega
      · have hshared := h.shared hc hcredit hs
        have hclaimed := h.claimed_le
        show p.accountedBalance - p.accruedFeeBalance + l.totalGrossClaimed = l.closedPoolBalance + 0
        omega
      · have hswept := h.swept hs
        show p.accountedBalance - p.accruedFeeBalance = 0
        omega
  | @rollover recipient amount _ hcredit hnow hnot hroom hamount hne =>
      change amount ≤ p.balance at hle
      refine { h with
        funded := ?_, held := ?_, cap := le_trans (Nat.sub_le _ _) h.cap
        idle := fun hidle => ?_, shared := fun _ _ hs => (nomatch hs), swept := fun _ => ?_
        late := fun _ => ⟨hclosed, hcredit, hnow⟩ }
      · show p.accountedBalance - amount + p.totalClaimed + p.totalFeePaid + p.totalSponsorRefunded +
          (p.totalRolloverPaid + amount) = p.totalFunded
        omega
      · show p.accountedBalance - amount ≤ p.balance - amount
        omega
      · obtain hopen | hnone := hidle
        · rw [show l.closed = false from hopen] at hclosed
          cases hclosed
        · exact absurd hnone hcredit
      · show p.accountedBalance - amount = p.accruedFeeBalance
        omega
  | @forced destination amount _ hne hroom =>
      refine { h with held := ?_ }
      show p.accountedBalance ≤ p.balance - amount
      omega

/-- Every move of the ledger and the pool keeps the invariant. -/
theorem poolMove (h : Solvent d e.now l p) (hmove : BountyPool.PoolMove d e l p c l' p' f)
    (hroom : p.accountedBalance + e.value ≤ p.balance) : Solvent d e.now l' p' := by
  cases hmove with
  | ledgerAdmin => exact { h with }
  | poolAdmin hadmin =>
      obtain ⟨ledger, _, _, _, _, _, -, hledger, -, -, -, rfl⟩ := hadmin
      refine { h with ledgerSet := fun hne => ?_ }
      have hset := h.ledgerSet hne
      show ledger ≠ 0
      rw [hledger hset]
      exact hset
  | credit ev _ hclosed hle => exact h.ledgerMove (.credit ev hclosed hle)
  | uncredit ev _ hclosed hsolver htotal => exact h.ledgerMove (.uncredit ev hclosed hsolver htotal)
  | close recorder ev hclosed _ =>
      have hidle := h.idle (Or.inl hclosed)
      refine { h with
        whole := h.cap, sound := fun a => Or.inl (h.unclaimed (Or.inl hclosed) a)
        idle := fun _ => hidle, shared := fun _ _ _ => ?_
        late := fun hs => absurd ((h.not_swept hclosed).symm.trans hs) Bool.false_ne_true }
      show p.accountedBalance + l.totalGrossClaimed = p.accountedBalance + p.accruedFeeBalance
      omega
  | @fund c sponsor evs _ hledger hclosed hcap _ htotal _ =>
      have hsum := sum_sponsorship p.sponsorshipOf sponsor (p.sponsorshipOf sponsor + e.value)
      have hfunded := h.funded
      obtain ⟨hprincipal, haccrued, hgross⟩ := h.idle (Or.inl hclosed)
      refine { h with
        funded := ?_, funded_lt := htotal, held := hroom, cap := hcap, ledgerSet := fun _ => hledger
        idle := fun _ => ⟨?_, haccrued, hgross⟩
        shared := fun hc => absurd (hclosed.symm.trans hc) Bool.false_ne_true
        swept := fun hs => absurd ((h.not_swept hclosed).symm.trans hs) Bool.false_ne_true }
      · show p.accountedBalance + e.value + p.totalClaimed + p.totalFeePaid + p.totalSponsorRefunded +
          p.totalRolloverPaid = p.totalFunded + e.value
        omega
      · show p.accountedBalance + e.value = ∑ a, update p.sponsorshipOf sponsor _ a
        omega
  | sweepNothing ev hclosed hcredit hnow heq =>
      refine { h with
        idle := fun hidle => ?_, shared := fun _ _ hs => (nomatch hs), swept := fun _ => heq
        late := fun _ => ⟨hclosed, hcredit, hnow⟩ }
      obtain hopen | hnone := hidle
      · rw [show l.closed = false from hopen] at hclosed
        cases hclosed
      · exact absurd hnone hcredit
  | payout hbooked hclosed hle => exact h.booked hbooked hclosed hle
  | earlyFee hclosed hne => exact absurd (h.idle (Or.inl hclosed)).2.1 hne

end Solvent

/-! ### Along a run -/

theorem solvent_genesis (d : Deployment) (block : Block) (wiring : Wiring) :
    Solvent d block.timestamp (d.genesis block wiring).ledger (d.genesis block wiring).pool where
  funded := rfl
  funded_lt := Nat.two_pow_pos 256
  fees := rfl
  held := le_rfl
  gross := rfl
  fee := rfl
  split := rfl
  cap := Nat.zero_le _
  whole := Nat.zero_le _
  bound := Nat.zero_le _
  credit := sum_const_zero.symm
  claimed := sum_const_zero.symm
  sound _ := Or.inl rfl
  ledgerSet hne := absurd rfl hne
  idle _ := ⟨sum_const_zero.symm, rfl, rfl⟩
  shared hc := nomatch hc
  swept hs := nomatch hs
  late hs := nomatch hs

theorem BountyPool.PoolMove.balance_le {d : Deployment} {e : Env} {l l' : PayoutLedger}
    {p p' : BountyPool} {c : Call} {f : List Frame} (h : PoolMove d e l p c l' p' f)
    (hearly : l.closed = false → p.accruedFeeBalance = 0) : p'.balance ≤ p.balance := by
  cases h with
  | poolAdmin hadmin =>
      obtain ⟨_, _, _, _, _, _, -, -, -, -, -, rfl⟩ := hadmin
      exact le_rfl
  | payout hbooked _ _ => exact le_trans (Nat.sub_le _ _) hbooked.balance_eq.le
  | earlyFee hclosed hne => exact absurd (hearly hclosed) hne
  | _ => exact le_rfl

/-- A step keeps the invariant, and the balance a word. -/
theorem Solvent.step {d : Deployment} {w w' : World} {a : Action}
    (h : Solvent d w.block.timestamp w.ledger w.pool) (hlt : w.pool.balance < 2 ^ 256)
    (hstep : w.step d a = some w') :
    Solvent d w'.block.timestamp w'.ledger w'.pool ∧ w'.pool.balance < 2 ^ 256 := by
  have htime : w.block.timestamp ≤ w'.block.timestamp := by
    cases stepped_of_step hstep with
    | tick block _ _ hle => exact hle
    | _ => exact le_rfl
  cases pool_stepped hstep hlt with
  | quiet _ _ hpool hmove _ =>
      rw [hpool]
      exact ⟨(h.ledgerMove hmove).later htime, hlt⟩
  | force amount hsum hl _ hpool =>
      rw [hpool, hl]
      exact ⟨(h.deposit amount).later htime, hsum⟩
  | move e c f hblock _ hsum hmove _ =>
      have hnow : e.now = w.block.timestamp := congrArg Block.timestamp hblock
      have hdeposit : Solvent d e.now w.ledger { w.pool with balance := w.pool.balance + e.value } := by
        rw [hnow]
        exact h.deposit e.value
      refine ⟨(hdeposit.poolMove hmove ?_).later (hnow ▸ htime), ?_⟩
      · exact Nat.add_le_add_right h.held _
      · exact lt_of_le_of_lt (hmove.balance_le (fun hc => (h.idle (Or.inl hc)).2.1)) hsum
  | finish payout evs _ hpool hl =>
      rw [hpool, hl]
      have hfinish : Solvent d w.block.timestamp
          { w.ledger with logs := evs ++ w.ledger.logs } (w.pool.finish d payout) := { h with }
      exact ⟨hfinish.later htime, hlt⟩

theorem solvent_and_balance_lt {d : Deployment} {C : World → Action → Prop} {w : World}
    (h : d.protocol.Reachable C w) :
    Solvent d w.block.timestamp w.ledger w.pool ∧ w.pool.balance < 2 ^ 256 := by
  refine h.invariant (P := fun w => Solvent d w.block.timestamp w.ledger w.pool ∧
    w.pool.balance < 2 ^ 256) ?_ (fun w a w' _ hP _ hstep => hP.1.step hP.2 hstep)
  rintro _ ⟨block, wiring, -, -, rfl⟩
  exact ⟨solvent_genesis d block wiring, Nat.two_pow_pos 256⟩

theorem solvent_of_reachable {d : Deployment} {C : World → Action → Prop} {w : World}
    (h : d.protocol.Reachable C w) : Solvent d w.block.timestamp w.ledger w.pool :=
  (solvent_and_balance_lt h).1

/-! ### The laws of the pool -/

structure PoolLaws (d : Deployment) (w : World) : Prop where
  accounted : w.pool.accountedBalance + w.pool.totalClaimed + w.pool.totalFeePaid +
    w.pool.totalSponsorRefunded + w.pool.totalRolloverPaid = w.pool.totalFunded
  fees : w.pool.accruedFeeBalance + w.pool.totalFeePaid = w.pool.totalFeeAccrued
  accrued_le : w.pool.accruedFeeBalance ≤ w.pool.accountedBalance
  accounted_le : w.pool.accountedBalance ≤ w.pool.balance
  gross : w.pool.totalGrossClaimed = w.ledger.totalGrossClaimed
  fee : w.pool.totalFeeAccrued = w.ledger.totalFeeAccrued
  opened : w.ledger.closed = false →
    w.pool.accountedBalance = ∑ sponsor, w.pool.sponsorshipOf sponsor ∧
      w.pool.accountedBalance ≤ d.pc.fundingCap
  recover : ∀ sender value ext amount w',
    w.step d (.call sender value ext (.pool (.recoverForcedEth amount))) = some w' →
      w'.pool.accountedBalance ≤ w'.pool.balance

/-- **Conservation.**  The laws hold in every reachable state, also while payees are being
called. -/
theorem poolLaws_of_reachable {d : Deployment} {C : World → Action → Prop} {w : World}
    (h : d.protocol.Reachable C w) : PoolLaws d w := by
  obtain ⟨hs, hlt⟩ := solvent_and_balance_lt h
  exact ⟨hs.funded, hs.fees, hs.accrued_le, hs.held, hs.gross, hs.fee,
    fun hclosed => ⟨(hs.idle (Or.inl hclosed)).1, hs.cap⟩,
    fun _ _ _ _ _ hstep => (hs.step hlt hstep).1.held⟩

theorem poolLaws_sample : ∃ w, Sample.board.protocol.exec Sample.genesis Sample.fundingRun = some w ∧
    w.pool.totalFunded = 1000 ∧ PoolLaws Sample.board w := by
  have hrun : (Sample.board.protocol.exec Sample.genesis Sample.fundingRun).map (fun w =>
      decide (w.pool.totalFunded = 1000)) = some true := by decide +kernel
  obtain ⟨w, hw, hfacts⟩ := Option.map_eq_some_iff.mp hrun
  exact ⟨w, hw, of_decide_eq_true hfacts, poolLaws_of_reachable (.of_exec Sample.genesis_init.1 hw)⟩

end P42Prizes
