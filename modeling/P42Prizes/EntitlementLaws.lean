import P42Prizes.PoolConservation

/-! # Entitlements conserve the pool

After a close with credit the entitlement of a solver is its share of the closed balance, rounded down.
The entitlements together are at most the balance and miss it by less than one wei a credited solver; a
larger credit is never entitled to less; and a credit split over several addresses is paid at most what
it was paid before, and after the fee of each claim at most one wei an address more.  `settle_pool`, the
reference the contracts were written from, takes its fee from the whole pool first and rounds the payouts
down in the same way. -/

open Finset

namespace P42Prizes

open Reverting

/-- A ledger closed with credit, whose credits add up. -/
structure SettledLedger where
  ledger : PayoutLedger
  closed : ledger.closed = true
  credited : ledger.totalCreditAtoms ≠ 0
  bound : ledger.totalCreditAtoms ≤ maxTotalCreditAtoms
  credit : ledger.totalCreditAtoms = ∑ a, ledger.creditAtomsOf a
  whole_lt : ledger.closedPoolBalance < 2 ^ 256

namespace SettledLedger

variable {d : Deployment} {e : Env} {s s' : SettledLedger}

/-- The solvers with credit. -/
def solvers (s : SettledLedger) : Finset Address := {a | s.ledger.creditAtomsOf a ≠ 0}

theorem total_eq (s : SettledLedger) : s.ledger.pot.total = s.ledger.totalCreditAtoms := s.credit.symm

theorem total_ne_zero (s : SettledLedger) : s.ledger.pot.total ≠ 0 := by
  rw [s.total_eq]
  exact s.credited

theorem positiveCreditClose (s : SettledLedger) : s.ledger.positiveCreditClose = true := by
  rw [PayoutLedger.positiveCreditClose, s.closed, Bool.true_and, decide_eq_true_iff]
  exact s.credited

theorem mulDiv_entitlement (s : SettledLedger) (a : Address) :
    mulDiv s.ledger.closedPoolBalance (s.ledger.creditAtomsOf a) s.ledger.totalCreditAtoms =
      .ok (s.ledger.pot.share a) := by
  have hle : s.ledger.creditAtomsOf a ≤ s.ledger.totalCreditAtoms := by
    rw [← s.total_eq]
    exact s.ledger.pot.weight_le_total a
  have hlt : s.ledger.totalCreditAtoms < 2 ^ 256 := lt_of_le_of_lt s.bound (by decide)
  rw [mulDiv_share s.whole_lt hle hlt (Nat.pos_of_ne_zero s.credited), Pot.share, s.total_eq]
  rfl

theorem finalEntitlement_eq (s : SettledLedger) (a : Address) :
    s.ledger.finalEntitlement a = .ok (s.ledger.pot.share a) := by
  rw [PayoutLedger.finalEntitlement, if_pos s.positiveCreditClose, s.mulDiv_entitlement]

/-- `m` is the ledger after some claims. -/
structure Claiming (s : SettledLedger) (m : PayoutLedger) : Prop where
  closed : m.closed = s.ledger.closed
  whole : m.closedPoolBalance = s.ledger.closedPoolBalance
  total : m.totalCreditAtoms = s.ledger.totalCreditAtoms
  credit : m.creditAtomsOf = s.ledger.creditAtomsOf

/-- The first claim of `a`, at some time and after some claims of others. -/
def FirstClaim (d : Deployment) (s : SettledLedger) (a : Address) (gross fee : ℕ) : Prop :=
  ∃ e m m', s.Claiming m ∧ m.claimedWeiOf a = 0 ∧ m.consumeClaim d e a = .ok ((gross, fee), m')

/-- A first claim is for the whole entitlement, and its fee is rounded down. -/
theorem FirstClaim.amounts {a : Address} {gross fee : ℕ} (h : s.FirstClaim d a gross fee) :
    gross = s.ledger.pot.share a ∧ fee = gross * d.lc.feeBps / 10000 := by
  obtain ⟨e, m, m', hm, hclaimed, hclaim⟩ := h
  have hpos : m.positiveCreditClose = true := by
    rw [PayoutLedger.positiveCreditClose, hm.closed, hm.total]
    exact s.positiveCreditClose
  have htotal : m.totalCreditAtoms ≠ 0 := hm.total ▸ s.credited
  simp only [PayoutLedger.consumeClaim, bind_eq_ok, revertIf_eq_ok, exists_const, not_not, hpos,
    if_true, checkedAdd_eq_ok, pure_eq_ok, and_assoc, exists_and_left, exists_eq_left',
    PayoutLedger.claimDeadline_of_credited (hm.closed.trans s.closed) htotal, not_lt, gt_iff_lt,
    Prod.mk.injEq] at hclaim
  obtain ⟨-, -, hlt, hnow, _, hclaimable, -, _, hfee, -, -, rfl, rfl, rfl⟩ := hclaim
  simp only [PayoutLedger.claimable, hpos, if_true, bind_eq_ok, and_assoc, exists_and_left,
    PayoutLedger.claimDeadline_of_credited (hm.closed.trans s.closed) htotal, exists_eq_left',
    gt_iff_lt, not_lt.mpr hnow, if_false, PayoutLedger.finalEntitlement, pure_eq_ok, hclaimed,
    hm.whole, hm.credit, hm.total, s.mulDiv_entitlement, Except.ok.injEq, Nat.sub_zero] at hclaimable
  refine ⟨hclaimable.2.symm, ?_⟩
  have hgross : _ < 2 ^ 256 := mulDiv_lt (s.mulDiv_entitlement a)
  have hrate : d.lc.feeBps ≤ 10000 := d.lc.feeBps_le.trans (by decide)
  rw [← hclaimable.2, mulDiv_share hgross hrate (by decide) (by decide)] at hfee
  rw [← hclaimable.2]
  exact (Except.ok.inj hfee).symm

theorem FirstClaim.paid {a : Address} {gross fee : ℕ} (h : s.FirstClaim d a gross fee) :
    gross - fee = Pot.afterFee d.lc.feeBps 10000 (s.ledger.pot.share a) := by
  obtain ⟨hgross, hfee⟩ := h.amounts
  rw [hfee, hgross, Pot.afterFee]

/-- `T` has in `s'` the credit that `a` has in `s`; the balance and the total are the same. -/
structure Splits (s s' : SettledLedger) (a : Address) (T : Finset Address) : Prop where
  whole : s'.ledger.closedPoolBalance = s.ledger.closedPoolBalance
  total : s'.ledger.totalCreditAtoms = s.ledger.totalCreditAtoms
  credit : ∑ t ∈ T, s'.ledger.creditAtomsOf t = s.ledger.creditAtomsOf a

theorem Splits.share_le {a : Address} {T : Finset Address} (h : s.Splits s' a T) :
    ∑ t ∈ T, s'.ledger.pot.share t ≤ s.ledger.pot.share a :=
  Pot.sum_share_le_share h.whole (by rw [s'.total_eq, s.total_eq]; exact h.total) h.credit.le

end SettledLedger

/-! ### The reference -/

/-- `Credit`; the fields are the checks of `__post_init__`. -/
structure Credit where
  solver : String
  improvement : ℚ
  solver_ne : solver ≠ ""
  improvement_pos : 0 < improvement

/-- A row of `payouts`. -/
structure PayoutRow where
  solver : String
  improvement : ℚ
  amountWei : ℤ

/-- What `settle_pool` returns. -/
structure Settlement where
  poolWei : ℤ
  feeBps : ℤ
  feeWei : ℤ
  availableWei : ℤ
  totalImprovement : ℚ
  payouts : List PayoutRow
  dustWei : ℤ

/-- `_floor_fraction` -/
def floorFraction (value : ℚ) : ℤ := value.num / value.den

def payoutRow (availableWei : ℤ) (totalImprovement : ℚ) (credit : Credit) : PayoutRow :=
  ⟨credit.solver, credit.improvement,
    floorFraction (availableWei * credit.improvement / totalImprovement)⟩

def settlePool (poolWei : ℤ) (credits : List Credit) (feeBps : ℤ) (maxDenominator : ℕ) :
    Except String Settlement := do
  revertIf (poolWei < 0) "pool_wei must be non-negative"
  revertIf (feeBps < 0 ∨ feeBps > 250) "fee_bps must be between 0 and 250"
  let totalImprovement := (credits.map Credit.improvement).sum
  revertIf (totalImprovement.den > maxDenominator)
    s!"combined improvement denominator {totalImprovement.den} exceeds the settlement bound {maxDenominator}; pin a fixed per-problem denominator"
  if totalImprovement = 0 then pure ⟨poolWei, feeBps, 0, poolWei, 0, [], poolWei⟩
  else
    let feeWei := poolWei * feeBps / 10000
    let availableWei := poolWei - feeWei
    let payouts := credits.map (payoutRow availableWei totalImprovement)
    let paid := (payouts.map PayoutRow.amountWei).sum
    pure ⟨poolWei, feeBps, feeWei, availableWei, totalImprovement, payouts, availableWei - paid⟩

theorem floorFraction_eq (value : ℚ) : floorFraction value = ⌊value⌋ := (Rat.floor_def value).symm

theorem sum_floor_le (xs : List ℚ) : (((xs.map Int.floor).sum : ℤ) : ℚ) ≤ xs.sum := by
  induction xs with
  | nil => exact le_of_eq rfl
  | cons x xs ih =>
      rw [List.map_cons, List.sum_cons, List.sum_cons, Int.cast_add]
      exact add_le_add (Int.floor_le x) ih

theorem lt_sum_floor {xs : List ℚ} (h : xs ≠ []) :
    xs.sum < (((xs.map Int.floor).sum : ℤ) : ℚ) + xs.length := by
  induction xs with
  | nil => exact absurd rfl h
  | cons x xs ih =>
      rw [List.map_cons, List.sum_cons, List.sum_cons, Int.cast_add, List.length_cons, Nat.cast_add,
        Nat.cast_one]
      have hx := Int.lt_floor_add_one x
      by_cases hnil : xs = []
      · subst hnil
        simp only [List.map_nil, List.sum_nil, List.length_nil, Int.cast_zero, Nat.cast_zero]
        linarith
      · have hxs := ih hnil
        linarith

theorem sum_improvement_pos {credits : List Credit} (h : credits ≠ []) :
    0 < (credits.map Credit.improvement).sum := by
  refine List.sum_pos _ ?_ (by simpa using h)
  intro x hx
  obtain ⟨credit, -, rfl⟩ := List.mem_map.mp hx
  exact credit.improvement_pos

/-- The parts of the available amount before they are rounded. -/
theorem sum_parts {credits : List Credit} (h : credits ≠ []) (availableWei : ℤ) :
    (credits.map fun credit => availableWei * credit.improvement /
      (credits.map Credit.improvement).sum).sum = availableWei := by
  have hne := (sum_improvement_pos h).ne'
  generalize hw : (credits.map Credit.improvement).sum = w at hne
  have hsum : (credits.map fun credit => availableWei * credit.improvement / w).sum =
      availableWei * (credits.map Credit.improvement).sum / w := by
    simp only [mul_comm (availableWei : ℚ), List.sum_map_mul_right, div_eq_mul_inv]
  rw [hsum, hw, mul_div_assoc, div_self hne, mul_one]

/-- The payouts of the reference are at most what is available, and miss it by less than one wei a
credit. -/
theorem settlePool_conserves {poolWei feeBps : ℤ} {credits : List Credit} {maxDenominator : ℕ}
    {r : Settlement} (h : settlePool poolWei credits feeBps maxDenominator = .ok r)
    (hne : credits ≠ []) :
    (r.payouts.map PayoutRow.amountWei).sum + r.dustWei = r.availableWei ∧ 0 ≤ r.dustWei ∧
      r.dustWei < credits.length := by
  have hpos := sum_improvement_pos hne
  simp only [settlePool, bind_eq_ok, revertIf_eq_ok, exists_const, if_neg hpos.ne', pure_eq_ok] at h
  obtain ⟨-, -, -, rfl⟩ := h
  generalize havailable : poolWei - poolWei * feeBps / 10000 = availableWei
  have hamounts : ((credits.map (payoutRow availableWei (credits.map Credit.improvement).sum)).map
      PayoutRow.amountWei) = (credits.map fun credit => availableWei * credit.improvement /
        (credits.map Credit.improvement).sum).map Int.floor := by
    rw [List.map_map, List.map_map]
    exact List.map_congr_left (fun credit _ => floorFraction_eq _)
  have hsum := sum_parts hne availableWei
  generalize hparts : (credits.map fun credit => availableWei * credit.improvement /
    (credits.map Credit.improvement).sum) = parts at hamounts hsum
  have hlength : parts.length = credits.length := by rw [← hparts, List.length_map]
  have hnil : parts ≠ [] := by
    intro hnil
    rw [hnil] at hlength
    exact hne (List.length_eq_zero_iff.mp hlength.symm)
  have hle := sum_floor_le parts
  have hlt := lt_sum_floor hnil
  rw [hsum] at hle hlt
  rw [hlength] at hlt
  simp only [hamounts]
  refine ⟨by ring, by exact_mod_cast sub_nonneg.mpr hle, ?_⟩
  have hlt : availableWei < (parts.map Int.floor).sum + credits.length := by exact_mod_cast hlt
  omega

/-! ### Both -/

/-- What a ledger settled with the entitlements `g` pays. -/
structure Conserves (s : SettledLedger) (g : Address → ℕ) : Prop where
  entitled : ∀ a, s.ledger.finalEntitlement a = .ok (g a)
  total_le : ∀ S : Finset Address, ∑ a ∈ S, g a ≤ s.ledger.closedPoolBalance
  lt_total : s.ledger.closedPoolBalance < ∑ a ∈ s.solvers, g a + s.solvers.card
  mono : ∀ a b, s.ledger.creditAtomsOf a ≤ s.ledger.creditAtomsOf b → g a ≤ g b

/-- What another assignment of credits pays in comparison. -/
structure Compares (d : Deployment) (s s' : SettledLedger) (g g' : Address → ℕ) : Prop where
  more : ∀ a, s'.ledger.closedPoolBalance = s.ledger.closedPoolBalance →
    (∀ b, b ≠ a → s'.ledger.creditAtomsOf b = s.ledger.creditAtomsOf b) →
    s.ledger.creditAtomsOf a ≤ s'.ledger.creditAtomsOf a → g a ≤ g' a
  split : ∀ a T, s.Splits s' a T → ∑ t ∈ T, g' t ≤ g a
  paid : ∀ a T (gross fee : Address → ℕ) gross₀ fee₀, s.Splits s' a T →
    (∀ t ∈ T, s'.FirstClaim d t (gross t) (fee t)) → s.FirstClaim d a gross₀ fee₀ →
    ∑ t ∈ T, (gross t - fee t) ≤ gross₀ - fee₀ + T.card

/-- Entitlements conserve the pool, grow with the credit, and gain nothing from splitting it; the
reference conserves the pool in the same way. -/
theorem entitlementLaws (d : Deployment) :
    (∀ s, ∃ g, Conserves s g ∧ ∀ s', ∃ g', Conserves s' g' ∧ Compares d s s' g g') ∧
    ∀ poolWei credits feeBps maxDenominator r, settlePool poolWei credits feeBps maxDenominator = .ok r →
      credits ≠ [] → (r.payouts.map PayoutRow.amountWei).sum + r.dustWei = r.availableWei ∧
        0 ≤ r.dustWei ∧ r.dustWei < credits.length := by
  have hconserves : ∀ s : SettledLedger, Conserves s s.ledger.pot.share := by
    intro s
    refine ⟨s.finalEntitlement_eq, ?_, Pot.lt_sum_share s.total_ne_zero, ?_⟩
    · intro S
      exact (sum_le_univ_sum_of_nonneg fun _ => Nat.zero_le _).trans s.ledger.pot.sum_share_le
    · intro a b hle
      exact Pot.share_mono (p := s.ledger.pot) hle
  refine ⟨?_, fun _ _ _ _ _ => settlePool_conserves⟩
  intro s
  refine ⟨s.ledger.pot.share, hconserves s, fun s' => ⟨s'.ledger.pot.share, hconserves s', ?_⟩⟩
  have hmore : ∀ a, s'.ledger.closedPoolBalance = s.ledger.closedPoolBalance →
      (∀ b, b ≠ a → s'.ledger.creditAtomsOf b = s.ledger.creditAtomsOf b) →
      s.ledger.creditAtomsOf a ≤ s'.ledger.creditAtomsOf a →
      s.ledger.pot.share a ≤ s'.ledger.pot.share a := by
    intro a hwhole hrest hle
    exact Pot.share_le_share (q := s'.ledger.pot) hwhole s.total_ne_zero hrest hle
  refine ⟨hmore, fun a T h => h.share_le, ?_⟩
  intro a T gross fee gross₀ fee₀ hsplit hclaims hclaim
  have hrate : d.lc.feeBps ≤ 10000 := d.lc.feeBps_le.trans (by decide)
  calc ∑ t ∈ T, (gross t - fee t)
      = ∑ t ∈ T, Pot.afterFee d.lc.feeBps 10000 (s'.ledger.pot.share t) :=
        sum_congr rfl (fun t ht => (hclaims t ht).paid)
    _ ≤ Pot.afterFee d.lc.feeBps 10000 (s.ledger.pot.share a) + T.card :=
        Pot.sum_afterFee_le (by decide) hrate hsplit.share_le
    _ = gross₀ - fee₀ + T.card := by rw [hclaim.paid]

end P42Prizes
