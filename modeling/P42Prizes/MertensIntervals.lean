import Mathlib.Analysis.SpecialFunctions.Log.Basic
import Mathlib.Topology.Order.Compact
import P42Prizes.MertensCeiling
import P42Prizes.OutwardRounding

/-! # What interval arithmetic promises

`Encloses`: every operation returns an interval that contains the exact result, and a number of the
precision in use is kept as it is.  `Outward`: every operation returns the nearest numbers of its precision
around the exact results; this is more, and there is such an arithmetic. -/

namespace P42Prizes.MertensCeiling

open OutwardRounding

/-- Neither infinite nor a NaN; these have no mantissa and an exponent that marks them. -/
def RawMpf.IsFinite (raw : RawMpf) : Prop := raw.mantissa = 0 → raw.exponent = 0

noncomputable def value (raw : RawMpf) : ℝ := (rawMpfToFraction raw : ℝ)

/-- The endpoints are finite and in order. -/
structure Proper (interval : Interval) : Prop where
  lower : interval.1.IsFinite
  upper : interval.2.IsFinite
  le : value interval.1 ≤ value interval.2

/-- The numbers in an interval. -/
def points (interval : Interval) : Set ℝ := Set.Icc (value interval.1) (value interval.2)

def Contains (interval : Interval) (x : ℝ) : Prop := Proper interval ∧ x ∈ points interval

/-- Both endpoints are the same number. -/
def IsPoint (interval : Interval) (x : ℝ) : Prop := Proper interval ∧ value interval.1 = x ∧ value interval.2 = x

structure Encloses (iv : IntervalArithmetic) : Prop where
  mpf : ∀ p (n : ℤ), 0 < p → Contains (iv.mpf p n) n
  mpf_exact : ∀ p (n : ℤ), 0 < p → |n| < 2 ^ p → IsPoint (iv.mpf p n) n
  log : ∀ p (k : ℕ), 0 < p → 0 < k → Contains (iv.log p k) (Real.log k)
  fdiv : ∀ p X Y x y, 0 < p → 0 < value Y.1 → Contains X x → Contains Y y → Contains (iv.fdiv p X Y) (x / y)
  add : ∀ p X Y x y, 0 < p → Contains X x → Contains Y y → Contains (iv.add p X Y) (x + y)
  add_precise : ∀ p X Y, 0 < p → Proper X → Proper Y →
    value (iv.add p X Y).1 ∈ grid p ∧ value (iv.add p X Y).2 ∈ grid p
  abs_exact : ∀ p raw, 0 < p → raw.IsFinite → value raw ∈ grid p → IsPoint (iv.abs p (raw, raw)) |value raw|
  gt : ∀ X Y, Proper X → Proper Y → (iv.gt X Y = true ↔ value Y.2 < value X.1)

/-- The interval is the outward rounding of a set. -/
def RoundsTo (p : ℕ) (S : Set ℝ) (interval : Interval) : Prop :=
  Proper interval ∧ Rounds p S (value interval.1) (value interval.2)

structure Outward (iv : IntervalArithmetic) : Prop where
  mpf : ∀ p (n : ℤ), 0 < p → RoundsTo p {(n : ℝ)} (iv.mpf p n)
  log : ∀ p (k : ℕ), 0 < p → 0 < k → RoundsTo p {Real.log k} (iv.log p k)
  fdiv : ∀ p X Y, 0 < p → 0 < value Y.1 → Proper X → Proper Y →
    RoundsTo p (Set.image2 (fun x y => x / y) (points X) (points Y)) (iv.fdiv p X Y)
  add : ∀ p X Y, 0 < p → Proper X → Proper Y →
    RoundsTo p (Set.image2 (fun x y => x + y) (points X) (points Y)) (iv.add p X Y)
  abs : ∀ p X, 0 < p → Proper X → RoundsTo p ((fun x => |x|) '' points X) (iv.abs p X)
  gt : ∀ X Y, Proper X → Proper Y → (iv.gt X Y = true ↔ value Y.2 < value X.1)

variable {p q : ℕ} {S T : Set ℝ} {X Y : Interval} {x : ℝ} {iv : IntervalArithmetic}

/-! ### Outward rounding encloses -/

theorem IsPoint.contains (h : IsPoint X x) : Contains X x := ⟨h.1, h.2.1.le, h.2.2.ge⟩

theorem IsPoint.points_eq (h : IsPoint X x) : points X = {x} := by rw [points, h.2.1, h.2.2, Set.Icc_self]

theorem RoundsTo.contains (h : RoundsTo p S X) (hx : x ∈ S) : Contains X x := ⟨h.1, h.2.mem hx⟩

theorem RoundsTo.exact (h : RoundsTo p {x} X) (hx : x ∈ grid p) : IsPoint X x := ⟨h.1, h.2.exact hx⟩

/-- More digits and a smaller set give a smaller interval. -/
theorem RoundsTo.subset (h : RoundsTo p S X) (h' : RoundsTo q T Y) (hpq : p ≤ q) (hTS : T ⊆ S) :
    points Y ⊆ points X :=
  Set.Icc_subset_Icc (h.2.lower_mono h'.2 hpq fun y hy => ⟨y, hTS hy, le_rfl⟩)
    (h.2.upper_mono h'.2 hpq fun y hy => ⟨y, hTS hy, le_rfl⟩)

theorem points_self (raw : RawMpf) : points (raw, raw) = {value raw} := Set.Icc_self _

theorem proper_self {raw : RawMpf} (h : raw.IsFinite) : Proper (raw, raw) := ⟨h, h, le_rfl⟩

theorem Outward.encloses (h : Outward iv) : Encloses iv where
  mpf p n hp := (h.mpf p n hp).contains rfl
  mpf_exact p n hp hn := (h.mpf p n hp).exact (intCast_mem_grid hn)
  log p k hp hk := (h.log p k hp hk).contains rfl
  fdiv p X Y x y hp hpos hX hY := (h.fdiv p X Y hp hpos hX.1 hY.1).contains ⟨x, hX.2, y, hY.2, rfl⟩
  add p X Y x y hp hX hY := (h.add p X Y hp hX.1 hY.1).contains ⟨x, hX.2, y, hY.2, rfl⟩
  add_precise p X Y hp hX hY := (h.add p X Y hp hX hY).2.mem_grid
  abs_exact p raw hp hraw hgrid := by
    have habs := h.abs p (raw, raw) hp (proper_self hraw)
    rw [points_self, Set.image_singleton] at habs
    exact habs.exact (abs_mem_grid hgrid)
  gt := h.gt

/-! ### An arithmetic that rounds outward -/

theorem value_eq (raw : RawMpf) :
    value raw = (if raw.sign then -1 else 1) * (raw.mantissa * 2 ^ raw.exponent) := by
  have hscaled : ((if 0 ≤ raw.exponent then raw.mantissa * 2 ^ raw.exponent.toNat
      else raw.mantissa / 2 ^ (-raw.exponent).toNat : ℚ) : ℝ) = raw.mantissa * 2 ^ raw.exponent := by
    split <;> rename_i he
    · push_cast
      rw [← zpow_natCast, Int.toNat_of_nonneg he]
    · push_cast
      rw [← zpow_natCast, Int.toNat_of_nonneg (by omega), zpow_neg, div_inv_eq_mul]
  unfold value rawMpfToFraction
  cases raw.sign with
  | false => rw [if_neg Bool.false_ne_true, if_neg Bool.false_ne_true, one_mul, hscaled]
  | true => rw [if_pos rfl, if_pos rfl, Rat.cast_neg, hscaled, neg_one_mul]

theorem exists_raw (hx : x ∈ grid p) : ∃ raw : RawMpf, raw.IsFinite ∧ value raw = x := by
  obtain ⟨m, e, -, rfl⟩ := hx
  by_cases hm : m = 0
  · exact ⟨⟨false, 0, 0, 0⟩, fun _ => rfl, by rw [value_eq, hm]; simp⟩
  · refine ⟨⟨m < 0, m.natAbs, e, m.natAbs.size⟩, fun h => absurd (Int.natAbs_eq_zero.mp h) hm, ?_⟩
    have habs : (m.natAbs : ℝ) = |(m : ℝ)| := by exact_mod_cast Nat.cast_natAbs m
    rw [value_eq, habs, ← mul_assoc]
    congr 1
    by_cases hneg : m < 0
    · rw [if_pos (decide_eq_true hneg), abs_of_neg (Int.cast_lt_zero.mpr hneg), neg_one_mul, neg_neg]
    · rw [if_neg (by simpa using hneg), abs_of_nonneg (Int.cast_nonneg (not_lt.mp hneg)), one_mul]

/-- Compact sets can be rounded outward. -/
theorem exists_roundsTo (hp : 0 < p) (hS : IsCompact S) (hne : S.Nonempty) : ∃ X, RoundsTo p S X := by
  obtain ⟨x, hx⟩ := hS.exists_isLeast hne
  obtain ⟨y, hy⟩ := hS.exists_isGreatest hne
  obtain ⟨lo, hi, h⟩ := exists_rounds hp hx hy
  obtain ⟨lower, hlower, rfl⟩ := exists_raw h.mem_grid.1
  obtain ⟨upper, hupper, rfl⟩ := exists_raw h.mem_grid.2
  exact ⟨(lower, upper), ⟨hlower, hupper, (h.mem hx.1).1.trans (h.mem hx.1).2⟩, h⟩

open Classical in
/-- The outward rounding of a set, if there is one. -/
noncomputable def roundOut (p : ℕ) (S : Set ℝ) : Interval :=
  if h : ∃ X, RoundsTo p S X then h.choose else (⟨false, 0, 0, 0⟩, ⟨false, 0, 0, 0⟩)

theorem roundsTo_roundOut (hp : 0 < p) (hS : IsCompact S) (hne : S.Nonempty) : RoundsTo p S (roundOut p S) := by
  have h := exists_roundsTo hp hS hne
  rw [roundOut, dif_pos h]
  exact h.choose_spec

/-- Every operation is the outward rounding of its exact results. -/
noncomputable def correctlyRounded : IntervalArithmetic where
  mpf p n := roundOut p {(n : ℝ)}
  log p k := roundOut p {Real.log k}
  fdiv p X Y := roundOut p (Set.image2 (fun x y => x / y) (points X) (points Y))
  add p X Y := roundOut p (Set.image2 (fun x y => x + y) (points X) (points Y))
  abs p X := roundOut p ((fun x => |x|) '' points X)
  gt X Y := rawMpfToFraction Y.2 < rawMpfToFraction X.1

theorem Proper.nonempty (h : Proper X) : (points X).Nonempty := Set.nonempty_Icc.mpr h.le

theorem correctlyRounded_outward : Outward correctlyRounded where
  mpf p n hp := roundsTo_roundOut hp isCompact_singleton (Set.singleton_nonempty _)
  log p k hp _ := roundsTo_roundOut hp isCompact_singleton (Set.singleton_nonempty _)
  fdiv p X Y hp hpos hX hY := by
    refine roundsTo_roundOut hp ?_ (hX.nonempty.image2 hY.nonempty)
    rw [← Set.image_prod]
    refine (isCompact_Icc.prod isCompact_Icc).image_of_continuousOn ?_
    exact continuousOn_fst.div continuousOn_snd fun z hz => (hpos.trans_le hz.2.1).ne'
  add p X Y hp hX hY := by
    refine roundsTo_roundOut hp ?_ (hX.nonempty.image2 hY.nonempty)
    rw [← Set.image_prod]
    exact (isCompact_Icc.prod isCompact_Icc).image continuous_add
  abs p X hp hX := roundsTo_roundOut hp (isCompact_Icc.image continuous_abs) (hX.nonempty.image _)
  gt X Y _ _ := decide_eq_true_iff.trans Rat.cast_lt.symm

end P42Prizes.MertensCeiling
