import Mathlib.Algebra.Order.Archimedean.Real.Basic
import Mathlib.Order.Bounds.Basic
import Mathlib.Tactic.Linarith
import Mathlib.Tactic.Positivity
import Mathlib.Tactic.Ring

/-! # Outward rounding to binary numbers

The numbers of precision `p` are the integers of at most `p` binary digits, scaled by a power of two.  A
set of reals is rounded outward to the greatest of them below the set and the least of them above it.  More
digits give more numbers, so the outward rounding of a smaller set at a higher precision lies inside. -/

namespace OutwardRounding

/-- The numbers of precision `p`. -/
def grid (p : ℕ) : Set ℝ := {x | ∃ m e : ℤ, |m| < 2 ^ p ∧ x = m * 2 ^ e}

variable {p q : ℕ} {x y : ℝ} {S T : Set ℝ} {lo hi lo' hi' : ℝ}

theorem grid_mono (h : p ≤ q) : grid p ⊆ grid q := by
  rintro x ⟨m, e, hm, rfl⟩
  exact ⟨m, e, hm.trans_le (pow_le_pow_right₀ (by decide) h), rfl⟩

theorem neg_mem_grid (h : x ∈ grid p) : -x ∈ grid p := by
  obtain ⟨m, e, hm, rfl⟩ := h
  exact ⟨-m, e, by rwa [abs_neg], by push_cast; ring⟩

theorem abs_mem_grid (h : x ∈ grid p) : |x| ∈ grid p := by
  rcases abs_choice x with hx | hx <;> rw [hx]
  · exact h
  · exact neg_mem_grid h

theorem intCast_mem_grid {n : ℤ} (h : |n| < 2 ^ p) : (n : ℝ) ∈ grid p :=
  ⟨n, 0, h, by rw [zpow_zero, mul_one]⟩

/-! ### The nearest numbers -/

theorem two_zpow_pos (e : ℤ) : (0 : ℝ) < 2 ^ e := zpow_pos (by norm_num) e

/-- The scale at which the integer part of a positive number has `p` binary digits. -/
theorem exists_scale (p : ℕ) (hx : 0 < x) :
    ∃ e : ℤ, (2 : ℝ) ^ (p - 1 : ℤ) * 2 ^ e ≤ x ∧ x < 2 ^ p * 2 ^ e := by
  obtain ⟨n, hle, hlt⟩ := exists_mem_Ico_zpow hx (by norm_num : (1 : ℝ) < 2)
  refine ⟨n + 1 - p, ?_, ?_⟩
  · rw [← zpow_add₀ (by norm_num), show (p - 1 + (n + 1 - p) : ℤ) = n by ring]
    exact hle
  · rw [← zpow_natCast, ← zpow_add₀ (by norm_num), show (p + (n + 1 - p) : ℤ) = n + 1 by ring]
    exact hlt

/-- At its scale, a number of precision `p` is an integer. -/
theorem exists_int_of_mem_grid {e : ℤ} (h : x ∈ grid p) (hx : (2 : ℝ) ^ (p - 1 : ℤ) * 2 ^ e ≤ x) :
    ∃ n : ℤ, x = n * 2 ^ e := by
  obtain ⟨m, f, hm, rfl⟩ := h
  have hle : e ≤ f := by
    by_contra hlt
    push Not at hlt
    have hm' : (m : ℝ) < 2 ^ p := by exact_mod_cast (le_abs_self m).trans_lt hm
    have hbound : (m : ℝ) * 2 ^ f < 2 ^ p * 2 ^ (e - 1) :=
      calc (m : ℝ) * 2 ^ f < 2 ^ p * 2 ^ f := mul_lt_mul_of_pos_right hm' (two_zpow_pos f)
        _ ≤ 2 ^ p * 2 ^ (e - 1) :=
          mul_le_mul_of_nonneg_left (zpow_le_zpow_right₀ (by norm_num) (by omega)) (by positivity)
    have heq : (2 : ℝ) ^ p * 2 ^ (e - 1) = 2 ^ (p - 1 : ℤ) * 2 ^ e := by
      rw [← zpow_natCast, ← zpow_add₀ (by norm_num), ← zpow_add₀ (by norm_num)]
      congr 1
      ring
    linarith
  obtain ⟨d, rfl⟩ := Int.le.dest hle
  refine ⟨m * 2 ^ d, ?_⟩
  rw [zpow_add₀ (by norm_num), zpow_natCast]
  push_cast
  ring

theorem zero_mem_grid (p : ℕ) : (0 : ℝ) ∈ grid p := ⟨0, 0, by positivity, by simp⟩

/-- The greatest number of precision `p` below a positive number. -/
theorem exists_isGreatest_of_pos (hp : 0 < p) (hx : 0 < x) : ∃ y, IsGreatest (grid p ∩ Set.Iic x) y := by
  obtain ⟨e, hle, hlt⟩ := exists_scale p hx
  have he := two_zpow_pos e
  refine ⟨⌊x / 2 ^ e⌋ * 2 ^ e, ⟨⟨_, e, ?_, rfl⟩, ?_⟩, ?_⟩
  · have hpos : 0 ≤ ⌊x / 2 ^ e⌋ := Int.floor_nonneg.mpr (div_pos hx he).le
    rw [abs_of_nonneg hpos]
    have hdiv : x / 2 ^ e < 2 ^ p := (div_lt_iff₀ he).mpr hlt
    exact_mod_cast (Int.floor_le (x / 2 ^ e)).trans_lt hdiv
  · exact (le_div_iff₀ he).mp (Int.floor_le _)
  · rintro y ⟨hy, hyx⟩
    have hdigits : (2 : ℝ) ^ (p - 1 : ℤ) ≤ ⌊x / 2 ^ e⌋ := by
      obtain ⟨d, rfl⟩ := Nat.exists_eq_succ_of_ne_zero hp.ne'
      have hcast : (2 : ℝ) ^ ((d + 1 : ℕ) - 1 : ℤ) = ((2 ^ d : ℤ) : ℝ) := by
        push_cast
        rw [add_sub_cancel_right, zpow_natCast]
      rw [hcast] at hle ⊢
      exact Int.cast_le.mpr (Int.le_floor.mpr ((le_div_iff₀ he).mpr hle))
    by_cases hsmall : y < 2 ^ (p - 1 : ℤ) * 2 ^ e
    · exact hsmall.le.trans (mul_le_mul_of_nonneg_right hdigits he.le)
    · obtain ⟨n, rfl⟩ := exists_int_of_mem_grid hy (not_lt.mp hsmall)
      have hn : n ≤ ⌊x / 2 ^ e⌋ := Int.le_floor.mpr ((le_div_iff₀ he).mpr hyx)
      exact mul_le_mul_of_nonneg_right (Int.cast_le.mpr hn) he.le

/-- The least number of precision `p` above a positive number. -/
theorem exists_isLeast_of_pos (hp : 0 < p) (hx : 0 < x) : ∃ y, IsLeast (grid p ∩ Set.Ici x) y := by
  obtain ⟨e, hle, hlt⟩ := exists_scale p hx
  have he := two_zpow_pos e
  refine ⟨⌈x / 2 ^ e⌉ * 2 ^ e, ⟨?_, ?_⟩, ?_⟩
  · have hpos : 0 ≤ ⌈x / 2 ^ e⌉ := Int.ceil_nonneg (div_pos hx he).le
    have hceil : ⌈x / 2 ^ e⌉ ≤ 2 ^ p := by
      refine Int.ceil_le.mpr ?_
      push_cast
      exact (div_le_iff₀ he).mpr hlt.le
    rcases hceil.lt_or_eq with hceil | hceil
    · exact ⟨_, e, by rwa [abs_of_nonneg hpos], rfl⟩
    · -- a carry into the next digit
      obtain ⟨d, rfl⟩ := Nat.exists_eq_succ_of_ne_zero hp.ne'
      refine ⟨2 ^ d, e + 1, ?_, ?_⟩
      · rw [abs_of_nonneg (by positivity), pow_succ]
        linarith [pow_pos (by decide : (0 : ℤ) < 2) d]
      · rw [hceil, zpow_add₀ (by norm_num), pow_succ]
        push_cast
        ring
  · exact (div_le_iff₀ he).mp (Int.le_ceil _)
  · rintro y ⟨hy, hxy⟩
    obtain ⟨n, rfl⟩ := exists_int_of_mem_grid hy (hle.trans hxy)
    have hn : ⌈x / 2 ^ e⌉ ≤ n := Int.ceil_le.mpr ((div_le_iff₀ he).mpr hxy)
    exact mul_le_mul_of_nonneg_right (Int.cast_le.mpr hn) he.le

theorem isLeast_neg (h : IsGreatest (grid p ∩ Set.Iic x) y) : IsLeast (grid p ∩ Set.Ici (-x)) (-y) := by
  refine ⟨⟨neg_mem_grid h.1.1, neg_le_neg (Set.mem_Iic.mp h.1.2)⟩, fun z hz => ?_⟩
  have hle : -z ≤ y := h.2 ⟨neg_mem_grid hz.1, neg_le.mp (Set.mem_Ici.mp hz.2)⟩
  exact neg_le.mp hle

theorem isGreatest_neg (h : IsLeast (grid p ∩ Set.Ici x) y) : IsGreatest (grid p ∩ Set.Iic (-x)) (-y) := by
  refine ⟨⟨neg_mem_grid h.1.1, neg_le_neg (Set.mem_Ici.mp h.1.2)⟩, fun z hz => ?_⟩
  have hle : y ≤ -z := h.2 ⟨neg_mem_grid hz.1, le_neg.mp (Set.mem_Iic.mp hz.2)⟩
  exact le_neg.mp hle

theorem exists_isGreatest (hp : 0 < p) (x : ℝ) : ∃ y, IsGreatest (grid p ∩ Set.Iic x) y := by
  rcases lt_trichotomy x 0 with hx | rfl | hx
  · obtain ⟨y, hy⟩ := exists_isLeast_of_pos hp (neg_pos.mpr hx)
    exact ⟨-y, neg_neg x ▸ isGreatest_neg hy⟩
  · exact ⟨0, ⟨zero_mem_grid p, Set.self_mem_Iic⟩, fun y hy => hy.2⟩
  · exact exists_isGreatest_of_pos hp hx

theorem exists_isLeast (hp : 0 < p) (x : ℝ) : ∃ y, IsLeast (grid p ∩ Set.Ici x) y := by
  obtain ⟨y, hy⟩ := exists_isGreatest hp (-x)
  exact ⟨-y, neg_neg x ▸ isLeast_neg hy⟩

/-! ### Rounding a set -/

/-- `lo` and `hi` are the nearest numbers of precision `p` below and above a set. -/
structure Rounds (p : ℕ) (S : Set ℝ) (lo hi : ℝ) : Prop where
  lower : IsGreatest (grid p ∩ lowerBounds S) lo
  upper : IsLeast (grid p ∩ upperBounds S) hi

theorem Rounds.mem (h : Rounds p S lo hi) (hx : x ∈ S) : lo ≤ x ∧ x ≤ hi := ⟨h.lower.1.2 hx, h.upper.1.2 hx⟩

theorem Rounds.mem_grid (h : Rounds p S lo hi) : lo ∈ grid p ∧ hi ∈ grid p := ⟨h.lower.1.1, h.upper.1.1⟩

/-- A number of precision `p` is kept. -/
theorem Rounds.exact (h : Rounds p {x} lo hi) (hx : x ∈ grid p) : lo = x ∧ hi = x := by
  obtain ⟨hlo, hhi⟩ := h.mem (Set.mem_singleton x)
  exact ⟨hlo.antisymm (h.lower.2 ⟨hx, fun y hy => (Set.mem_singleton_iff.mp hy).ge⟩),
    (h.upper.2 ⟨hx, fun y hy => (Set.mem_singleton_iff.mp hy).le⟩).antisymm hhi⟩

/-- More digits and a set that is bounded by the other give a smaller upper end. -/
theorem Rounds.upper_mono (h : Rounds p S lo hi) (h' : Rounds q T lo' hi') (hpq : p ≤ q)
    (hST : ∀ y ∈ T, ∃ x ∈ S, y ≤ x) : hi' ≤ hi := by
  refine h'.upper.2 ⟨grid_mono hpq h.mem_grid.2, fun y hy => ?_⟩
  obtain ⟨x, hx, hyx⟩ := hST y hy
  exact hyx.trans (h.mem hx).2

theorem Rounds.lower_mono (h : Rounds p S lo hi) (h' : Rounds q T lo' hi') (hpq : p ≤ q)
    (hST : ∀ y ∈ T, ∃ x ∈ S, x ≤ y) : lo ≤ lo' := by
  refine h'.lower.2 ⟨grid_mono hpq h.mem_grid.1, fun y hy => ?_⟩
  obtain ⟨x, hx, hxy⟩ := hST y hy
  exact (h.mem hx).1.trans hxy

/-- Every set with a least and a greatest element has an outward rounding. -/
theorem exists_rounds (hp : 0 < p) (hx : IsLeast S x) (hy : IsGreatest S y) : ∃ lo hi, Rounds p S lo hi := by
  obtain ⟨lo, hlo⟩ := exists_isGreatest hp x
  obtain ⟨hi, hhi⟩ := exists_isLeast hp y
  rw [← hx.isGLB.lowerBounds_eq] at hlo
  rw [← hy.isLUB.upperBounds_eq] at hhi
  exact ⟨lo, hi, hlo, hhi⟩

end OutwardRounding
