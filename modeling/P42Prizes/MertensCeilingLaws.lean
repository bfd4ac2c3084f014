import P42Prizes.MertensIntervals
import P42Prizes.WeakDuality

/-! # The Mertens ceiling is a ceiling

One round of the loop adds at least the absolute value of the exact residual, so the upper end of the sum is
at least the sum of all of them, and the accepted decimal is at least the bound of the multipliers.  By weak
duality no construction that meets the rows exceeds it.  With outward rounding, the upper end at the higher
precision never exceeds the one at the lower precision: both enclose the same residuals. -/

open Finset

namespace P42Prizes.MertensCeiling

open OutwardRounding WeakDuality Reverting Verifier
open SparseMertens (Raised)

variable {iv : IntervalArithmetic} {rows : List Row} {p q k : ℕ} {total total' : Interval} {T : ℝ}

/-! ### Residuals -/

/-- `N_k` -/
def remainderSum (rows : List Row) (k : ℕ) : ℤ :=
  (rows.map fun row => (row.2 : ℤ) * (k * (row.1 / k : ℕ) - row.1)).sum

theorem residualAt_eq (rows : List Row) (k : ℕ) : residualAt rows k = remainderSum rows k := by
  have hfold : ∀ acc : ℤ, rows.foldl (fun residual row => residual + row.2 * -((row.1 % k : ℕ) : ℤ)) acc =
      acc + remainderSum rows k := by
    induction rows with
    | nil => intro acc; exact (add_zero acc).symm
    | cons row rows ih =>
        intro acc
        have hmod : (row.1 : ℤ) = k * (row.1 / k : ℕ) + (row.1 % k : ℕ) := by
          exact_mod_cast (Nat.div_add_mod row.1 k).symm
        rw [List.foldl_cons, ih, remainderSum, remainderSum, List.map_cons, List.sum_cons, ← add_assoc]
        congr 2
        rw [hmod]
        ring
  exact (hfold 0).trans (zero_add _)

/-- `r_k`, with the exact logarithm. -/
noncomputable def residual (rows : List Row) (k : ℕ) : ℝ :=
  -(Real.log k) / k - remainderSum rows k / (k * denominator)

/-- The bound that the multipliers `Y / D` give. -/
noncomputable def bound (rows : List Row) : ℝ :=
  10001 / 10000 * (rows.map fun row => (row.2 : ℝ) / denominator).sum + 10 * ∑ k ∈ Icc 2 K, |residual rows k|

theorem denominator_pos : (0 : ℝ) < denominator := by
  rw [denominator]
  positivity

theorem abs_residual (rows : List Row) (hk : 0 < k) :
    |residual rows k| = |Real.log k + remainderSum rows k / denominator| / k := by
  have hk' : (0 : ℝ) < k := Nat.cast_pos.mpr hk
  have hneg : residual rows k = -((Real.log k + remainderSum rows k / denominator) / k) := by
    rw [residual]
    field_simp
    ring
  rw [hneg, abs_neg, abs_div, abs_of_pos hk']

/-! ### One round -/

/-- The enclosure of `ln k + N_k / D`. -/
def intervalValue (iv : IntervalArithmetic) (rows : List Row) (p k : ℕ) : Interval :=
  iv.add p (iv.log p k) (iv.fdiv p (iv.mpf p (residualAt rows k)) (iv.mpf p denominator))

/-- Its greatest absolute value. -/
def magnitude (iv : IntervalArithmetic) (rows : List Row) (p k : ℕ) : Interval :=
  maxInterval iv (iv.abs p ((intervalValue iv rows p k).1, (intervalValue iv rows p k).1))
    (iv.abs p ((intervalValue iv rows p k).2, (intervalValue iv rows p k).2))

theorem residualStep_eq (iv : IntervalArithmetic) (rows : List Row) (p : ℕ) (total : Interval) (k : ℕ) :
    residualStep iv rows p total k = iv.add p total (iv.fdiv p (magnitude iv rows p k) (iv.mpf p k)) := rfl

theorem maxInterval_isPoint (h : Encloses iv) {X Y : Interval} {x y : ℝ} (hX : IsPoint X x) (hY : IsPoint Y y) :
    IsPoint (maxInterval iv X Y) (max x y) := by
  have hgt := h.gt Y X hY.1 hX.1
  rw [hX.2.2, hY.2.1] at hgt
  unfold maxInterval
  split <;> rename_i hif
  · rw [max_eq_right (hgt.mp hif).le]
    exact hY
  · rw [max_eq_left (not_lt.mp (mt hgt.mpr hif))]
    exact hX

/-- A positive integer of the precision is a positive point. -/
theorem mpf_isPoint (h : Encloses iv) (hp : 0 < p) (hk : k < 2 ^ p) : IsPoint (iv.mpf p k) k := by
  have hpoint := h.mpf_exact p k hp (by rw [Nat.abs_cast]; exact_mod_cast hk)
  rwa [Int.cast_natCast] at hpoint

theorem mpf_pos (h : Encloses iv) (hp : 0 < p) (hk : 0 < k) (hkp : k < 2 ^ p) : 0 < value (iv.mpf p k).1 := by
  rw [(mpf_isPoint h hp hkp).2.1]
  exact Nat.cast_pos.mpr hk

variable (rows) (hp : denominatorPower < p) (hk : 0 < k) (hkp : k < 2 ^ p)
include hp hk

theorem intervalValue_contains (h : Encloses iv) :
    Contains (intervalValue iv rows p k) (Real.log k + remainderSum rows k / denominator) := by
  have hp' : 0 < p := Nat.zero_lt_of_lt hp
  have hden : denominator < 2 ^ p := Nat.pow_lt_pow_right (by decide) hp
  have hdiv := h.fdiv p _ _ _ _ hp' (mpf_pos h hp' (by decide) hden) (h.mpf p (residualAt rows k) hp')
    (mpf_isPoint h hp' hden).contains
  rw [residualAt_eq] at hdiv
  rw [intervalValue, residualAt_eq]
  exact h.add p _ _ _ _ hp' (h.log p k hp' hk) hdiv

theorem magnitude_isPoint (h : Encloses iv) : IsPoint (magnitude iv rows p k)
    (max |value (intervalValue iv rows p k).1| |value (intervalValue iv rows p k).2|) := by
  have hp' : 0 < p := Nat.zero_lt_of_lt hp
  have hvalue := (intervalValue_contains rows hp hk h).1
  have hden : denominator < 2 ^ p := Nat.pow_lt_pow_right (by decide) hp
  have hgrid := h.add_precise p (iv.log p k) (iv.fdiv p (iv.mpf p (residualAt rows k)) (iv.mpf p denominator)) hp'
    (h.log p k hp' hk).1 (h.fdiv p _ _ _ _ hp' (mpf_pos h hp' (by decide) hden)
      (h.mpf p (residualAt rows k) hp') (mpf_isPoint h hp' hden).contains).1
  exact maxInterval_isPoint h (h.abs_exact p _ hp' hvalue.lower hgrid.1)
    (h.abs_exact p _ hp' hvalue.upper hgrid.2)

include hkp

theorem residualStep_contains (h : Encloses iv) (htotal : Contains total T) :
    ∃ T', Contains (residualStep iv rows p total k) T' ∧ T + |residual rows k| ≤ T' := by
  have hp' : 0 < p := Nat.zero_lt_of_lt hp
  have hvalue := (intervalValue_contains rows hp hk h).2
  have hdiv := h.fdiv p _ _ _ _ hp' (mpf_pos h hp' hk hkp) (magnitude_isPoint rows hp hk h).contains
    (mpf_isPoint h hp' hkp).contains
  refine ⟨_, h.add p _ _ _ _ hp' htotal hdiv, ?_⟩
  rw [abs_residual rows hk]
  exact add_le_add_right (div_le_div_of_nonneg_right (abs_le_max_abs_abs hvalue.1 hvalue.2) (Nat.cast_nonneg k)) T

/-- At a higher precision, a round gives a smaller upper end. -/
theorem residualStep_upper (h : Outward iv) (hpq : p ≤ q) (htotal : Proper total) (htotal' : Proper total')
    (hle : value total'.2 ≤ value total.2) :
    value (residualStep iv rows q total' k).2 ≤ value (residualStep iv rows p total k).2 := by
  have hp' : 0 < p := Nat.zero_lt_of_lt hp
  have hq : denominatorPower < q := hp.trans_le hpq
  have hq' : 0 < q := Nat.zero_lt_of_lt hq
  have hkq : k < 2 ^ q := hkp.trans_le (Nat.pow_le_pow_right (by decide) hpq)
  have hen := h.encloses
  have hden : 0 < value (iv.mpf p denominator).1 :=
    mpf_pos hen hp' (by decide) (Nat.pow_lt_pow_right (by decide) hp)
  have hden' : 0 < value (iv.mpf q denominator).1 :=
    mpf_pos hen hq' (by decide) (Nat.pow_lt_pow_right (by decide) hq)
  -- the enclosures of the residual are nested
  have hvalue : points (intervalValue iv rows q k) ⊆ points (intervalValue iv rows p k) := by
    have hlog := (h.log p k hp' hk).subset (h.log q k hq' hk) hpq subset_rfl
    have hmpf := (h.mpf p (residualAt rows k) hp').subset (h.mpf q (residualAt rows k) hq') hpq subset_rfl
    have hmpfD := (h.mpf p denominator hp').subset (h.mpf q denominator hq') hpq subset_rfl
    have hp1 := (h.fdiv p _ _ hp' hden (h.mpf p (residualAt rows k) hp').1 (h.mpf p denominator hp').1)
    have hq1 := (h.fdiv q _ _ hq' hden' (h.mpf q (residualAt rows k) hq').1 (h.mpf q denominator hq').1)
    have hdiv := hp1.subset hq1 hpq (Set.image2_subset hmpf hmpfD)
    exact (h.add p _ _ hp' (h.log p k hp' hk).1 hp1.1).subset (h.add q _ _ hq' (h.log q k hq' hk).1 hq1.1) hpq
      (Set.image2_subset hlog hdiv)
  have hmagnitude := magnitude_isPoint rows hp hk hen
  have hmagnitude' := magnitude_isPoint rows hq hk hen
  have hsmaller : value (magnitude iv rows q k).2 ≤ value (magnitude iv rows p k).2 := by
    have hproper := (intervalValue_contains rows hq hk hen).1
    have hlower := hvalue (Set.left_mem_Icc.mpr hproper.le)
    have hupper := hvalue (Set.right_mem_Icc.mpr hproper.le)
    rw [hmagnitude.2.2, hmagnitude'.2.2]
    exact max_le (abs_le_max_abs_abs hlower.1 hlower.2) (abs_le_max_abs_abs hupper.1 hupper.2)
  have hpoint := mpf_isPoint hen hp' hkp
  have hpoint' := mpf_isPoint hen hq' hkq
  have hdiv := h.fdiv p _ _ hp' (mpf_pos hen hp' hk hkp) hmagnitude.1 hpoint.1
  have hdiv' := h.fdiv q _ _ hq' (mpf_pos hen hq' hk hkq) hmagnitude'.1 hpoint'.1
  have hterm : value (iv.fdiv q (magnitude iv rows q k) (iv.mpf q k)).2 ≤
      value (iv.fdiv p (magnitude iv rows p k) (iv.mpf p k)).2 := by
    refine hdiv.2.upper_mono hdiv'.2 hpq ?_
    rintro _ ⟨x, hx, y, hy, rfl⟩
    rw [hpoint'.points_eq] at hy
    refine ⟨_, ⟨_, Set.right_mem_Icc.mpr hmagnitude.1.le, k, hpoint.contains.2, rfl⟩, ?_⟩
    rw [Set.mem_singleton_iff.mp hy]
    exact div_le_div_of_nonneg_right (hx.2.trans hsmaller) (Nat.cast_nonneg k)
  refine (h.add p _ _ hp' htotal hdiv.1).2.upper_mono (h.add q _ _ hq' htotal' hdiv'.1).2 hpq ?_
  rintro _ ⟨x, hx, y, hy, rfl⟩
  exact ⟨_, ⟨_, Set.right_mem_Icc.mpr htotal.le, _, Set.right_mem_Icc.mpr hdiv.1.le, rfl⟩,
    add_le_add (hx.2.trans hle) (hy.2.trans hterm)⟩

omit hk hkp

/-! ### The sum -/

theorem foldl_contains (h : Encloses iv) (keys : List ℕ) (hkeys : ∀ k ∈ keys, 0 < k ∧ k < 2 ^ p)
    (htotal : Contains total T) : ∃ T', Contains (keys.foldl (residualStep iv rows p) total) T' ∧
      T + (keys.map fun k => |residual rows k|).sum ≤ T' := by
  induction keys generalizing total T with
  | nil => exact ⟨T, htotal, (add_zero T).le⟩
  | cons k keys ih =>
      obtain ⟨⟨hk, hkp⟩, hrest⟩ := List.forall_mem_cons.mp hkeys
      obtain ⟨T₁, hT₁, hle₁⟩ := residualStep_contains rows hp hk hkp h htotal
      obtain ⟨T₂, hT₂, hle₂⟩ := ih hrest hT₁
      refine ⟨T₂, hT₂, ?_⟩
      rw [List.map_cons, List.sum_cons, ← add_assoc]
      exact (add_le_add_left hle₁ _).trans hle₂

theorem foldl_upper (h : Outward iv) (hpq : p ≤ q) (keys : List ℕ) (hkeys : ∀ k ∈ keys, 0 < k ∧ k < 2 ^ p)
    (htotal : Proper total) (htotal' : Proper total') (hle : value total'.2 ≤ value total.2) :
    value (keys.foldl (residualStep iv rows q) total').2 ≤ value (keys.foldl (residualStep iv rows p) total).2 := by
  induction keys generalizing total total' with
  | nil => exact hle
  | cons k keys ih =>
      obtain ⟨⟨hk, hkp⟩, hrest⟩ := List.forall_mem_cons.mp hkeys
      have hkq : k < 2 ^ q := hkp.trans_le (Nat.pow_le_pow_right (by decide) hpq)
      obtain ⟨_, hstep, -⟩ := residualStep_contains rows hp hk hkp h.encloses
        ⟨htotal, Set.left_mem_Icc.mpr htotal.le⟩
      obtain ⟨_, hstep', -⟩ := residualStep_contains rows (hp.trans_le hpq) hk hkq h.encloses
        ⟨htotal', Set.left_mem_Icc.mpr htotal'.le⟩
      exact ih hrest hstep.1 hstep'.1 (residualStep_upper rows hp hk hkp h hpq htotal htotal' hle)

theorem keys_bounds : ∀ k ∈ List.range' 2 (K - 1), 0 < k ∧ k < 2 ^ p := by
  intro k hmem
  have hk := List.mem_range'_1.mp hmem
  have hpow : 2 ^ denominatorPower ≤ 2 ^ p := Nat.pow_le_pow_right (by decide) hp.le
  rw [K] at hk
  rw [denominatorPower] at hpow
  omega

theorem residualIntervalSum_contains (h : Encloses iv) :
    ∃ T, Contains (residualIntervalSum iv rows p) T ∧ ∑ k ∈ Icc 2 K, |residual rows k| ≤ T := by
  obtain ⟨T, hT, hle⟩ := foldl_contains rows hp h (List.range' 2 (K - 1)) (keys_bounds hp)
    (h.mpf p 0 (Nat.zero_lt_of_lt hp))
  refine ⟨T, hT, le_of_eq_of_le ?_ hle⟩
  have hkeys : (List.range' 2 (K - 1)).toFinset = Icc 2 K := by
    ext k
    rw [List.mem_toFinset, List.mem_range'_1, mem_Icc, K]
    omega
  rw [← hkeys, List.sum_toFinset _ List.nodup_range', Int.cast_zero, zero_add]

omit hp

/-- The verifier's bound is at least the exact one. -/
theorem bound_le_bHi (h : Encloses iv) : bound rows ≤ (bHi iv rows : ℚ) := by
  obtain ⟨T, hT, hle⟩ := residualIntervalSum_contains rows (by decide : denominatorPower < highPrecisionBits) h
  have hupper : ∑ k ∈ Icc 2 K, |residual rows k| ≤
      (intervalUpperFraction (residualIntervalSum iv rows highPrecisionBits) : ℝ) := hle.trans hT.2.2
  have hsum : (rows.map fun row => (row.2 : ℝ) / denominator).sum = sumY rows / denominator := by
    rw [sumY, Nat.cast_list_sum, List.map_map, div_eq_mul_inv, ← List.sum_map_mul_right]
    rfl
  have hden := denominator_pos
  rw [bound, bHi, hsum]
  push_cast
  have hterm : (10001 : ℝ) / 10000 * (sumY rows / denominator) = 10001 * sumY rows / (10000 * denominator) := by
    field_simp
  rw [hterm]
  linarith

/-- Outward rounding is nested. -/
theorem residualIntervalSum_upper (h : Outward iv) :
    intervalUpperFraction (residualIntervalSum iv rows highPrecisionBits) ≤
      intervalUpperFraction (residualIntervalSum iv rows lowPrecisionBits) := by
  have hzero := h.mpf lowPrecisionBits 0 (by decide)
  have hzero' := h.mpf highPrecisionBits 0 (by decide)
  have hle : lowPrecisionBits ≤ highPrecisionBits := by decide
  have hupper := foldl_upper rows (by decide : denominatorPower < lowPrecisionBits) h hle (List.range' 2 (K - 1))
    (keys_bounds (by decide)) hzero.1 hzero'.1 (hzero.2.upper_mono hzero'.2 hle fun y hy => ⟨y, hy, le_rfl⟩)
  exact Rat.cast_le.mp hupper

variable {rows}

/-! ### Weak duality -/

/-- `f(1)` -/
noncomputable def valueAtOne (f : ℕ → ℝ) : ℝ := -∑ k ∈ Icc 2 K, f k / k

structure Feasible (f : ℕ → ℝ) : Prop where
  box : ∀ k ∈ Icc 2 K, |f k| ≤ 10
  row : ∀ x ∈ Icc 1 domainMMax, valueAtOne f * x + ∑ k ∈ Icc 2 K, f k * (x / k : ℕ) ≤ 10001 / 10000

noncomputable def objective (f : ℕ → ℝ) : ℝ := -∑ k ∈ Icc 2 K, f k * Real.log k / k

/-- No construction exceeds the bound. -/
theorem objective_le_bound {f : ℕ → ℝ} (hf : Feasible f) (hrows : ∀ row ∈ rows, row.1 ∈ Icc 1 domainMMax) :
    objective f ≤ bound rows := by
  have hrow : ∀ row ∈ rows, ∑ k ∈ Icc 2 K, f k * (((row.1 / k : ℕ) : ℝ) - row.1 / k) ≤ 10001 / 10000 := by
    intro row hrow
    refine le_of_eq_of_le ?_ (hf.row row.1 (hrows row hrow))
    rw [valueAtOne, neg_mul, sum_mul, ← sum_neg_distrib, ← sum_add_distrib]
    exact sum_congr rfl fun k _ => by ring
  have hduality := weak_duality (y := fun row : Row => (row.2 : ℝ) / denominator)
    (a := fun (row : Row) k => ((row.1 / k : ℕ) : ℝ) - row.1 / k) (c := fun k => -(Real.log k) / k)
    (fun row _ => div_nonneg (Nat.cast_nonneg _) denominator_pos.le) hf.box hrow
  have hobjective : ∑ k ∈ Icc 2 K, f k * (-(Real.log k) / k) = objective f := by
    rw [objective, ← sum_neg_distrib]
    exact sum_congr rfl fun k _ => by ring
  have hresidual : ∑ k ∈ Icc 2 K, |(-(Real.log k) / k : ℝ) - combined rows
      (fun row => (row.2 : ℝ) / denominator) (fun row k => ((row.1 / k : ℕ) : ℝ) - row.1 / k) k| =
        ∑ k ∈ Icc 2 K, |residual rows k| := by
    refine sum_congr rfl fun k hk => ?_
    have hk' : (k : ℝ) ≠ 0 := Nat.cast_ne_zero.mpr (by have := (mem_Icc.mp hk).1; omega)
    rw [residual, combined, remainderSum, Int.cast_list_sum, List.map_map, div_eq_mul_inv (List.sum _),
      ← List.sum_map_mul_right]
    congr 4
    funext row
    have hden := denominator_pos
    simp only [Function.comp_apply, Int.cast_mul, Int.cast_sub, Int.cast_natCast]
    field_simp
  rwa [hobjective, hresidual] at hduality

/-! ### The accepted decimal -/

variable {loads : Bytes → Except String Json} {sha256 : Bytes → String} {u : PythonText.UnicodeData} {raw : Bytes}
  {parsed : ParsedSolution}

theorem parseRows_ok {index : ℕ} {raws : List (Json × Json)} (h : parseRows index raws = .ok rows) :
    ∀ row ∈ rows, row.1 ∈ Icc 1 domainMMax := by
  induction raws generalizing index rows with
  | nil =>
      obtain rfl := Except.ok.inj h
      exact fun row hrow => absurd hrow (List.not_mem_nil)
  | cons pair raws ih =>
      simp only [parseRows, parseRow, bind_eq_ok, revertIf_eq_ok, pure_eq_ok, Unique.exists_iff, not_or,
        not_lt] at h
      obtain ⟨row, ⟨mValue, -, yValue, -, hm, -, rfl⟩, rest, hrest, rfl⟩ := h
      refine List.forall_mem_cons.mpr ⟨?_, ih hrest⟩
      exact mem_Icc.mpr ⟨by omega, by omega⟩

theorem parseSolution_ok (h : parseSolution loads sha256 u raw = .ok parsed) :
    isPrinted u parsed.printedDecimal = true ∧ ∀ row ∈ parsed.rows, row.1 ∈ Icc 1 domainMMax := by
  unfold parseSolution at h
  simp only [bind_eq_ok, revertIf_eq_ok, Unique.exists_iff] at h
  obtain ⟨data, -, -, -, -, printed, -, hprinted, expected, -, -, h⟩ := h
  split at h
  · simp only [bind_eq_ok, revertIf_eq_ok, pure_eq_ok, Unique.exists_iff] at h
    obtain ⟨-, rows, hrows, -, rfl⟩ := h
    exact ⟨Bool.not_eq_false _ ▸ hprinted, parseRows_ok hrows⟩
  · cases h

/-- An accepted text is a decimal of 25 digits below 1. -/
theorem fractionOf_ok {printed : ℚ} {text : String} (hu : ∀ c d, u.decimalValue c = some d → d < 10)
    (hprinted : isPrinted u text = true) (h : fractionOf u text = .ok printed) :
    ∃ n : ℕ, n < 10 ^ 25 ∧ printed = n * decimalUnit := by
  simp only [isPrinted, Bool.and_eq_true, decide_eq_true_eq] at hprinted
  unfold fractionOf at h
  split at h
  · rename_i n hn
    obtain rfl := Except.ok.inj h
    have hlength : ((PythonText.str text).drop 2).length = 25 := by rw [List.length_drop, hprinted.1.1]
    refine ⟨n, hlength ▸ PythonText.int_lt hu hn, ?_⟩
    rw [hprinted.1.1, decimalUnit, mul_one_div]
  · cases h

theorem computeScore_ok {printed : ℚ} {details : Details}
    (h : computeScore iv u parsed = .ok (printed, details)) :
    fractionOf u parsed.printedDecimal = .ok printed ∧ bHi iv parsed.rows ≤ printed ∧
      printed - decimalUnit < bHi iv parsed.rows := by
  simp only [computeScore, bind_eq_ok, revertIf_eq_ok, pure_eq_ok, Unique.exists_iff, not_lt, ge_iff_le,
    not_le] at h
  obtain ⟨printed', hprinted, -, hle, hlt, _, -, _, -, heq⟩ := h
  obtain ⟨rfl, -⟩ := Prod.mk.inj heq
  exact ⟨hprinted, hle, hlt⟩

/-- Two decimals that are the same bound rounded up. -/
theorem decimal_unique {b : ℚ} {n m : ℕ} (hn : b ≤ n * decimalUnit) (hn' : n * decimalUnit - decimalUnit < b)
    (hm : b ≤ m * decimalUnit) (hm' : m * decimalUnit - decimalUnit < b) : n = m := by
  have hpos : 0 < decimalUnit := by norm_num [decimalUnit]
  have hle : ∀ i j : ℕ, (i : ℚ) * decimalUnit - decimalUnit < j * decimalUnit → i ≤ j := by
    intro i j hij
    have hlt : (i : ℚ) < j + 1 := lt_of_mul_lt_mul_right (by linarith) hpos.le
    exact Nat.lt_succ_iff.mp (by exact_mod_cast hlt)
  exact (hle n m (hn'.trans_le hm)).antisymm (hle m n (hm'.trans_le hn))

/-- The nesting check fails only where the upper end widens. -/
theorem nesting_error {detail : String}
    (h : computeScore iv u parsed = .error (.failure ⟨"INTERVAL_NESTING", detail⟩)) :
    intervalUpperFraction (residualIntervalSum iv parsed.rows lowPrecisionBits) <
      intervalUpperFraction (residualIntervalSum iv parsed.rows highPrecisionBits) := by
  have hstr : ∀ n, SparseMertens.intToStr n ≠ .error (.failure ⟨"INTERVAL_NESTING", detail⟩) := by
    intro n hn
    simp only [SparseMertens.intToStr, bind_eq_error, revertIf_eq_error, reduceCtorEq, and_false, pure,
      Except.pure, exists_false, or_false] at hn
  have hfraction : fractionOf u parsed.printedDecimal ≠ .error (.failure ⟨"INTERVAL_NESTING", detail⟩) := by
    unfold fractionOf
    split <;> simp
  simp only [computeScore, bind_eq_error, revertIf_eq_error, hstr, hfraction, false_or, pure, Except.pure,
    reduceCtorEq, and_false, exists_false, or_false, Raised.failure.injEq, VerifierFailure.mk.injEq,
    String.reduceEq, false_and] at h
  obtain ⟨printed, -, h, -⟩ := h
  exact h

/-- An accepted decimal is at least the bound and every construction, and the only decimal of 25 digits
that is accepted with its rows; with outward rounding the two precisions never disagree. -/
theorem mertens_ceiling (hiv : Encloses iv) (hu : ∀ c d, u.decimalValue c = some d → d < 10)
    (hparse : parseSolution loads sha256 u raw = .ok parsed) :
    (∀ printed details, computeScore iv u parsed = .ok (printed, details) →
      bound parsed.rows ≤ printed ∧ (∀ f, Feasible f → objective f ≤ printed) ∧
      (∃ n : ℕ, n < 10 ^ 25 ∧ printed = n / 10 ^ 25) ∧
      ∀ raw' parsed' printed' details', parseSolution loads sha256 u raw' = .ok parsed' →
        parsed'.rows = parsed.rows → computeScore iv u parsed' = .ok (printed', details') →
        printed' = printed) ∧
    (Outward iv → ∀ detail, computeScore iv u parsed ≠ .error (.failure ⟨"INTERVAL_NESTING", detail⟩)) := by
  obtain ⟨hprinted, hrows⟩ := parseSolution_ok hparse
  refine ⟨fun printed details h => ?_, fun hout detail => ?_⟩
  · obtain ⟨hfraction, hle, hlt⟩ := computeScore_ok h
    obtain ⟨n, hn, rfl⟩ := fractionOf_ok hu hprinted hfraction
    have hbound : bound parsed.rows ≤ ((n * decimalUnit : ℚ) : ℝ) :=
      (bound_le_bHi parsed.rows hiv).trans (Rat.cast_le.mpr hle)
    refine ⟨hbound, fun f hf => (objective_le_bound hf hrows).trans hbound,
      ⟨n, hn, by rw [decimalUnit, mul_one_div]⟩, ?_⟩
    intro raw' parsed' printed' details' hparse' hsame h'
    obtain ⟨hfraction', hle', hlt'⟩ := computeScore_ok h'
    obtain ⟨m, -, rfl⟩ := fractionOf_ok hu (parseSolution_ok hparse').1 hfraction'
    rw [hsame] at hle' hlt'
    rw [decimal_unique hle hlt hle' hlt']
  · have hnested := residualIntervalSum_upper parsed.rows hout
    exact fun h => (nesting_error h).not_ge hnested

/-! ### A sample -/

def noUnicode : PythonText.UnicodeData := ⟨fun _ => false, fun _ => false, fun _ => none⟩

/-- The hash of the rows of the sample, as the real function computes it. -/
def sampleHash : String := "0e55ea71b3aed1e1719e43223d89ada1eaf3b638c2c14718c242123e94c499f7"

/-- The document of one row without weight. -/
def sampleRaw : Bytes :=
  ("\x7b\"K\":12000,\"M\":120000,\"denom_pow\":48,\"printed_decimal\":\"0.9974876103072528157057480\"," ++
    "\"y_hash_sha256\":\"" ++ sampleHash ++ "\",\"m\":[1],\"Y\":[0]\x7d").toUTF8.toList

def sampleEntries : Object :=
  [("K", .int 12000), ("M", .int 120000), ("denom_pow", .int 48),
    ("printed_decimal", .str "0.9974876103072528157057480"), ("y_hash_sha256", .str sampleHash),
    ("m", .list [.int 1]), ("Y", .list [.int 0])]

def sample : ParsedSolution := ⟨"0.9974876103072528157057480", [(1, 0)], sampleHash⟩

theorem parseSolution_sample :
    parseSolution (fun _ => .ok (.dict sampleEntries)) (fun _ => sampleHash) noUnicode sampleRaw =
      .ok sample := by
  decide +kernel

theorem mertens_ceiling_sample : Outward correctlyRounded ∧ ∀ detail,
    computeScore correctlyRounded noUnicode sample ≠ .error (.failure ⟨"INTERVAL_NESTING", detail⟩) :=
  ⟨correctlyRounded_outward,
    (mertens_ceiling correctlyRounded_outward.encloses (fun _ _ h => by cases h) parseSolution_sample).2
      correctlyRounded_outward⟩

end P42Prizes.MertensCeiling
