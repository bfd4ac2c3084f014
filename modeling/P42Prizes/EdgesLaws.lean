import P42Prizes.EdgesArithmetic
import Mathlib.Tactic

/-! # The guest computes the score of the verifier

For rows of values in `0..1000` that sum to 1000, in any number: no checked operation of the guest fails
and no bound rejects (`verifyEdgesVsTriangles_spec`), and its integers are the fractions of the verifier at
its scales.

* `rowPointScaled_spec`: the point of a row, by the inequalities between the sums of powers.
* `segmentAreaScaled_spec`: each of the branches of a segment.
* `sumSegments_spec`: the loop over the segments. -/

namespace P42Prizes.Edges

open CheckedWords LowerEnvelope

/-! ### Sums of powers -/

section

variable {row : List ℕ} {bound : ℕ}

def squares (row : List ℕ) : ℕ := (row.map fun value => value * value).sum
def cubes (row : List ℕ) : ℕ := (row.map fun value => value * value * value).sum

theorem squares_cons (value : ℕ) : squares (value :: row) = value * value + squares row := rfl

theorem cubes_cons (value : ℕ) : cubes (value :: row) = value * value * value + cubes row := rfl

theorem squares_le (h : ∀ value ∈ row, value ≤ bound) : squares row ≤ bound * row.sum := by
  induction row with
  | nil => exact Nat.zero_le _
  | cons value row ih =>
      have hrow := ih (fun v hv => h v (List.mem_cons_of_mem _ hv))
      have hvalue := Nat.mul_le_mul_right value (h value List.mem_cons_self)
      rw [squares_cons, List.sum_cons, Nat.mul_add]
      exact Nat.add_le_add hvalue hrow

theorem cubes_le (h : ∀ value ∈ row, value ≤ bound) : cubes row ≤ bound * squares row := by
  induction row with
  | nil => exact Nat.zero_le _
  | cons value row ih =>
      have hrow := ih (fun v hv => h v (List.mem_cons_of_mem _ hv))
      have hvalue := Nat.mul_le_mul_right (value * value) (h value List.mem_cons_self)
      rw [cubes_cons, squares_cons, Nat.mul_add, Nat.mul_assoc]
      exact Nat.add_le_add ((Nat.mul_comm value _).le.trans (by rw [Nat.mul_comm]; exact hvalue)) hrow

theorem squares_le_square (row : List ℕ) : squares row ≤ row.sum ^ 2 := by
  induction row with
  | nil => exact Nat.zero_le _
  | cons value row ih =>
      rw [squares_cons, List.sum_cons]
      nlinarith [Nat.zero_le (value * row.sum)]

/-- The probability that three draws differ is not negative. -/
theorem squares_mul_sum_le (row : List ℕ) : 3 * squares row * row.sum ≤ row.sum ^ 3 + 2 * cubes row := by
  induction row with
  | nil => exact Nat.zero_le _
  | cons value row ih =>
      have hpair := Nat.mul_le_mul_left (3 * value) (squares_le_square row)
      rw [squares_cons, cubes_cons, List.sum_cons]
      nlinarith

end

/-! ### Rows -/

/-- A row that the parser admits. -/
structure Row where
  values : List ℕ
  length_eq : values.length = edgesAtoms
  le : ∀ value ∈ values, value ≤ edgesRowSum
  sum_eq : values.sum = edgesRowSum

def scaleX (x : ℕ) : ℚ := x / 10 ^ 6
def scaleY (y : ℕ) : ℚ := y / 10 ^ 9

/-- The point of the verifier that a point of the guest stands for. -/
def scale : Point → ℚ × ℚ := Prod.map scaleX scaleY

/-- A point in the unit square. -/
structure InSquare (p : Point) : Prop where
  x_le : p.1 ≤ xScale
  y_le : p.2 ≤ yScale

theorem add_eq {s : RowSums} {value : ℕ} (hvalue : value ≤ edgesRowSum) (htotal : s.total + value < 2 ^ 128)
    (hsum2 : s.sum2 + value * value < 2 ^ 128) (hsum3 : s.sum3 + value * value * value < 2 ^ 128) :
    s.add value =
      some ⟨s.total + value, s.sum2 + value * value, s.sum3 + value * value * value⟩ := by
  unfold RowSums.add
  rw [guard_bind hvalue, checkedAdd_bind htotal, checkedMul_bind (by omega), checkedAdd_bind hsum2,
    checkedMul_bind (by omega), checkedAdd_bind hsum3]
  rfl

theorem foldlM_add {row : List ℕ} (hrow : ∀ value ∈ row, value ≤ edgesRowSum) (s : RowSums)
    (htotal : s.total + row.sum < 2 ^ 128) (hsum2 : s.sum2 + squares row < 2 ^ 128)
    (hsum3 : s.sum3 + cubes row < 2 ^ 128) :
    row.foldlM RowSums.add s = some ⟨s.total + row.sum, s.sum2 + squares row, s.sum3 + cubes row⟩ := by
  induction row generalizing s with
  | nil => rfl
  | cons value row ih =>
      rw [List.sum_cons] at htotal ⊢
      rw [squares_cons] at hsum2 ⊢
      rw [cubes_cons] at hsum3 ⊢
      rw [List.foldlM_cons, add_eq (hrow value List.mem_cons_self) (by omega) (by omega) (by omega)]
      show row.foldlM RowSums.add _ = _
      rw [ih (fun v hv => hrow v (List.mem_cons_of_mem _ hv)) _ (by dsimp only; omega)
        (by dsimp only; omega) (by dsimp only; omega)]
      simp only [Nat.add_assoc]

/-- The sums of a row within the bounds of the guest. -/
theorem Row.bounds (row : Row) : squares row.values ≤ 10 ^ 6 ∧ cubes row.values ≤ 10 ^ 9 ∧
    2 * cubes row.values ≤ 3000 * squares row.values ∧
    3000 * squares row.values ≤ 10 ^ 9 + 2 * cubes row.values := by
  have hsquares := squares_le row.le
  have hcubes := cubes_le row.le
  have hnonneg := squares_mul_sum_le row.values
  rw [row.sum_eq] at hsquares hnonneg
  unfold edgesRowSum at hsquares hcubes hnonneg
  omega

theorem rowPointScaled_eq (row : Row) : rowPointScaled row.values =
    some (xScale - squares row.values, yScale + cubes row.values * 2 - squares row.values * 3000) := by
  obtain ⟨hsquares, hcubes, hle, hnonneg⟩ := row.bounds
  have hfold : row.values.foldlM RowSums.add ⟨0, 0, 0⟩ =
      some ⟨edgesRowSum, squares row.values, cubes row.values⟩ := by
    rw [foldlM_add row.le ⟨0, 0, 0⟩ (by rw [row.sum_eq]; decide) (by dsimp only; omega)
      (by dsimp only; omega), row.sum_eq]
    simp only [Nat.zero_add]
  unfold rowPointScaled
  rw [hfold, some_bind]
  dsimp only
  rw [guard_bind ⟨rfl, hsquares, hcubes⟩, checkedSub_bind (show _ ≤ xScale from hsquares),
    checkedMul_bind (by omega),
    checkedAdd_bind (by unfold yScale; omega), checkedMul_bind (by omega),
    checkedSub_bind (by unfold yScale; omega), guard_bind (by unfold yScale; omega)]
  rfl

theorem rowPoint_eq (row : Row) : rowPoint row.values =
    scale (xScale - squares row.values, yScale + cubes row.values * 2 - squares row.values * 3000) := by
  obtain ⟨hsquares, hcubes, hle, hnonneg⟩ := row.bounds
  have hx : ((10 ^ 6 - squares row.values : ℕ) : ℚ) = 10 ^ 6 - squares row.values := by
    rw [Nat.cast_sub hsquares]
    norm_num
  have hy : ((10 ^ 9 + cubes row.values * 2 - squares row.values * 3000 : ℕ) : ℚ) =
      10 ^ 9 + cubes row.values * 2 - squares row.values * 3000 := by
    rw [Nat.cast_sub (by omega)]
    norm_num
  unfold rowPoint
  rw [row.sum_eq]
  refine Prod.ext ?_ ?_
  · show ((((edgesRowSum : ℤ) ^ 2 - squares row.values : ℤ) : ℚ) / ((edgesRowSum ^ 2 : ℕ) : ℚ)) =
      ((10 ^ 6 - squares row.values : ℕ) : ℚ) / 10 ^ 6
    rw [hx]
    unfold edgesRowSum
    norm_num
  · show ((((edgesRowSum : ℤ) ^ 3 - 3 * squares row.values * edgesRowSum + 2 * cubes row.values : ℤ) : ℚ) /
      ((edgesRowSum ^ 3 : ℕ) : ℚ)) =
      ((10 ^ 9 + cubes row.values * 2 - squares row.values * 3000 : ℕ) : ℚ) / 10 ^ 9
    rw [hy]
    unfold edgesRowSum
    push_cast
    ring

theorem rowPointScaled_spec (row : Row) :
    ∃ p, rowPointScaled row.values = some p ∧ InSquare p ∧ rowPoint row.values = scale p := by
  obtain ⟨hsquares, hcubes, hle, hnonneg⟩ := row.bounds
  refine ⟨_, rowPointScaled_eq row, ⟨Nat.sub_le _ _, ?_⟩, rowPoint_eq row⟩
  show yScale + cubes row.values * 2 - squares row.values * 3000 ≤ yScale
  omega

/-! ### Segments -/

/-- The areas of the guest are at one common denominator. -/
def scaleArea (area : ℕ) : ℚ := area / (6 * 10 ^ 18)

theorem scaleX_sub {x x' : ℕ} (h : x ≤ x') : scaleX x' - scaleX x = scaleX (x' - x) := by
  unfold scaleX
  rw [Nat.cast_sub h]
  ring

/-- What the area of a segment of the guest is, of a segment that starts at `(x, y)`. -/
def IsArea (x y width y' : ℕ) (segment : Option ℕ) : Prop :=
  ∃ area, segment = some area ∧ area ≤ width * (areaScale / xScale) ∧
    scaleArea area = segmentArea (scale (x, y)) (scale (x + width, y'))

section

variable {x y width y' : ℕ}

theorem width_eq : (scale (x + width, y')).1 - (scale (x, y)).1 = width / 10 ^ 6 := by
  show scaleX (x + width) - scaleX x = _
  unfold scaleX
  push_cast
  ring

/-- The branch of a segment that falls. -/
theorem isArea_falling (hwidth : width ≤ xScale) (hpos : 0 < width) (hy : y ≤ yScale) (hlt : y' < y) :
    IsArea x y width y' (do checkedMul 128 (← checkedMul 128 y width) 6000) := by
  have hmul := Nat.mul_le_mul_right width hy
  unfold xScale at hwidth
  unfold yScale at hy hmul
  rw [checkedMul_bind (by omega), checkedMul_of (by omega)]
  refine ⟨_, rfl, ?_, ?_⟩
  · show y * width * 6000 ≤ width * (6 * 10 ^ 12)
    omega
  · have hwidth' : ¬ (width : ℚ) / 10 ^ 6 ≤ 0 := by
      rw [not_le]
      positivity
    have hlt' : (scale (x, y)).2 > (scale (x + width, y')).2 := by
      show (y' : ℚ) / 10 ^ 9 < y / 10 ^ 9
      gcongr
    unfold segmentArea
    rw [width_eq, if_neg hwidth', if_pos hlt']
    show ((y * width * 6000 : ℕ) : ℚ) / (6 * 10 ^ 18) = (y : ℚ) / 10 ^ 9 * (width / 10 ^ 6)
    push_cast
    ring

/-- The branch of a segment that rises all the way. -/
theorem isArea_rising (hpos : 0 < width) (hle : y ≤ y') (hy' : y' ≤ yScale)
    (htip : y + width * 3000 ≤ y') :
    IsArea x y width y'
      (do checkedMul 128 (← checkedMul 128 (← checkedAdd 128 y (y + width * 3000)) width) 3000) := by
  have hmul : (y + (y + width * 3000)) * width ≤ 2 * 10 ^ 9 * width := by
    refine Nat.mul_le_mul_right width ?_
    unfold yScale at hy'
    omega
  unfold yScale at hy'
  rw [checkedAdd_bind (by omega), checkedMul_bind (by omega), checkedMul_of (by omega)]
  refine ⟨_, rfl, ?_, ?_⟩
  · show (y + (y + width * 3000)) * width * 3000 ≤ width * (6 * 10 ^ 12)
    omega
  · have hwidth' : ¬ (width : ℚ) / 10 ^ 6 ≤ 0 := by
      rw [not_le]
      positivity
    have hle' : ¬ (scale (x, y)).2 > (scale (x + width, y')).2 := by
      show ¬ (y' : ℚ) / 10 ^ 9 < y / 10 ^ 9
      rw [not_lt]
      gcongr
    have htip' : (scale (x, y)).2 + 3 * ((width : ℚ) / 10 ^ 6) ≤ (scale (x + width, y')).2 := by
      show (y : ℚ) / 10 ^ 9 + 3 * (width / 10 ^ 6) ≤ y' / 10 ^ 9
      have hcast : (y : ℚ) + width * 3000 ≤ y' := by exact_mod_cast htip
      linarith
    unfold segmentArea
    rw [width_eq, if_neg hwidth', if_neg hle', if_pos htip']
    show (((y + (y + width * 3000)) * width * 3000 : ℕ) : ℚ) / (6 * 10 ^ 18) =
      ((y : ℚ) / 10 ^ 9 + (y / 10 ^ 9 + 3 * (width / 10 ^ 6))) * (width / 10 ^ 6) * (1 / 2)
    push_cast
    ring

/-- The branch of a segment that rises and is flat from there on. -/
theorem isArea_flat (hwidth : width ≤ xScale) (hpos : 0 < width) (hle : y ≤ y') (hy' : y' ≤ yScale)
    (htip : y' < y + width * 3000) :
    IsArea x y width y'
      (do
        let rise ← checkedSub y' y
        let flat ← checkedSub (width * 3000) rise
        let rising ← checkedMul 128 (← checkedAdd 128 y y') rise
        checkedAdd 128 rising (← checkedMul 128 (← checkedMul 128 y' flat) 2)) := by
  obtain ⟨rise, rfl⟩ := Nat.exists_eq_add_of_le hle
  obtain ⟨flat, hflat⟩ := Nat.exists_eq_add_of_le (show rise ≤ width * 3000 by omega)
  have hrise : (y + (y + rise)) * rise ≤ 2 * 10 ^ 9 * rise := by
    refine Nat.mul_le_mul_right rise ?_
    unfold yScale at hy'
    omega
  have hmul := Nat.mul_le_mul_right flat hy'
  unfold xScale at hwidth
  unfold yScale at hy' hmul
  rw [checkedSub_bind hle, Nat.add_sub_cancel_left, hflat, checkedSub_bind (Nat.le_add_right _ _),
    Nat.add_sub_cancel_left, checkedAdd_bind (by omega), checkedMul_bind (by omega),
    checkedMul_bind (by omega), checkedMul_bind (by omega), checkedAdd_of (by omega)]
  refine ⟨_, rfl, ?_, ?_⟩
  · show (y + (y + rise)) * rise + (y + rise) * flat * 2 ≤ width * (6 * 10 ^ 12)
    omega
  · have hspan : (width : ℚ) * 3000 = rise + flat := by exact_mod_cast hflat
    have hwidth' : ¬ (width : ℚ) / 10 ^ 6 ≤ 0 := by
      rw [not_le]
      positivity
    have hle' : ¬ (scale (x, y)).2 > (scale (x + width, y + rise)).2 := by
      show ¬ ((y + rise : ℕ) : ℚ) / 10 ^ 9 < y / 10 ^ 9
      rw [not_lt]
      gcongr
    have htip' : ¬ (scale (x, y)).2 + 3 * ((width : ℚ) / 10 ^ 6) ≤ (scale (x + width, y + rise)).2 := by
      show ¬ (y : ℚ) / 10 ^ 9 + 3 * (width / 10 ^ 6) ≤ ((y + rise : ℕ) : ℚ) / 10 ^ 9
      have hcast : ((y + rise : ℕ) : ℚ) < y + width * 3000 := by exact_mod_cast htip
      rw [not_le]
      linarith
    have hrising : ((scale (x + width, y + rise)).2 - (scale (x, y)).2) * (1 / 3) =
        (rise : ℚ) / (3 * 10 ^ 9) := by
      show (((y + rise : ℕ) : ℚ) / 10 ^ 9 - y / 10 ^ 9) * (1 / 3) = _
      push_cast
      ring
    have hpositive : ¬ (rise : ℚ) / (3 * 10 ^ 9) < 0 := by
      rw [not_lt]
      positivity
    have hinside : ¬ (rise : ℚ) / (3 * 10 ^ 9) > width / 10 ^ 6 := by
      have hflat' : (0 : ℚ) ≤ flat := Nat.cast_nonneg flat
      rw [gt_iff_lt, not_lt, div_le_div_iff₀ (by norm_num) (by norm_num)]
      linarith
    unfold segmentArea
    rw [width_eq, if_neg hwidth', if_neg hle', if_neg htip', hrising]
    simp only [if_neg hpositive, if_neg hinside]
    show (((y + (y + rise)) * rise + (y + rise) * flat * 2 : ℕ) : ℚ) / (6 * 10 ^ 18) =
      ((y : ℚ) / 10 ^ 9 + ((y + rise : ℕ) : ℚ) / 10 ^ 9) * (rise / (3 * 10 ^ 9)) * (1 / 2) +
        ((y + rise : ℕ) : ℚ) / 10 ^ 9 * (width / 10 ^ 6 - rise / (3 * 10 ^ 9))
    have hwidth_eq : (width : ℚ) = (rise + flat) / 3000 := by linarith
    rw [hwidth_eq]
    push_cast
    ring

end

/-- The area of a segment, which is at most its width. -/
theorem segmentAreaScaled_spec {left right : Point} (hx : left.1 ≤ right.1) (hleft : InSquare left)
    (hright : InSquare right) : ∃ segment, segmentAreaScaled left right = some segment ∧
      segment ≤ (right.1 - left.1) * (areaScale / xScale) ∧
      scaleArea segment = segmentArea (scale left) (scale right) := by
  obtain ⟨x, y⟩ := left
  obtain ⟨x', y'⟩ := right
  obtain ⟨-, hy⟩ := hleft
  obtain ⟨hx', hy'⟩ := hright
  obtain ⟨width, rfl⟩ : ∃ width, x' = x + width := Nat.exists_eq_add_of_le hx
  have hwidth : width ≤ xScale := (Nat.le_add_left width x).trans hx'
  unfold segmentAreaScaled
  rw [checkedSub_bind hx, Nat.add_sub_cancel_left]
  show IsArea x y width y' _
  rcases Nat.eq_zero_or_pos width with rfl | hpos
  · refine ⟨0, rfl, Nat.zero_le _, ?_⟩
    unfold segmentArea
    rw [width_eq, if_pos (by norm_num)]
    exact zero_div _
  · rw [if_neg hpos.ne']
    dsimp only
    by_cases hlt : y' < y
    · rw [if_pos hlt]
      exact isArea_falling hwidth hpos hy hlt
    · have hle := not_lt.mp hlt
      rw [if_neg hlt]
      have hmul : width * 3000 < 2 ^ 128 ∧ y + width * 3000 < 2 ^ 128 := by
        unfold xScale at hwidth
        change y ≤ 10 ^ 9 at hy
        omega
      rw [checkedMul_bind hmul.1, checkedAdd_bind hmul.2]
      by_cases htip : y + width * 3000 ≤ y'
      · rw [if_pos htip]
        exact isArea_rising hpos hle hy' htip
      · rw [if_neg htip]
        exact isArea_flat hwidth hpos hle hy' (not_le.mp htip)

/-! ### The loop over the segments -/

/-- The sums of the verifier that those of the guest stand for. -/
def scaleSums (sums : ℕ × ℕ) : ℚ × ℚ := (scaleArea sums.1, scaleX sums.2)

theorem scaleX_max (gap width : ℕ) :
    (if scaleX width > scaleX gap then scaleX width else scaleX gap) = scaleX (max gap width) := by
  have hmono : Monotone scaleX := by
    intro a b hab
    unfold scaleX
    gcongr
  rw [hmono.map_max]
  split
  · next h => exact (max_eq_right h.le).symm
  · next h => exact (max_eq_left (not_lt.mp h)).symm

theorem addSegment_spec {left right : Point} {sums : ℕ × ℕ} (hx : left.1 ≤ right.1)
    (hleft : InSquare left) (hright : InSquare right)
    (hsum : sums.1 + (right.1 - left.1) * (areaScale / xScale) < 2 ^ 128) :
    ∃ segment, addSegment left right sums = some (sums.1 + segment, max sums.2 (right.1 - left.1)) ∧
      segment ≤ (right.1 - left.1) * (areaScale / xScale) ∧
      scaleSums (sums.1 + segment, max sums.2 (right.1 - left.1)) =
        ((scaleSums sums).1 + segmentArea (scale left) (scale right),
          if (scale right).1 - (scale left).1 > (scaleSums sums).2 then (scale right).1 - (scale left).1
          else (scaleSums sums).2) := by
  obtain ⟨segment, hsegment, hle, harea⟩ := segmentAreaScaled_spec hx hleft hright
  refine ⟨segment, ?_, hle, ?_⟩
  · unfold addSegment
    rw [checkedSub_bind hx, hsegment, some_bind, checkedMul_bind (by omega), guard_bind hle,
      checkedAdd_bind (by omega)]
    rfl
  · rw [← harea]
    show (scaleArea (sums.1 + segment), scaleX (max sums.2 (right.1 - left.1))) =
      (scaleArea sums.1 + scaleArea segment, if scaleX right.1 - scaleX left.1 > scaleX sums.2
        then scaleX right.1 - scaleX left.1 else scaleX sums.2)
    rw [scaleX_sub hx, scaleX_max]
    refine Prod.ext ?_ rfl
    show ((sums.1 + segment : ℕ) : ℚ) / (6 * 10 ^ 18) = sums.1 / (6 * 10 ^ 18) + segment / (6 * 10 ^ 18)
    push_cast
    ring

/-- The sums stay within what is left of the unit square. -/
theorem sumSegments_spec {left : Point} {points : List Point}
    (hsorted : (left :: points).Pairwise fun p q => p.1 ≤ q.1)
    (hsquare : ∀ p ∈ left :: points, InSquare p) (sums : ℕ × ℕ)
    (hsum : sums.1 + (xScale - left.1) * (areaScale / xScale) ≤ areaScale) (hgap : sums.2 ≤ xScale) :
    ∃ sums', sumSegments (left :: points) sums = some sums' ∧ sums'.1 ≤ areaScale ∧ sums'.2 ≤ xScale ∧
      scaleSums sums' = addAreas ((left :: points).map scale) (scaleSums sums) := by
  induction points generalizing left sums with
  | nil => exact ⟨sums, rfl, (Nat.le_add_right _ _).trans hsum, hgap, rfl⟩
  | cons right points ih =>
      have hx : left.1 ≤ right.1 := (List.pairwise_cons.mp hsorted).1 right List.mem_cons_self
      have hleft := hsquare left List.mem_cons_self
      have hright := hsquare right (List.mem_cons_of_mem _ List.mem_cons_self)
      -- the widths of the segment and of the rest are what was left
      have hrest : (right.1 - left.1) + (xScale - right.1) = xScale - left.1 := by
        have hle := hright.x_le
        omega
      rw [← hrest, Nat.add_mul] at hsum
      have hlt : areaScale < 2 ^ 128 := by decide
      have hroom : sums.1 + (right.1 - left.1) * (areaScale / xScale) < 2 ^ 128 := by omega
      obtain ⟨segment, hadd, hle, hscale⟩ := addSegment_spec hx hleft hright hroom
      obtain ⟨sums', hsums, harea, hgap', hareas⟩ := ih hsorted.tail
        (fun p hp => hsquare p (List.mem_cons_of_mem _ hp)) (sums.1 + segment, max sums.2 (right.1 - left.1))
        (by dsimp only; omega) (max_le hgap ((Nat.sub_le _ _).trans hright.x_le))
      refine ⟨sums', ?_, harea, hgap', ?_⟩
      · rw [sumSegments, hadd, some_bind]
        exact hsums
      · rw [hareas, hscale]
        rfl

/-! ### The score -/

theorem canonicalPoints_eq {rows : List Row} {points : List Point}
    (h : (rows.map Row.values).map rowPoint = points.map scale) :
    canonicalPoints (rows.map Row.values) = (keepFirst (points.insertionSort LexLe)).map scale := by
  have hx : StrictMono scaleX := by
    intro a b hab
    unfold scaleX
    gcongr
  have hy : Monotone scaleY := by
    intro a b hab
    unfold scaleY
    gcongr
  unfold canonicalPoints
  rw [h]
  exact (collect_spec _).unique ((keepFirst_insertionSort points).map hx hy)

theorem mapM_rowPointScaled (rows : List Row) :
    ∃ points, (rows.map Row.values).mapM rowPointScaled = some points ∧ (∀ p ∈ points, InSquare p) ∧
      (rows.map Row.values).map rowPoint = points.map scale := by
  induction rows with
  | nil => exact ⟨[], rfl, nofun, rfl⟩
  | cons row rows ih =>
      obtain ⟨p, hp, hsquare, hpoint⟩ := rowPointScaled_spec row
      obtain ⟨points, hpoints, hsquares, hmap⟩ := ih
      refine ⟨p :: points, ?_, ?_, ?_⟩
      · rw [List.map_cons, List.mapM_cons, hp, some_bind, hpoints]
        rfl
      · intro q hq
        obtain rfl | hq := List.mem_cons.mp hq
        · exact hsquare
        · exact hsquares q hq
      · rw [List.map_cons, List.map_cons, List.map_cons, hmap, hpoint]

/-- The list between the corners of the unit square. -/
theorem canonical_sorted {L : List Point} (hsorted : L.Pairwise fun p q => p.1 < q.1)
    (hsquare : ∀ p ∈ L, InSquare p) :
    ((0, 0) :: L ++ [(xScale, yScale)]).Pairwise (fun p q => p.1 ≤ q.1) ∧
      ∀ p ∈ (0, 0) :: L ++ [(xScale, yScale)], InSquare p := by
  refine ⟨?_, ?_⟩
  · refine List.pairwise_append.mpr ⟨List.pairwise_cons.mpr ⟨fun p _ => Nat.zero_le _, ?_⟩,
      List.pairwise_singleton _ _, ?_⟩
    · exact hsorted.imp le_of_lt
    · intro p hp q hq
      rw [List.mem_singleton.mp hq]
      obtain rfl | hp := List.mem_cons.mp hp
      · exact Nat.zero_le _
      · exact (hsquare p hp).x_le
  · intro p hp
    obtain hp | hp := List.mem_append.mp hp
    · obtain rfl | hp := List.mem_cons.mp hp
      · exact ⟨Nat.zero_le _, Nat.zero_le _⟩
      · exact hsquare p hp
    · rw [List.mem_singleton.mp hp]
      exact ⟨le_rfl, le_rfl⟩

theorem chainAtoms_eq (total : ℕ) : (((total + 5) / 6 : ℕ) : ℤ) = ⌈(total : ℚ) / 6⌉ := by
  symm
  rw [Int.ceil_eq_iff, Int.cast_natCast]
  generalize hq : (total + 5) / 6 = q
  have hle : (total : ℚ) ≤ 6 * q := by
    have h : total ≤ 6 * q := by omega
    exact_mod_cast h
  have hlt : (6 * q : ℚ) < total + 6 := by
    have h : 6 * q < total + 6 := by omega
    exact_mod_cast h
  constructor
  · rw [lt_div_iff₀ (by norm_num)]
    linarith
  · rw [div_le_iff₀ (by norm_num)]
    linarith

/-- The end of the guest: the penalty of the widest gap, and the atoms of the chain. -/
theorem total_eq (area gap : ℕ) :
    ((area + gap * 10 * (areaScale / xScale) : ℕ) : ℚ) / 6 =
      (scaleArea area + 10 * scaleX gap) * 10 ^ 18 := by
  show ((area + gap * 10 * (6 * 10 ^ 12) : ℕ) : ℚ) / 6 =
    ((area : ℚ) / (6 * 10 ^ 18) + 10 * (gap / 10 ^ 6)) * 10 ^ 18
  push_cast
  ring

/-- The sums of the verifier over the points of the guest. -/
theorem addAreas_scaled (L : List Point) :
    addAreas ((0, 0) :: L.map scale ++ [(1, 1)]) (0, 0) =
      addAreas (((0, 0) :: L ++ [(xScale, yScale)]).map scale) (scaleSums (0, 0)) := by
  have hleft : scale (0, 0) = (0, 0) := by norm_num [scale, scaleX, scaleY]
  have hright : scale (xScale, yScale) = (1, 1) := by norm_num [scale, scaleX, scaleY, xScale, yScale]
  have hsums : scaleSums (0, 0) = (0, 0) := by norm_num [scaleSums, scaleX, scaleArea]
  rw [List.map_append, List.map_cons, List.map_singleton, hleft, hright, hsums]

/-- For every nonempty list of admitted rows the guest accepts, and its integers are the fractions of the
verifier. -/
theorem verifyEdgesVsTriangles_spec (rows : List Row) (h : rows ≠ []) :
    ∃ score, verifyEdgesVsTriangles (rows.map Row.values) = some score ∧
      (score.areaScaled : ℚ) / (6 * 10 ^ 18) = (areaAndGap (rows.map Row.values)).1 ∧
      (score.maxGapNumerator : ℚ) / 10 ^ 6 = (areaAndGap (rows.map Row.values)).2 ∧
      score.chainAtoms = ⌈((areaAndGap (rows.map Row.values)).1 +
        10 * (areaAndGap (rows.map Row.values)).2) * 10 ^ 18⌉ ∧
      score.chainAtoms = ⌈-computeScore (rows.map Row.values) * 10 ^ 18⌉ := by
  obtain ⟨points, hpoints, hsquare, hmap⟩ := mapM_rowPointScaled rows
  have henvelope := keepFirst_insertionSort points
  obtain ⟨hsorted, hsquares⟩ := canonical_sorted henvelope.increasing
    (fun p hp => hsquare p (henvelope.sub p hp))
  obtain ⟨⟨area, gap⟩, hsums, harea, hgap, hareas⟩ := sumSegments_spec hsorted hsquares
    (0, 0) (by decide) (Nat.zero_le _)
  have hquotients : areaAndGap (rows.map Row.values) = (scaleArea area, scaleX gap) := by
    unfold areaAndGap
    rw [canonicalPoints_eq hmap, addAreas_scaled]
    exact hareas.symm
  have hloop : sumSegments ((0, 0) :: keepFirst (points.insertionSort LexLe) ++ [(xScale, yScale)]) (0, 0) =
      some (area, gap) := hsums
  change area ≤ 6 * 10 ^ 18 at harea
  change gap ≤ 10 ^ 6 at hgap
  have hatoms : (((area + gap * 10 * (areaScale / xScale) + 5) / 6 : ℕ) : ℤ) =
      ⌈(scaleArea area + 10 * scaleX gap) * 10 ^ 18⌉ := by
    rw [chainAtoms_eq, total_eq]
  have hscale : areaScale / xScale = 6 * 10 ^ 12 := by decide
  refine ⟨⟨area, gap, area + gap * 10 * (areaScale / xScale),
    ((area + gap * 10 * (areaScale / xScale) + 5) / 6 : ℕ)⟩, ?_, ?_, ?_, ?_, ?_⟩
  · have hne : rows.map Row.values ≠ [] := fun hnil => h (List.map_eq_nil_iff.mp hnil)
    unfold verifyEdgesVsTriangles
    rw [guard_bind hne, hpoints, some_bind]
    dsimp only
    rw [hloop, some_bind]
    dsimp only
    rw [guard_bind ⟨harea, hgap⟩, checkedMul_bind (by omega), hscale, checkedMul_bind (by omega),
      checkedAdd_bind (by omega), checkedAdd_bind (by omega), guard_bind (by omega)]
    rfl
  · rw [hquotients]
    rfl
  · rw [hquotients]
    rfl
  · rw [hquotients]
    exact hatoms
  · unfold computeScore
    rw [hquotients, neg_neg]
    exact hatoms

/-- The row of twenty equal values. -/
def evenRow : Row where
  values := List.replicate 20 50
  length_eq := rfl
  le := by decide
  sum_eq := by decide

/-- A row of two values. -/
def unevenRow : Row where
  values := 600 :: 400 :: List.replicate 18 0
  length_eq := rfl
  le := by decide
  sum_eq := by decide

/-- Two rows, with a segment that rises and is flat from there on. -/
theorem verifyEdgesVsTriangles_rows : ∃ score,
    verifyEdgesVsTriangles [unevenRow.values, evenRow.values] = some score ∧
      score.chainAtoms = ⌈-computeScore [unevenRow.values, evenRow.values] * 10 ^ 18⌉ := by
  obtain ⟨score, hscore, -, -, -, hatoms⟩ := verifyEdgesVsTriangles_spec [unevenRow, evenRow] (by simp)
  exact ⟨score, hscore, hatoms⟩

end P42Prizes.Edges
