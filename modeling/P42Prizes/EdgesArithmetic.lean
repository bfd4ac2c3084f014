import P42Prizes.CheckedWords
import P42Prizes.LowerEnvelopes
import Mathlib.Algebra.Order.Field.Rat
import Mathlib.Data.Rat.Floor

/-! # The score of the edges-versus-triangles problem

The guest computes the score in integers of 128 bits, at one common denominator, and checks every
operation; the verifier computes it in fractions.  Both take the points of the rows, keep the lowest
point for every edge density, and sum the areas under the segments between neighbours. -/

namespace P42Prizes.Edges

open CheckedWords LowerEnvelope

def edgesAtoms : ℕ := 20
def edgesRowSum : ℕ := 1000
def xScale : ℕ := 10 ^ 6
def yScale : ℕ := 10 ^ 9
def areaScale : ℕ := 6 * 10 ^ 18

/-! ### The guest -/

/-- A point at the scales of the guest. -/
abbrev Point := ℕ × ℕ

structure RowSums where
  total : ℕ
  sum2 : ℕ
  sum3 : ℕ
deriving DecidableEq, Repr

structure EdgesScore where
  areaScaled : ℕ
  maxGapNumerator : ℕ
  totalScaled : ℕ
  chainAtoms : ℤ
deriving DecidableEq, Repr

/-- One round of the loop over the values of a row. -/
def RowSums.add (s : RowSums) (value : ℕ) : Option RowSums := do
  guard (value ≤ edgesRowSum)
  let total ← checkedAdd 128 s.total value
  let square ← checkedMul 128 value value
  let sum2 ← checkedAdd 128 s.sum2 square
  let sum3 ← checkedAdd 128 s.sum3 (← checkedMul 128 square value)
  pure ⟨total, sum2, sum3⟩

/-- The point of a row. -/
def rowPointScaled (row : List ℕ) : Option Point := do
  let s ← row.foldlM RowSums.add ⟨0, 0, 0⟩
  guard (s.total = edgesRowSum ∧ s.sum2 ≤ xScale ∧ s.sum3 ≤ yScale)
  let xNumerator ← checkedSub xScale s.sum2
  let raised ← checkedAdd 128 yScale (← checkedMul 128 s.sum3 2)
  let yNumerator ← checkedSub raised (← checkedMul 128 s.sum2 3000)
  guard (yNumerator ≤ yScale)
  pure (xNumerator, yNumerator)

/-- `segment_area_scaled` -/
def segmentAreaScaled (left right : Point) : Option ℕ := do
  let width ← checkedSub right.1 left.1
  if width = 0 then pure 0
  else if right.2 < left.2 then checkedMul 128 (← checkedMul 128 left.2 width) 6000
  else
    let slopeSpan ← checkedMul 128 width 3000
    let slopeTip ← checkedAdd 128 left.2 slopeSpan
    if slopeTip ≤ right.2 then
      checkedMul 128 (← checkedMul 128 (← checkedAdd 128 left.2 slopeTip) width) 3000
    else
      let rise ← checkedSub right.2 left.2
      let flat ← checkedSub slopeSpan rise
      let rising ← checkedMul 128 (← checkedAdd 128 left.2 right.2) rise
      checkedAdd 128 rising (← checkedMul 128 (← checkedMul 128 right.2 flat) 2)

/-- One round of the loop over neighbours: the area and the widest gap so far. -/
def addSegment (left right : Point) (sums : ℕ × ℕ) : Option (ℕ × ℕ) := do
  let width ← checkedSub right.1 left.1
  let segment ← segmentAreaScaled left right
  let bound ← checkedMul 128 width (areaScale / xScale)
  guard (segment ≤ bound)
  pure (← checkedAdd 128 sums.1 segment, max sums.2 width)

def sumSegments : List Point → ℕ × ℕ → Option (ℕ × ℕ)
  | left :: right :: rest, sums => do sumSegments (right :: rest) (← addSegment left right sums)
  | _, sums => some sums

/-- `verify_edges_vs_triangles`, of the rows of a parsed solution. -/
def verifyEdgesVsTriangles (rows : List (List ℕ)) : Option EdgesScore := do
  guard (rows ≠ [])
  let points ← rows.mapM rowPointScaled
  let uniquePoints := keepFirst (points.insertionSort LexLe)
  let canonical := (0, 0) :: uniquePoints ++ [(xScale, yScale)]
  let (areaScaled, maxGapNumerator) ← sumSegments canonical (0, 0)
  guard (areaScaled ≤ areaScale ∧ maxGapNumerator ≤ xScale)
  let gapPenaltyScaled ← checkedMul 128 (← checkedMul 128 maxGapNumerator 10) (areaScale / xScale)
  let totalScaled ← checkedAdd 128 areaScaled gapPenaltyScaled
  let chainAtoms := (← checkedAdd 128 totalScaled 5) / 6
  guard (chainAtoms < 2 ^ 127)
  pure ⟨areaScaled, maxGapNumerator, totalScaled, chainAtoms⟩

/-! ### The verifier -/

/-- `row_point` -/
def rowPoint (row : List ℕ) : ℚ × ℚ :=
  let total := row.sum
  let sum2 := (row.map fun value => value * value).sum
  let sum3 := (row.map fun value => value * value * value).sum
  (((total ^ 2 : ℤ) - sum2 : ℤ) / (total ^ 2 : ℕ),
    ((total ^ 3 : ℤ) - 3 * sum2 * total + 2 * sum3 : ℤ) / (total ^ 3 : ℕ))

/-- `segment_area` -/
def segmentArea (left right : ℚ × ℚ) : ℚ :=
  let width := right.1 - left.1
  if width ≤ 0 then 0
  else if left.2 > right.2 then left.2 * width
  else
    let slopeTip := left.2 + 3 * width
    if slopeTip ≤ right.2 then (left.2 + slopeTip) * width * (1 / 2)
    else
      let risingWidth := (right.2 - left.2) * (1 / 3)
      let risingWidth := if risingWidth < 0 then 0 else risingWidth
      let risingWidth := if risingWidth > width then width else risingWidth
      let flatWidth := width - risingWidth
      (left.2 + right.2) * risingWidth * (1 / 2) + right.2 * flatWidth

/-- `canonical_points` -/
def canonicalPoints (rows : List (List ℕ)) : List (ℚ × ℚ) :=
  (collect (rows.map rowPoint)).insertionSort LexLe

/-- The loop of `compute_score`: the area and the widest gap. -/
def addAreas : List (ℚ × ℚ) → ℚ × ℚ → ℚ × ℚ
  | left :: right :: rest, sums =>
      let gap := right.1 - left.1
      addAreas (right :: rest)
        (sums.1 + segmentArea left right, if gap > sums.2 then gap else sums.2)
  | _, sums => sums

/-- The area and the widest gap of `compute_score`. -/
def areaAndGap (rows : List (List ℕ)) : ℚ × ℚ :=
  addAreas ((0, 0) :: canonicalPoints rows ++ [(1, 1)]) (0, 0)

/-- `compute_score` -/
def computeScore (rows : List (List ℕ)) : ℚ :=
  match areaAndGap rows with
  | (area, maxGap) => -(area + 10 * maxGap)

end P42Prizes.Edges
