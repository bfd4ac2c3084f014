import P42Prizes.ForcingClosures
import Mathlib.Algebra.Field.Rat
import Mathlib.Data.List.Basic

/-! # The arithmetic Kakeya problem

A solution labels the edges of the 2 by 2 grid with slopes, declares some vertices free and relations at
others.  Each label and each relation is a generator; a vertex is forced when some rational combination of
the generators is `(1, -1)` at it and vanishes at every vertex that is not known yet.  The guest and the
verifier decide that by the same elimination; the verifier multiplies by the inverse of a pivot where the
guest divides by it. -/

namespace P42Prizes.Kakeya

/-- A vertex or a slope. -/
abbrev IntPair := ℤ × ℤ

abbrev EdgeLabel := List ℤ × IntPair

def maxSlopes : ℕ := 128
def maxEdgeLabelsPerAxis : ℕ := 32
def maxFreeVertices : ℕ := 4
def maxRelations : ℕ := 128
def scoreAtomScale : ℕ := 10 ^ 18

def vertexSet : List IntPair := [(1, 1), (1, 2), (2, 1), (2, 2)]

/-! ### Solutions -/

/-- The fields of a solution, as they are read. -/
structure Solution where
  grid : IntPair
  slopes : List IntPair
  edgeLabels : List EdgeLabel × List EdgeLabel
  free : List IntPair
  relations : List (IntPair × IntPair)

/-- A solution that the parser admits. -/
structure ParsedSolution where
  edgeLabels : List EdgeLabel × List EdgeLabel
  free : List IntPair
  relations : List (IntPair × IntPair)
  free_nodup : free.Nodup
  free_mem : ∀ vertex ∈ free, vertex ∈ vertexSet
  relations_mem : ∀ relation ∈ relations, relation.1 ∈ vertexSet

/-- The checks of the labels of one axis. -/
def labelsAdmitted (slopes : List IntPair) (keyLength : ℕ) (labels : List EdgeLabel) : Prop :=
  labels.length ≤ maxEdgeLabelsPerAxis ∧
    (∀ label ∈ labels, label.1.length = keyLength ∧ label.2 ∈ slopes) ∧ labels.Nodup

instance (slopes : List IntPair) (keyLength : ℕ) (labels : List EdgeLabel) :
    Decidable (labelsAdmitted slopes keyLength labels) :=
  inferInstanceAs (Decidable (_ ∧ _))

/-- `ParsedSolution::try_from` -/
def ParsedSolution.tryFrom (solution : Solution) : Option ParsedSolution := do
  guard (solution.grid = (2, 2) ∧ solution.slopes.length ≤ maxSlopes ∧
    solution.free.length ≤ maxFreeVertices ∧ solution.relations.length ≤ maxRelations)
  guard (solution.slopes.Nodup ∧ (0, 0) ∈ solution.slopes)
  guard (∀ slope ∈ solution.slopes, slope ≠ (0, 0) → slope.1 + slope.2 ≠ 0)
  guard (labelsAdmitted solution.slopes 1 solution.edgeLabels.1 ∧
    labelsAdmitted solution.slopes 2 solution.edgeLabels.2)
  guard ((∀ relation ∈ solution.relations, relation.2 ∈ solution.slopes) ∧ solution.relations.Nodup)
  if h : (solution.free.Nodup ∧ ∀ vertex ∈ solution.free, vertex ∈ vertexSet) ∧
      ∀ relation ∈ solution.relations, relation.1 ∈ vertexSet then
    some ⟨solution.edgeLabels, solution.free, solution.relations, h.1.1, h.1.2, h.2⟩
  else none

/-! ### Generators -/

/-- Two coordinates for each vertex. -/
abbrev Generator := Fin 8 → ℤ

/-- `coordinate_index` -/
def coordinateIndex (vertex : IntPair) (component : Fin 2) : Option (Fin 8) :=
  if vertex = (1, 1) then some (0 + component.castLE (by decide))
  else if vertex = (1, 2) then some (2 + component.castLE (by decide))
  else if vertex = (2, 1) then some (4 + component.castLE (by decide))
  else if vertex = (2, 2) then some (6 + component.castLE (by decide))
  else none

/-- `add_slope` -/
def addSlope (vector : Generator) (vertex slope : IntPair) (sign : ℤ) : Option Generator := do
  let first ← coordinateIndex vertex 0
  let vector := Function.update vector first (vector first + slope.1 * sign)
  let second ← coordinateIndex vertex 1
  pure (Function.update vector second (vector second + slope.2 * sign))

/-- The generator of a relation. -/
def relationGenerator (relation : IntPair × IntPair) : Option Generator :=
  addSlope 0 relation.1 relation.2 1

/-- The generator of an edge, with its slope at the one end and the opposite at the other. -/
def edgeGenerator (slope left right : IntPair) : Option Generator := do
  addSlope (← addSlope 0 left slope 1) right slope (-1)

/-- The generators of a label of the first axis, one for each edge. -/
def firstAxisGenerators (label : EdgeLabel) : Option (List Generator) := do
  guard (label.1 = [1])
  [1, 2].mapM fun second => edgeGenerator label.2 (1, second) (2, second)

/-- The generator of a label of the second axis. -/
def secondAxisGenerator (label : EdgeLabel) : Option Generator := do
  guard (label.1 = [1, 1] ∨ label.1 = [2, 1])
  let first := label.1.headD 0
  edgeGenerator label.2 (first, 1) (first, 2)

/-- `build_generators` -/
def buildGenerators (parsed : ParsedSolution) : Option (List Generator) := do
  let relations ← parsed.relations.mapM relationGenerator
  let firstAxis ← parsed.edgeLabels.1.mapM firstAxisGenerators
  let secondAxis ← parsed.edgeLabels.2.mapM secondAxisGenerator
  pure (relations ++ firstAxis.flatten ++ secondAxis)

/-! ### Elimination -/

section

variable {K : Type} [Field K] [DecidableEq K]

/-- `rows.swap(i, j)` -/
def swapRows (rows : List (List K)) (i j : ℕ) : List (List K) :=
  (rows.set i (rows.getD j [])).set j (rows.getD i [])

/-- A row after a multiple of the pivot row has been subtracted from `column` on. -/
def eliminateRow (column : ℕ) (pivotRow row : List K) : List K :=
  if row.getD column 0 = 0 then row
  else
    let factor := row.getD column 0 / pivotRow.getD column 0
    row.mapIdx fun i value => if column ≤ i then value - factor * pivotRow.getD i 0 else value

/-- One round of the loop over the columns: the rows and the index of the next pivot row. -/
def eliminateColumn (state : List (List K) × ℕ) (column : ℕ) : List (List K) × ℕ :=
  let (rows, pivotRow) := state
  match (List.range' pivotRow (rows.length - pivotRow)).find?
      fun row => (rows.getD row []).getD column 0 ≠ 0 with
  | none => (rows, pivotRow)
  | some pivot =>
      let rows := swapRows rows pivotRow pivot
      (rows.mapIdx fun i row =>
        if pivotRow < i then eliminateRow column (rows.getD pivotRow []) row else row, pivotRow + 1)

/-- `is_consistent` -/
def isConsistent (rows : List (List K)) : Bool :=
  match rows with
  | [] => true
  | first :: _ =>
      let columns := first.length - 1
      let (rows, _) := (List.range columns).foldl eliminateColumn (rows, 0)
      rows.all fun row => !(row.take columns).all (· = 0) || row.getD columns 0 = 0

end

/-! ### Forcing -/

/-- The value that a combination shall have at its target. -/
def targetValue (component : Fin 2) : ℚ := if component = 0 then 1 else -1

/-- Where a generator holds a coordinate of a vertex. -/
def coordinate (vertex : IntPair) (component : Fin 2) : Fin 8 := (coordinateIndex vertex component).getD 0

/-- The equation of one coordinate. -/
def equationRow (generators : List Generator) (vertex : IntPair) (component : Fin 2) (rhs : ℚ) : List ℚ :=
  let coordinate := (coordinateIndex vertex component).getD 0
  generators.map (fun generator => (generator coordinate : ℚ)) ++ [rhs]

/-- `can_force` -/
def canForce (target : IntPair) (free : Finset IntPair) (generators : List Generator) : Bool :=
  isConsistent (vertexSet.flatMap fun vertex =>
    if vertex = target ∨ vertex ∉ free then
      [0, 1].map fun component =>
        equationRow generators vertex component (if vertex = target then targetValue component else 0)
    else [])

/-- The loop of `evaluate`: the rounds, and the vertices that are free or forced after them. -/
def forcedVertices (free : List IntPair) (generators : List Generator) :
    List (List IntPair) × Finset IntPair :=
  Forcing.forceRounds vertexSet (fun free vertex => canForce vertex free generators) free.toFinset

/-! ### Scores -/

structure KakeyaScore where
  numerator : ℕ
  denominator : ℕ
  chainAtoms : ℕ
deriving DecidableEq, Repr

structure KakeyaEvaluation where
  score : KakeyaScore
  rounds : List (List IntPair)
deriving DecidableEq, Repr

def ParsedSolution.edgeCost (parsed : ParsedSolution) : ℕ :=
  parsed.edgeLabels.1.countP (fun label => label.2 ≠ (0, 0)) * 2 +
    parsed.edgeLabels.2.countP (fun label => label.2 ≠ (0, 0))

/-- `evaluate` -/
def evaluate (parsed : ParsedSolution) : Option KakeyaEvaluation := do
  let generators ← buildGenerators parsed
  let (rounds, free) := forcedVertices parsed.free generators
  guard (free.card = vertexSet.length)
  guard (parsed.free.length < 4)
  let denominator := 4 - parsed.free.length
  let numerator := parsed.edgeCost + parsed.relations.length
  let divisor := Nat.gcd numerator denominator
  let numerator := numerator / divisor
  let denominator := denominator / divisor
  let chainAtoms := (numerator * scoreAtomScale + denominator - 1) / denominator
  pure ⟨⟨numerator, denominator, chainAtoms⟩, rounds⟩

end P42Prizes.Kakeya
