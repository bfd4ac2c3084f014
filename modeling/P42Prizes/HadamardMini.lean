import P42Prizes.VerifierInput

/-! # The verifier of the pilot problem

A solution is a matrix of four rows of four signs.  Its score is the number of pairs of rows that are not
orthogonal; a solution that cannot be read gets the score of the seed. -/

namespace P42Prizes.HadamardMini

open Reverting Verifier
export Verifier (Bytes)

def order : ℕ := 4
def seedDefect : ℕ := 6
def minImprovement : ℚ := 1 / 6
def maxSolutionBytes : ℕ := 4096

/-! ### Parsing -/

/-- One round of the loop over the symbols of a row. -/
def parseSymbol (rowIndex colIndex : ℕ) (symbol : Char) : Except VerifierFailure ℤ :=
  if symbol = '+' then .ok 1
  else if symbol = '-' then .ok (-1)
  else .error ⟨"BAD_SYMBOL", s!"row {rowIndex}, col {colIndex} is not '+' or '-'"⟩

/-- The loop over the symbols of a row, from a column on. -/
def parseSymbols (rowIndex : ℕ) : ℕ → List Char → Except VerifierFailure (List ℤ)
  | _, [] => .ok []
  | colIndex, symbol :: symbols => do
      let value ← parseSymbol rowIndex colIndex symbol
      let values ← parseSymbols rowIndex (colIndex + 1) symbols
      return value :: values

/-- The loop over the rows, from an index on. -/
def parseRows : ℕ → List Json → Except VerifierFailure (List (List ℤ))
  | _, [] => .ok []
  | rowIndex, .str row :: rows => do
      revertIf (row.length ≠ order) ⟨"WRONG_SHAPE", s!"row {rowIndex} must contain four symbols"⟩
      let values ← parseSymbols rowIndex 0 row.toList
      let parsed ← parseRows (rowIndex + 1) rows
      return values :: parsed
  | rowIndex, _ :: _ => .error ⟨"WRONG_SHAPE", s!"row {rowIndex} must contain four symbols"⟩

def parseSolution (loads : Bytes → Except String Json) (raw : Bytes) :
    Except VerifierFailure (List (List ℤ)) := do
  let data ← loadObject loads maxSolutionBytes raw
  revertIf (Json.equalsInt (data.lookup "n") order = false) ⟨"WRONG_ORDER", "n must equal 4"⟩
  match data.lookup "rows" with
  | some (.list rows) => do
      revertIf (rows.length ≠ order) ⟨"WRONG_SHAPE", "rows must contain exactly four rows"⟩
      parseRows 0 rows
  | _ => .error ⟨"WRONG_SHAPE", "rows must contain exactly four rows"⟩

/-! ### Scoring -/

def dot (left right : List ℤ) : ℤ := (List.zipWith (· * ·) left right).sum

/-- The pairs of rows that are not orthogonal, by their indices and their product. -/
def violations : ℕ → List (List ℤ) → List ((ℕ × ℕ) × ℤ)
  | _, [] => []
  | i, left :: rest =>
      (rest.zipIdx (i + 1)).filterMap (fun (right, j) =>
        if dot left right = 0 then none else some ((i, j), dot left right)) ++ violations (i + 1) rest

def computeDefect (rows : List (List ℤ)) : ℕ := (violations 0 rows).length

structure VerdictReport where
  solutionHash : String
  valid : Bool
  improvement : ℚ
  score : ℚ
  reason : String
deriving DecidableEq

/-- `report_for_solution`, of the bytes of a solution; scores stand for their texts. -/
def reportForSolution (loads : Bytes → Except String Json) (sha256 : Bytes → String) (raw : Bytes) :
    VerdictReport :=
  match parseSolution loads raw with
  | .ok rows =>
      let score : ℚ := computeDefect rows
      let improvement := max 0 ((seedDefect - score) / seedDefect)
      let valid := minImprovement ≤ improvement
      { solutionHash := sha256 raw, valid, improvement, score,
        reason := if valid then "" else "NOT_STRICT_IMPROVEMENT" }
  | .error failure =>
      { solutionHash := sha256 raw, valid := false, improvement := 0, score := seedDefect,
        reason := failure.reason }

example : computeDefect [[1, 1, 1, 1], [1, -1, 1, -1], [1, 1, -1, -1], [1, -1, -1, 1]] = 0 := by decide

end P42Prizes.HadamardMini
