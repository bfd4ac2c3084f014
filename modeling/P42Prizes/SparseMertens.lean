import P42Prizes.FloorSums
import P42Prizes.PatternClasses
import P42Prizes.VerifierInput

/-! # The sparse Mertens verifier

A solution gives the rational values `f(k) = value / denominator` at some keys from 2 on; the value at 1
is set so that the sum of `f(k) / k` vanishes.  The verifier checks for every `x` up to 960000 that the sum
of `f(k) * ⌊x / k⌋` is at most 10001/10000, all rows over one common denominator. -/

namespace P42Prizes.SparseMertens

open Reverting Verifier PatternClasses FloorSums
export Verifier (Bytes)

def reach : ℕ := 96000
def domainMax : ℕ := 10 * reach
def maxSupport : ℕ := 2000
def maxDenominator : ℕ := 10 ^ 36
def valueCapMultiplier : ℕ := 10
def tau : ℚ := 10001 / 10000
def maxSolutionBytes : ℕ := 512 * 1024

/-! ### Parsing -/

structure ParsedSolution where
  denominator : ℕ
  printedDecimal : String
  support : List (ℕ × ℤ)
deriving DecidableEq

def decimalDigits : List Char := "0123456789".toList

/-- `^(?:0|[1-9][0-9]*)\.[0-9]{16}$` -/
def printedDecimalRe : RegularExpression Char :=
  (RegularExpression.char '0' + oneOf decimalDigits.tail * (oneOf decimalDigits).star) *
    RegularExpression.char '.' * (oneOf decimalDigits) ^ 16

def requireString (value : Option Json) (label : String) : Except VerifierFailure String :=
  match value with
  | some (.str s) => if s = "" then .error ⟨"MALFORMED", s!"{label} must be a non-empty string"⟩ else .ok s
  | _ => .error ⟨"MALFORMED", s!"{label} must be a non-empty string"⟩

/-- One round of the loop over the raw support. -/
def parseEntry (cap : ℤ) (index : ℕ) (seen : List ℕ) (rawEntry : Json) : Except VerifierFailure (ℕ × ℤ) :=
  match rawEntry with
  | .dict entry => do
      let key ← requireInt (entry.lookup "k") s!"support[{index}].k"
      let numerator ← requireInt (entry.lookup "value") s!"support[{index}].value"
      revertIf (key < 2 ∨ key > reach) ⟨"KEY_RANGE", s!"support[{index}].k is outside 2..96000"⟩
      revertIf (key.toNat ∈ seen) ⟨"DUPLICATE_KEY", s!"support key {key} appears more than once"⟩
      revertIf (|numerator| > cap) ⟨"VALUE_RANGE", s!"support[{index}].value exceeds the [-10, 10] cap"⟩
      return (key.toNat, numerator)
  | _ => .error ⟨"MALFORMED", s!"support[{index}] must be an object"⟩

/-- The loop over the raw support, from an index on, after the entries it has read. -/
def parseSupport (cap : ℤ) : ℕ → List (ℕ × ℤ) → List Json → Except VerifierFailure (List (ℕ × ℤ))
  | _, support, [] => .ok support
  | index, support, rawEntry :: rawEntries => do
      let entry ← parseEntry cap index (support.map Prod.fst) rawEntry
      parseSupport cap (index + 1) (support ++ [entry]) rawEntries

/-- The order of pairs: by the key, then by the value. -/
def PairLe (p q : ℕ × ℤ) : Prop := p.1 < q.1 ∨ (p.1 = q.1 ∧ p.2 ≤ q.2)

instance : DecidableRel PairLe := fun _ _ => inferInstanceAs (Decidable (_ ∨ _))

def parseSolution (loads : Bytes → Except String Json) (raw : Bytes) :
    Except VerifierFailure ParsedSolution := do
  let data ← loadObject loads maxSolutionBytes raw
  revertIf (Json.equalsInt (data.lookup "reach") reach = false) ⟨"WRONG_REACH", "reach must equal 96000"⟩
  let denominator ← requireInt (data.lookup "denominator") "denominator"
  revertIf (denominator ≤ 0 ∨ denominator > maxDenominator)
    ⟨"DENOMINATOR_RANGE", s!"denominator must satisfy 1 <= denominator <= {maxDenominator}"⟩
  let printedDecimal ← requireString (data.lookup "printed_decimal") "printed_decimal"
  revertIf (printedDecimalRe.rmatch printedDecimal.toList = false)
    ⟨"BAD_DECIMAL",
      "printed_decimal must be a canonical non-negative decimal with exactly 16 fractional digits"⟩
  match data.lookup "support" with
  | some (.list rawSupport) =>
      revertIf (rawSupport.length = 0 ∨ rawSupport.length > maxSupport)
        ⟨"WRONG_SHAPE", "support must contain 1..2000 entries"⟩
      let support ← parseSupport (valueCapMultiplier * denominator) 0 [] rawSupport
      return ⟨denominator.toNat, printedDecimal, support.insertionSort PairLe⟩
  | _ => .error ⟨"WRONG_SHAPE", "support must contain 1..2000 entries"⟩

/-! ### Constraints -/

/-- What `check_constraints` raises: a failure of the verifier, or the error of `str` for an integer with
too many digits. -/
inductive Raised
  | failure (failure : VerifierFailure)
  | valueError (message : String)
deriving DecidableEq

structure Details where
  checkedRows : ℕ
  maxConstraintX : ℕ
  maxConstraintNum : String
  maxConstraintDen : String
deriving DecidableEq, Repr

/-- The default of `sys.get_int_max_str_digits()`. -/
def intMaxStrDigits : ℕ := 4300

/-- `str(n)` -/
def intToStr (n : ℤ) : Except Raised String := do
  revertIf (10 ^ intMaxStrDigits ≤ n.natAbs)
    (.valueError "Exceeds the limit (4300 digits) for integer string conversion")
  return toString n

/-- `sum(Fraction(numerator, key) for key, numerator in support)` -/
def weight (support : List (ℕ × ℤ)) : ℚ := (support.map fun entry => (entry.2 : ℚ) / entry.1).sum

/-- The variables of the loop over the rows. -/
structure Rows where
  runningFloorSum : ℤ := 0
  maxNumerator : Option ℤ := none
  maxX : ℕ := 0
deriving DecidableEq

/-- One row. -/
def checkRow (support : List (ℕ × ℤ)) (denominator : ℕ) (rows : Rows) (xValue : ℕ) : Except Raised Rows := do
  let weight := weight support
  let runningFloorSum := rows.runningFloorSum + (buckets domainMax support).getD xValue 0
  let constraintNumerator := runningFloorSum * weight.den - xValue * weight.num
  let rows := match rows.maxNumerator with
    | none => ⟨runningFloorSum, some constraintNumerator, xValue⟩
    | some maxNumerator =>
        if constraintNumerator > maxNumerator then ⟨runningFloorSum, some constraintNumerator, xValue⟩
        else ⟨runningFloorSum, some maxNumerator, rows.maxX⟩
  revertIf (constraintNumerator * tau.den > tau.num * denominator * weight.den)
    (.failure ⟨"CONSTRAINT_VIOLATION", s!"constraint exceeds tau at x={xValue}"⟩)
  return rows

def checkConstraints (support : List (ℕ × ℤ)) (denominator : ℕ) : Except Raised Details := do
  let rows ← (List.range' 1 domainMax).foldlM (checkRow support denominator) {}
  match rows.maxNumerator with
  | none => .error (.failure ⟨"EMPTY_DOMAIN", "constraint domain is empty"⟩)
  | some maxNumerator => do
      let maxConstraintNum ← intToStr maxNumerator
      let maxConstraintDen ← intToStr (denominator * (weight support).den)
      return ⟨domainMax, rows.maxX, maxConstraintNum, maxConstraintDen⟩

end P42Prizes.SparseMertens
