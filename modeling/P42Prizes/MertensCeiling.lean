import Mathlib.Algebra.Order.Ring.Rat
import P42Prizes.PythonText
import P42Prizes.SparseMertens

/-! # The Mertens ceiling verifier

A solution gives nonnegative multipliers of the rows of a linear program, over one denominator, and a
decimal of 25 digits.  The verifier encloses the bound that the multipliers give, at two precisions of
interval arithmetic, and accepts the decimal only if it is that bound rounded up.  The interval arithmetic
is a parameter of the model. -/

namespace P42Prizes.MertensCeiling

open Reverting Verifier
open PythonText (UnicodeData str isdigit int)
open SparseMertens (Raised requireString intToStr)
export Verifier (Bytes)

def K : ℕ := 12000
def M : ℕ := 120000
def domainMMax : ℕ := 10 * K - 1
def denominatorPower : ℕ := 48
def denominator : ℕ := 2 ^ denominatorPower
def decimalUnit : ℚ := 1 / 10 ^ 25
def maxRows : ℕ := 20000
def maxYValue : ℕ := 2 ^ 63 - 1
def maxSolutionBytes : ℕ := 512 * 1024
def lowPrecisionBits : ℕ := 500
def highPrecisionBits : ℕ := 800

/-! ### Parsing -/

/-- A multiplier of the row at `m`. -/
abbrev Row := ℕ × ℕ

structure ParsedSolution where
  printedDecimal : String
  rows : List Row
  yHash : String
deriving DecidableEq

/-- `struct.pack("<q", n)` of a number below `2 ^ 63` -/
def pack (n : ℕ) : Bytes := (List.range 8).map fun i => UInt8.ofNat (n / 256 ^ i % 256)

def dualHash (sha256 : Bytes → String) (rows : List Row) : String :=
  sha256 (rows.flatMap (fun row => pack row.1) ++ rows.flatMap (fun row => pack row.2) ++
    (toString denominatorPower).toUTF8.toList ++ (toString K).toUTF8.toList)

/-- One round of the loop over the raw rows. -/
def parseRow (index : ℕ) (rawLeft rawRight : Json) : Except VerifierFailure Row := do
  let mValue ← requireInt (some rawLeft) s!"m[{index}]"
  let yValue ← requireInt (some rawRight) s!"Y[{index}]"
  revertIf (mValue < 1 ∨ mValue > domainMMax) ⟨"ROW_DOMAIN", s!"m[{index}] is outside 1..119999"⟩
  revertIf (yValue < 0 ∨ yValue > maxYValue) ⟨"DUAL_RANGE", s!"Y[{index}] must be in 0..2^63-1"⟩
  return (mValue.toNat, yValue.toNat)

/-- The loop over the raw rows, from an index on. -/
def parseRows : ℕ → List (Json × Json) → Except VerifierFailure (List Row)
  | _, [] => .ok []
  | index, (rawLeft, rawRight) :: rest => do
      let row ← parseRow index rawLeft rawRight
      let rows ← parseRows (index + 1) rest
      return row :: rows

/-- `printed_decimal` is `0.` and 25 digits. -/
def isPrinted (u : UnicodeData) (printedDecimal : String) : Bool :=
  (str printedDecimal).length = 27 && (str "0.").isPrefixOf (str printedDecimal) &&
    isdigit u ((str printedDecimal).drop 2)

def parseSolution (loads : Bytes → Except String Json) (sha256 : Bytes → String) (u : UnicodeData)
    (raw : Bytes) : Except VerifierFailure ParsedSolution := do
  let data ← loadObject loads maxSolutionBytes raw
  revertIf (Json.equalsInt (data.lookup "K") K = false) ⟨"WRONG_K", "K must equal 12000"⟩
  revertIf (Json.equalsInt (data.lookup "M") M = false) ⟨"WRONG_M", "M must equal 120000"⟩
  revertIf (Json.equalsInt (data.lookup "denom_pow") denominatorPower = false)
    ⟨"WRONG_DENOMINATOR", "denom_pow must equal 48"⟩
  let printedDecimal ← requireString (data.lookup "printed_decimal") "printed_decimal"
  revertIf (isPrinted u printedDecimal = false) ⟨"BAD_DECIMAL", "printed_decimal must be 0.<25 digits>"⟩
  let expectedHash ← requireString (data.lookup "y_hash_sha256") "y_hash_sha256"
  revertIf (expectedHash.length ≠ 64 ∨ expectedHash.toList.any (fun c => c ∉ "0123456789abcdef".toList))
    ⟨"BAD_HASH", "y_hash_sha256 must be lowercase sha256 hex"⟩
  match data.lookup "m", data.lookup "Y" with
  | some (.list rawM), some (.list rawY) =>
      revertIf (rawM.length ≠ rawY.length ∨ rawM.length = 0 ∨ rawM.length > maxRows)
        ⟨"WRONG_SHAPE", "m and Y must have equal nonzero length at most 20000"⟩
      let rows ← parseRows 0 (rawM.zip rawY)
      let actualHash := dualHash sha256 rows
      revertIf (actualHash ≠ expectedHash) ⟨"HASH_MISMATCH", "dual row hash does not match y_hash_sha256"⟩
      return ⟨printedDecimal, rows, actualHash⟩
  | _, _ => .error ⟨"WRONG_SHAPE", "m and Y must be arrays"⟩

/-! ### Intervals -/

/-- `(sign, mantissa, exponent, bit_count)` -/
structure RawMpf where
  sign : Bool
  mantissa : ℕ
  exponent : ℤ
  bitCount : ℤ
deriving DecidableEq

def rawMpfToFraction (raw : RawMpf) : ℚ :=
  let value : ℚ :=
    if 0 ≤ raw.exponent then raw.mantissa * 2 ^ raw.exponent.toNat else raw.mantissa / 2 ^ (-raw.exponent).toNat
  if raw.sign then -value else value

/-- The lower and the upper endpoint, `interval._mpi_`. -/
abbrev Interval := RawMpf × RawMpf

def intervalUpperFraction (interval : Interval) : ℚ := rawMpfToFraction interval.2

/-- The operations of `mpmath.iv`, each at a precision in bits.  `gt` says whether a comparison of two
intervals is true. -/
structure IntervalArithmetic where
  mpf : ℕ → ℤ → Interval
  log : ℕ → ℕ → Interval
  fdiv : ℕ → Interval → Interval → Interval
  add : ℕ → Interval → Interval → Interval
  abs : ℕ → Interval → Interval
  gt : Interval → Interval → Bool

/-- The integer residual at `k`. -/
def residualAt (rows : List Row) (kValue : ℕ) : ℤ :=
  rows.foldl (fun residual row => residual + row.2 * -((row.1 % kValue : ℕ) : ℤ)) 0

/-- `max(left, right)`: the second one only if it is greater. -/
def maxInterval (iv : IntervalArithmetic) (left right : Interval) : Interval :=
  if iv.gt right left then right else left

/-- One round of the loop: the absolute value of the residual at `k`, enclosed, over `k`.  The endpoints
of an interval are intervals of one point. -/
def residualStep (iv : IntervalArithmetic) (rows : List Row) (precisionBits : ℕ) (total : Interval)
    (kValue : ℕ) : Interval :=
  let intervalValue := iv.add precisionBits (iv.log precisionBits kValue)
    (iv.fdiv precisionBits (iv.mpf precisionBits (residualAt rows kValue)) (iv.mpf precisionBits denominator))
  let left := iv.abs precisionBits (intervalValue.1, intervalValue.1)
  let right := iv.abs precisionBits (intervalValue.2, intervalValue.2)
  let upper := maxInterval iv left right
  iv.add precisionBits total (iv.fdiv precisionBits upper (iv.mpf precisionBits kValue))

def residualIntervalSum (iv : IntervalArithmetic) (rows : List Row) (precisionBits : ℕ) : Interval :=
  (List.range' 2 (K - 1)).foldl (residualStep iv rows precisionBits) (iv.mpf precisionBits 0)

/-! ### Score -/

structure Details where
  K : ℕ
  M : ℕ
  denomPow : ℕ
  rows : ℕ
  yHash : String
  bHiNum : String
  bHiDen : String
  printedDecimal : String
deriving DecidableEq

/-- `Fraction(text)` of `0.` and digits; a digit without a decimal value is refused. -/
def fractionOf (u : UnicodeData) (printedDecimal : String) : Except Raised ℚ :=
  match int u ((str printedDecimal).drop 2) with
  | some n => .ok (n / 10 ^ ((str printedDecimal).length - 2))
  | none => .error (.valueError s!"Invalid literal for Fraction: '{printedDecimal}'")

def sumY (rows : List Row) : ℕ := (rows.map Prod.snd).sum

/-- The upper end of the bound. -/
def bHi (iv : IntervalArithmetic) (rows : List Row) : ℚ :=
  (10001 * sumY rows : ℕ) / (10000 * denominator : ℕ) +
    10 * intervalUpperFraction (residualIntervalSum iv rows highPrecisionBits)

def computeScore (iv : IntervalArithmetic) (u : UnicodeData) (parsed : ParsedSolution) :
    Except Raised (ℚ × Details) := do
  let printed ← fractionOf u parsed.printedDecimal
  let previousDecimal := printed - decimalUnit
  let lowUpper := intervalUpperFraction (residualIntervalSum iv parsed.rows lowPrecisionBits)
  let highUpper := intervalUpperFraction (residualIntervalSum iv parsed.rows highPrecisionBits)
  revertIf (highUpper > lowUpper)
    (.failure ⟨"INTERVAL_NESTING", "higher-precision residual upper bound widened"⟩)
  revertIf (printed < bHi iv parsed.rows)
    (.failure ⟨"VAULT_FAIL", "printed decimal is below recomputed interval upper bound"⟩)
  revertIf (previousDecimal ≥ bHi iv parsed.rows)
    (.failure ⟨"ROUNDING_NOT_TIGHT", "one-ULP-lower decimal still covers the bound"⟩)
  let bHiNum ← intToStr (bHi iv parsed.rows).num
  let bHiDen ← intToStr (bHi iv parsed.rows).den
  return (printed, ⟨K, M, denominatorPower, parsed.rows.length, parsed.yHash, bHiNum, bHiDen, parsed.printedDecimal⟩)

end P42Prizes.MertensCeiling
