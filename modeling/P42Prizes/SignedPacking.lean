import Mathlib.Data.Nat.Digits.Lemmas
import Mathlib.Data.Nat.Size
import P42Prizes.SignedDigits
import P42Prizes.VerifierInput

/-! # The signed autoconvolution verifier

The verifier of the C3 problem squares a vector of 100000 integers as one large integer.  The entries are
packed in slots of whole bytes, the positive ones and the negative ones apart, and the square is unpacked
into the coefficients of the autoconvolution. -/

namespace P42Prizes.SignedAutoconvolution

open Reverting Verifier
export Verifier (Bytes)

def N : ℕ := 100000
def maxDenominatorPower : ℕ := 128
def maxAbsMultiplier : ℕ := 1024
def maxSolutionBytes : ℕ := 4 * 1024 * 1024

/-! ### Parsing -/

/-- The loop over the raw values, from an index on. -/
def parseValues (magnitudeLimit : ℤ) : ℕ → List Json → Except VerifierFailure (List ℤ)
  | _, [] => .ok []
  | index, rawValue :: rawValues => do
      let value ← requireInt (some rawValue) s!"values[{index}]"
      revertIf (|value| > magnitudeLimit)
        ⟨"RAW_RANGE", s!"values[{index}] magnitude exceeds the configured dyadic cap"⟩
      return value :: (← parseValues magnitudeLimit (index + 1) rawValues)

def parseSolution (loads : Bytes → Except String Json) (raw : Bytes) :
    Except VerifierFailure (ℤ × List ℤ) := do
  let data ← loadObject loads maxSolutionBytes raw
  revertIf (Json.equalsInt (data.lookup "n") N = false) ⟨"WRONG_N", "n must equal 100000"⟩
  let denominatorPower ← requireInt (data.lookup "denominator_power") "denominator_power"
  revertIf (denominatorPower < 0 ∨ denominatorPower > maxDenominatorPower)
    ⟨"DENOMINATOR_POWER_RANGE", s!"denominator_power must be between 0 and {maxDenominatorPower}"⟩
  let magnitudeLimit : ℤ := maxAbsMultiplier * 2 ^ denominatorPower.toNat
  match data.lookup "values" with
  | some (.list rawValues) =>
      revertIf (rawValues.length ≠ N) ⟨"WRONG_SHAPE", "values must contain exactly 100000 entries"⟩
      let values ← parseValues magnitudeLimit 0 rawValues
      revertIf (values.sum = 0) ⟨"ZERO_MASS", "sum(values) must be nonzero"⟩
      return (denominatorPower, values)
  | _ => .error ⟨"WRONG_SHAPE", "values must contain exactly 100000 entries"⟩

/-! ### Packing -/

/-- `value.bit_length()` rounded up to whole bytes -/
def usedBytes (value : ℕ) : ℕ := (Nat.size value + 7) / 8

/-- `value.to_bytes(length, "little")`, of a value that fits -/
def toBytes (value length : ℕ) : List ℕ :=
  Nat.digits 256 value ++ List.replicate (length - (Nat.digits 256 value).length) 0

/-- `int.from_bytes(bytes, "little")` -/
def fromBytes (bytes : List ℕ) : ℕ := Nat.ofDigits 256 bytes

/-- `buffer[start:stop] = bytes` -/
def setSlice (buffer : List ℕ) (start stop : ℕ) (bytes : List ℕ) : List ℕ :=
  buffer.take start ++ bytes ++ buffer.drop stop

/-- The loop of `pack_nonnegative`, from an index on. -/
def fillSlots (slotBytes : ℕ) : ℕ → List ℕ → List ℕ → List ℕ
  | _, [], buffer => buffer
  | index, value :: values, buffer =>
      fillSlots slotBytes (index + 1) values <|
        if value ≠ 0 then
          setSlice buffer (index * slotBytes) (index * slotBytes + usedBytes value)
            (toBytes value (usedBytes value))
        else buffer

def packNonnegative (values : List ℕ) (slotBytes : ℕ) : ℕ :=
  fromBytes (fillSlots slotBytes 0 values (List.replicate (slotBytes * values.length) 0))

def packSigned (values : List ℤ) (slotBytes : ℕ) : ℤ :=
  let positives := values.map fun value => if value > 0 then value.toNat else 0
  let negatives := values.map fun value => if value < 0 then (-value).toNat else 0
  packNonnegative positives slotBytes - packNonnegative negatives slotBytes

/-- The loop of `unpack_signed` over the digits, with the borrow of the digit before. -/
def balanceLoop (base : ℤ) : ℤ → List ℤ → List ℤ × ℤ
  | carry, [] => ([], carry)
  | carry, digit :: digits =>
      let halfBase := base / 2
      let balanced := if digit < halfBase then digit else digit - base
      let (coefficients, lastCarry) := balanceLoop base (if balanced < 0 then -1 else 0) digits
      ((balanced - carry) :: coefficients, lastCarry)

def unpackSigned (value : ℤ) (slotBytes length : ℕ) : Except VerifierFailure (List ℤ) := do
  revertIf (value < 0) ⟨"PACKING_CHECKSUM", "signed packed square is negative"⟩
  let targetBytes := slotBytes * length
  let used := max 1 (usedBytes value.toNat)
  revertIf (used > targetBytes) ⟨"PACKING_CHECKSUM", "signed packed product exceeds allotted slots"⟩
  let bytes := toBytes value.toNat used
  let raw := bytes ++ List.replicate (targetBytes - bytes.length) 0
  let digits := (List.range length).map fun index =>
    (fromBytes ((raw.take ((index + 1) * slotBytes)).drop (index * slotBytes)) : ℤ)
  let (coefficients, carry) := balanceLoop (2 ^ (8 * slotBytes)) 0 digits
  revertIf (carry ≠ 0) ⟨"PACKING_CHECKSUM", "signed packed product has an unterminated borrow"⟩
  return coefficients

/-! ### The score -/

structure Details where
  argmaxIndex : ℕ
  checkedCoefficients : ℕ
  signedSum : ℤ
  slotBytes : ℕ
deriving DecidableEq, Repr

/-- `(bound.bit_length() + 2 + 7) // 8` -/
def slotBytesFor (bound : ℕ) : ℕ := (Nat.size bound + 2 + 7) / 8

/-- `max(values)` of a list that is not empty -/
def listMax : List ℤ → ℤ
  | [] => 0
  | value :: values => values.foldl max value

/-- `min(values)` of a list that is not empty -/
def listMin : List ℤ → ℤ
  | [] => 0
  | value :: values => values.foldl min value

def computeScore (values : List ℤ) : Except VerifierFailure (ℚ × Details) := do
  let total := values.sum
  let maxAbs := listMax (values.map fun value => |value|)
  revertIf (maxAbs = 0) ⟨"ZERO_MASS", "all values are zero"⟩
  let bound := N * maxAbs.toNat * maxAbs.toNat
  let slotBytes := slotBytesFor bound
  let length := 2 * N - 1
  let packedValues := packSigned values slotBytes
  let coefficients ← unpackSigned (packedValues * packedValues) slotBytes length
  revertIf (coefficients.sum ≠ total * total) ⟨"PACKING_CHECKSUM", "autoconvolution checksum failed"⟩
  let linf := max (listMax coefficients) (-listMin coefficients)
  revertIf (linf ≤ 0) ⟨"NONPOSITIVE_MAX", "L-infinity norm of autoconvolution is not positive"⟩
  let argmax := coefficients.findIdx fun coefficient => |coefficient| = linf
  return ((2 * N * linf : ℤ) / (total * total : ℤ), ⟨argmax, length, total, slotBytes⟩)

end P42Prizes.SignedAutoconvolution
