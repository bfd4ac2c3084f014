import Mathlib.Data.Rat.Floor
import P42Prizes.PatternClasses

/-! # Score texts

A score is a rational number in a text, with an optional denominator.  The verifier reads it in Python,
the agent and the portal in JavaScript, each with a pattern of its own, and the verifier, the runner and
the agent turn it into the integer that the chain compares. -/

namespace P42Prizes

open PatternClasses

abbrev Text := List Char

inductive Direction
  | minimize
  | maximize
  deriving DecidableEq

/-- Why a score is not read. -/
inductive ScoreError
  /-- `rational value must not be a bool` -/
  | bool
  /-- `invalid rational literal`, `invalid exact rational` -/
  | literal (text : Text)
  /-- `Exceeds the limit (4300 digits) for integer string conversion` -/
  | digits
  /-- `rational denominator must be non-zero`, `denominator cannot be zero` -/
  | zeroDenominator
  deriving DecidableEq

/-- `10**18` -/
def scoreScale : ℤ := 10 ^ 18

/-! ### Patterns -/

def digits : Text := "0123456789".toList

/-- `[+-]?[0-9]+`, with the signs that the pattern lists -/
def integerRe (signs : Text) : RegularExpression Char := optional (oneOf signs) * oneOrMore (oneOf digits)

/-- `^[+-]?[0-9]+(?:/[+-]?[0-9]+)?$` -/
def rationalRe (signs : Text) : RegularExpression Char :=
  integerRe signs * optional (RegularExpression.char '/' * integerRe signs)

/-! ### Numerals -/

/-- The text after an optional sign. -/
def unsigned : Text → Text
  | '-' :: rest => rest
  | '+' :: rest => rest
  | text => text

/-- The number of a numeral with an optional sign: `BigInt(text)`. -/
def bigInt (text : Text) : ℤ :=
  if text.head? = some '-' then -(Nat.ofDigitChars 10 (unsigned text) 0 : ℕ)
  else (Nat.ofDigitChars 10 (unsigned text) 0 : ℕ)

/-- A number in decimal, as a template string writes it. -/
def decimalText (n : ℤ) : Text :=
  if n < 0 then '-' :: Nat.toDigits 10 n.natAbs else Nat.toDigits 10 n.natAbs

/-- The two pieces of a text at its first slash. -/
def splitSlash (text : Text) : Text × Option Text :=
  match text.dropWhile (· ≠ '/') with
  | [] => (text, none)
  | _ :: rest => (text.takeWhile (· ≠ '/'), some rest)

/-! ### The verifier -/

namespace Verdict

def RATIONAL_RE : RegularExpression Char := rationalRe ['+', '-']

/-- The default of `sys.get_int_max_str_digits()`. -/
def intMaxStrDigits : ℕ := 4300

/-- `int(text)`, of a text that is a numeral -/
def int (text : Text) : Except ScoreError ℤ :=
  if (unsigned text).length ≤ intMaxStrDigits then .ok (bigInt text) else .error .digits

inductive Value
  | bool (b : Bool)
  | fraction (q : ℚ)
  | integer (n : ℤ)
  | text (s : Text)

def parseRational : Value → Except ScoreError ℚ
  | .bool _ => .error .bool
  | .fraction q => .ok q
  | .integer n => .ok n
  | .text s =>
      if RATIONAL_RE.rmatch s then
        match splitSlash s with
        | (num, some den) => do
            let denominator ← int den
            if denominator = 0 then .error .zeroDenominator else
            let numerator ← int num
            return (numerator : ℚ) / denominator
        | (num, none) => return (← int num : ℤ)
      else .error (.literal s)

/-- `-((-scaled_numerator) // rational.denominator)` -/
def atomsFromScore (value : Value) : Except ScoreError ℤ := do
  let rational ← parseRational value
  let scaledNumerator := rational.num * scoreScale
  return -(-scaledNumerator).fdiv rational.den

def chainScoreAtoms (value : Value) (direction : Direction) : Except ScoreError ℤ := do
  let rational ← parseRational value
  atomsFromScore (.fraction (match direction with
    | .maximize => -rational
    | .minimize => rational))

end Verdict

/-- The runner's `_chain_score_atoms`. -/
def Runner.chainScoreAtoms (score : Verdict.Value) (direction : Direction) : Except ScoreError ℤ := do
  let rational ← Verdict.parseRational score
  let rational := match direction with
    | .maximize => -rational
    | .minimize => rational
  let scaledNum := rational.num * scoreScale
  return -(-scaledNum).fdiv rational.den

/-! ### The agent -/

structure Rational where
  num : ℤ
  den : ℤ
  deriving DecidableEq

def Rational.value (r : Rational) : ℚ := r.num / r.den

namespace Agent

def RATIONAL_RE : RegularExpression Char := rationalRe ['-']

/-- The characters that `trim` takes off: white space and line terminators. -/
def whiteSpace : List ℕ :=
  [0x9, 0xA, 0xB, 0xC, 0xD, 0x20, 0xA0, 0x1680, 0x2000, 0x2001, 0x2002, 0x2003, 0x2004, 0x2005, 0x2006,
    0x2007, 0x2008, 0x2009, 0x200A, 0x2028, 0x2029, 0x202F, 0x205F, 0x3000, 0xFEFF]

def isWhiteSpace (c : Char) : Bool := c.toNat ∈ whiteSpace

/-- `text.trim()` -/
def trim (text : Text) : Text :=
  ((text.dropWhile isWhiteSpace).reverse.dropWhile isWhiteSpace).reverse

def parseRational (value : Text) : Except ScoreError Rational :=
  let text := trim value
  if RATIONAL_RE.rmatch text then
    let (numStr, rest) := splitSlash text
    let num := bigInt numStr
    let den := bigInt (rest.getD ['1'])
    if den = 0 then .error .zeroDenominator
    else if den < 0 then .ok ⟨-num, -den⟩
    else .ok ⟨num, den⟩
  else .error (.literal text)

/-- The division truncates, which is the ceiling of a negative number; a positive one is rounded up. -/
def atomsFromScore (score : Text) : Except ScoreError ℤ := do
  let ⟨num, den⟩ ← parseRational score
  let scaled := num * scoreScale
  let q := scaled.tdiv den
  return if scaled.tmod den ≠ 0 ∧ scaled > 0 then q + 1 else q

def chainScoreAtoms (score : Text) : Direction → Except ScoreError ℤ
  | .minimize => atomsFromScore score
  | .maximize => do
      let ⟨num, den⟩ ← parseRational score
      atomsFromScore (decimalText (-num) ++ '/' :: decimalText den)

end Agent

/-! ### The portal -/

namespace Exact

def RATIONAL_PATTERN : RegularExpression Char := rationalRe ['+', '-']

/-- The loop of `gcd`. -/
def gcdLoop : ℕ → ℕ → ℕ
  | x, 0 => x
  | x, y + 1 => gcdLoop (y + 1) (x % (y + 1))
termination_by _ y => y
decreasing_by exact Nat.mod_lt x (Nat.succ_pos y)

def gcd (a b : ℤ) : ℤ :=
  let x := gcdLoop a.natAbs b.natAbs
  if x = 0 then 1 else x

def rational (num den : ℤ) : Except ScoreError Rational :=
  if den = 0 then .error .zeroDenominator else
  let (n, d) := if den < 0 then (-num, -den) else (num, den)
  let g := gcd n d
  .ok ⟨n.tdiv g, d.tdiv g⟩

def parseRational (value : Text) : Except ScoreError Rational :=
  if RATIONAL_PATTERN.rmatch value then
    let (rawNum, rawDen) := splitSlash value
    rational (bigInt rawNum) (bigInt (rawDen.getD ['1']))
  else .error (.literal value)

end Exact

end P42Prizes
