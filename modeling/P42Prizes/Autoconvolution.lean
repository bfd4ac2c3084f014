import P42Prizes.SignedPacking

/-! # The autoconvolution problems C1 and C2

Both problems score a vector of naturals by its autoconvolution, C1 by the largest coefficient and C2 by
three norms.  The guests compute it with number-theoretic transforms modulo a few primes and put the
coefficients together from their residues; the verifiers square the vector as one large integer whose slots
hold the entries. -/

namespace P42Prizes.Autoconvolution

open Reverting Verifier SignedAutoconvolution

inductive VerifyError
  | oversized | malformedJson | wrongN | wrongShape | rawRange | zeroMass | packingChecksum | arithmeticBound
deriving DecidableEq, Repr

/-! ### Modular arithmetic -/

def mulMod (left right modulus : ℕ) : ℕ := left * right % modulus

/-- The loop of `mod_pow`: an exponent of 64 bits is zero after so many rounds. -/
def modPowLoop (modulus : ℕ) : ℕ → ℕ → ℕ → ℕ → ℕ
  | 0, _, _, result => result
  | rounds + 1, base, exponent, result =>
      if exponent = 0 then result
      else modPowLoop modulus rounds (mulMod base base modulus) (exponent / 2)
        (if exponent % 2 = 1 then mulMod result base modulus else result)

def modPow (base exponent modulus : ℕ) : ℕ := modPowLoop modulus 64 base exponent 1

/-! ### The transform -/

/-- `values.swap(i, j)` -/
def swap (values : List ℕ) (i j : ℕ) : List ℕ :=
  (values.set i (values.getD j 0)).set j (values.getD i 0)

/-- The index after `j` when the bits are read from the other end: the carry goes down. -/
def nextIndex (j bit : ℕ) : ℕ :=
  if h : j &&& bit ≠ 0 then nextIndex (j ^^^ bit) (bit / 2) else j ^^^ bit
termination_by bit
decreasing_by
  refine Nat.div_lt_self (Nat.pos_of_ne_zero ?_) (by decide)
  rintro rfl
  exact h (Nat.and_zero j)

/-- One index of the loop that brings the values into bit-reversed order. -/
def reorderStep (n : ℕ) (state : List ℕ × ℕ) (i : ℕ) : List ℕ × ℕ :=
  let j := nextIndex state.2 (n / 2)
  (if i < j then swap state.1 i j else state.1, j)

def reorder (values : List ℕ) : List ℕ :=
  ((List.range' 1 (values.length - 1)).foldl (reorderStep values.length) (values, 0)).1

/-- One index of the loop over a chunk, with the power of the root. -/
def butterfly (modulus root half : ℕ) (state : List ℕ × ℕ) (i : ℕ) : List ℕ × ℕ :=
  let (chunk, omega) := state
  let even := chunk.getD i 0
  let odd := mulMod (chunk.getD (i + half) 0) omega modulus
  ((chunk.set i ((even + odd) % modulus)).set (i + half) ((even + modulus - odd) % modulus),
    mulMod omega root modulus)

def butterflies (modulus root len : ℕ) (chunk : List ℕ) : List ℕ :=
  ((List.range (len / 2)).foldl (butterfly modulus root (len / 2)) (chunk, 1)).1

/-- `for chunk in values.chunks_exact_mut(len)`: what is left over stays as it is. -/
def mapChunks (len : ℕ) (f : List ℕ → List ℕ) (values : List ℕ) : List ℕ :=
  (List.range (values.length / len)).flatMap (fun j => f ((values.drop (j * len)).take len)) ++
    values.drop (values.length / len * len)

/-- The root of a stage. -/
def stageRoot (inverse : Bool) (modulus primitiveRoot len : ℕ) : ℕ :=
  let root := modPow primitiveRoot ((modulus - 1) / len) modulus
  if inverse then modPow root (modulus - 2) modulus else root

/-- The loop over the stages, from the chunks of length `len` on. -/
def stages (inverse : Bool) (modulus primitiveRoot n len : ℕ) (values : List ℕ) : List ℕ :=
  if 0 < len ∧ len ≤ n then
    let root := stageRoot inverse modulus primitiveRoot len
    stages inverse modulus primitiveRoot n (2 * len) (mapChunks len (butterflies modulus root len) values)
  else values
termination_by n + 1 - len

def ntt (inverse : Bool) (modulus primitiveRoot : ℕ) (values : List ℕ) : List ℕ :=
  let n := values.length
  let values := stages inverse modulus primitiveRoot n 2 (reorder values)
  if inverse then
    let inverseN := modPow (n % 2 ^ 32) (modulus - 2) modulus
    values.map fun value => mulMod value inverseN modulus
  else values

/-! ### The convolution -/

/-- The transform of the values, squared and transformed back: the coefficients modulo one prime. -/
def residues (values : List ℕ) (nttLen modulus primitiveRoot : ℕ) : List ℕ :=
  let transformed := values.map (· % modulus) ++ List.replicate (nttLen - values.length) 0
  let transformed := ntt false modulus primitiveRoot transformed
  ntt true modulus primitiveRoot (transformed.map fun value => mulMod value value modulus)

/-- One more digit of a coefficient.  `fit` is the type of the sums: it fails on what is too large. -/
def addDigit (fit : ℕ → Except VerifyError ℕ) (modulus product inverse coefficient residue : ℕ) :
    Except VerifyError ℕ := do
  let current := coefficient % modulus
  let delta := (residue + modulus - current) % modulus
  let digit := mulMod delta inverse modulus
  fit (coefficient + (← fit (product * digit)))

/-- One modulus, with its primitive root. -/
def convolveStep (fit : ℕ → Except VerifyError ℕ) (values : List ℕ) (nttLen : ℕ)
    (state : List ℕ × ℕ) (entry : ℕ × ℕ) : Except VerifyError (List ℕ × ℕ) := do
  let (coefficients, product) := state
  let (modulus, primitiveRoot) := entry
  let transformed := residues values nttLen modulus primitiveRoot
  let inverse := modPow (product % modulus) (modulus - 2) modulus
  let coefficients ← (coefficients.zip transformed).mapM fun pair =>
    addDigit fit modulus product inverse pair.1 pair.2
  let product ← fit (product * modulus)
  return (coefficients, product)

def convolveExact (fit : ℕ → Except VerifyError ℕ) (values : List ℕ) (nttLen : ℕ)
    (moduli : List (ℕ × ℕ)) : Except VerifyError (List ℕ) := do
  revertIf (nttLen < 2 * values.length - 1 ∨ 2 ^ Nat.log2 nttLen ≠ nttLen) .arithmeticBound
  let coefficients := List.replicate (2 * values.length - 1) 0
  let (coefficients, _) ← moduli.foldlM (convolveStep fit values nttLen) (coefficients, 1)
  return coefficients

/-- Sums of `BigUint` -/
def unbounded (x : ℕ) : Except VerifyError ℕ := .ok x

/-- Checked sums of a type of `bits` bits -/
def checked (bits : ℕ) (x : ℕ) : Except VerifyError ℕ := do
  revertIf (2 ^ bits ≤ x) .arithmeticBound
  return x

/-- The loop over the numbers, each of them as the parser for one number reads it. -/
def readValues (fit : ℕ → Except VerifyError ℕ) (maxValue : ℕ) :
    List (Option ℕ) → ℕ → Except VerifyError (List ℕ × ℕ)
  | [], total => .ok ([], total)
  | none :: _, _ => .error .rawRange
  | some value :: numbers, total => do
      revertIf (value > maxValue) .rawRange
      let total ← fit (total + value)
      let (values, total) ← readValues fit maxValue numbers total
      return (value :: values, total)

def scoreAtomScale : ℕ := 10 ^ 18
def minImprovementDenominator : ℕ := 10 ^ 12

/-! ### Packing -/

/-- The loop of `pack_nonnegative`, from an index on; the entries fit into their slots. -/
def fillSlots (slotBytes : ℕ) : ℕ → List ℕ → List ℕ → List ℕ
  | _, [], buffer => buffer
  | index, value :: values, buffer =>
      fillSlots slotBytes (index + 1) values <|
        if value ≠ 0 then
          setSlice buffer (index * slotBytes) ((index + 1) * slotBytes) (toBytes value slotBytes)
        else buffer

def packNonnegative (values : List ℕ) (slotBytes : ℕ) : ℕ :=
  fromBytes (fillSlots slotBytes 0 values (List.replicate (slotBytes * values.length) 0))

def unpackNonnegative (value slotBytes length : ℕ) : List ℕ :=
  let bytes := toBytes value (usedBytes value)
  let raw := bytes ++ List.replicate (slotBytes * length - bytes.length) 0
  (List.range length).map fun index =>
    fromBytes ((raw.take ((index + 1) * slotBytes)).drop (index * slotBytes))

/-- The width of a slot; the verifiers add a different number of spare bits. -/
def slotBits (n spareBits maxValue : ℕ) : ℕ :=
  let slotBitsNeeded := 2 * Nat.size maxValue + Nat.size n + spareBits
  max 96 ((slotBitsNeeded + 7) / 8 * 8)

/-- The part of `compute_score` that both verifiers share: the coefficients, their sum checked. -/
def coefficientsOf (n spareBits : ℕ) (values : List ℕ) : Except VerifierFailure (List ℕ) := do
  let total := values.sum
  let maxValue := values.max?.getD 0
  revertIf (maxValue = 0) ⟨"ZERO_MASS", "all values are zero"⟩
  let slotBytes := slotBits n spareBits maxValue / 8
  let length := 2 * n - 1
  let packed := packNonnegative values slotBytes
  let coefficients := unpackNonnegative (packed * packed) slotBytes length
  revertIf (coefficients.sum ≠ total * total) ⟨"PACKING_CHECKSUM", "autoconvolution checksum failed"⟩
  return coefficients

/-! ### C1: the largest coefficient -/

namespace C1Upper

def N : ℕ := 90000
def maxValue : ℕ := 10 ^ 36
def nttLen : ℕ := 2 ^ 18
def seedNumerator : ℕ := 15041971118343665197137380984232095998912388144895190342004000000000000
def seedDenominator : ℕ := 10008961702715850455872036862958802052289156042841554837278437518918769

/-- Each modulus with a primitive root. -/
def moduli : List (ℕ × ℕ) :=
  [(2130706433, 3), (2114977793, 3), (2113929217, 5), (2099249153, 3), (2095054849, 11), (2088763393, 5),
    (2077229057, 3), (2070937601, 6), (2047868929, 13)]

structure Evaluation where
  numerator : ℕ
  denominator : ℕ
  argmaxIndex : ℕ
  linf : ℕ
  l1 : ℕ
  chainScoreAtoms : ℕ
  qualifies : Bool
deriving DecidableEq, Repr

/-- `coefficients.iter().enumerate().max_by(..)`, where the earlier of two equal ones counts as larger -/
def maxEntry : List (ℕ × ℕ) → Option (ℕ × ℕ)
  | [] => none
  | first :: rest => some (rest.foldl (fun best entry => if best.1 < entry.1 then entry else best) first)

def qualifiesMinimize (numerator denominator : ℕ) : Bool :=
  let seedScaled := seedNumerator * denominator
  let scoreScaled := numerator * seedDenominator
  seedScaled > scoreScaled ∧
    (seedScaled - scoreScaled) * minImprovementDenominator ≥ seedDenominator * denominator

/-- `evaluate`, from the numbers of the document on. -/
def evaluate (numbers : List (Option ℕ)) : Except VerifyError Evaluation := do
  revertIf (numbers.length ≠ N) .wrongShape
  let (values, total) ← readValues unbounded maxValue numbers 0
  revertIf (total = 0) .zeroMass
  let coefficients ← convolveExact unbounded values nttLen moduli
  revertIf (coefficients.sum ≠ total * total) .packingChecksum
  match maxEntry coefficients.zipIdx with
  | none => .error .zeroMass
  | some (linf, argmaxIndex) =>
      let numerator := 2 * N * linf
      let denominator := total * total
      let gcd := Nat.gcd numerator denominator
      let numerator := numerator / gcd
      let denominator := denominator / gcd
      let atoms := (numerator * scoreAtomScale + denominator - 1) / denominator
      let qualifies := qualifiesMinimize numerator denominator
      let chainScoreAtoms ← checked 128 atoms
      return ⟨numerator, denominator, argmaxIndex, linf, total, chainScoreAtoms, qualifies⟩

structure Details where
  argmaxIndex : ℕ
  checkedCoefficients : ℕ
  linf : ℕ
  l1 : ℕ
  slotBits : ℕ
deriving DecidableEq, Repr

def seedBest : ℚ := seedNumerator / seedDenominator

def computeScore (values : List ℕ) : Except VerifierFailure (ℚ × Details) := do
  let total := values.sum
  let coefficients ← coefficientsOf N 4 values
  let linf := coefficients.max?.getD 0
  let argmax := coefficients.idxOf linf
  return ((2 * N * linf : ℕ) / (total * total : ℕ), ⟨argmax, 2 * N - 1, linf, total, slotBits N 4 (values.max?.getD 0)⟩)

/-- `improvement >= MIN_IMPROVEMENT` of `report_for_solution` -/
def valid (score : ℚ) : Prop := max 0 (seedBest - score) ≥ 1 / 1000000000000

end C1Upper

/-! ### C2: three norms -/

namespace C2Lower

def N : ℕ := 524288
def maxValue : ℕ := 2 ^ 40
def nttLen : ℕ := 2 ^ 20
def seedNumerator : ℕ := 140651861665566489683881393353250795846281833
def seedDenominator : ℕ := 146070932420211259869783468438333325818535926

/-- Each modulus with a primitive root. -/
def moduli : List (ℕ × ℕ) := [(2130706433, 3), (2114977793, 3), (2113929217, 5), (2099249153, 3)]

structure Evaluation where
  numerator : ℕ
  denominator : ℕ
  linf : ℕ
  s1 : ℕ
  s2 : ℕ
  chainScoreAtoms : ℤ
  qualifies : Bool
deriving DecidableEq, Repr

def qualifiesMaximize (numerator denominator : ℕ) : Bool :=
  let scoreScaled := numerator * seedDenominator
  let seedScaled := seedNumerator * denominator
  scoreScaled > seedScaled ∧
    (scoreScaled - seedScaled) * minImprovementDenominator ≥ seedDenominator * denominator

/-- The sum of the squares, and of the products of neighbours. -/
def sumSquares (coefficients : List ℕ) : ℕ := (coefficients.map fun value => value * value).sum

def sumAdjacent (coefficients : List ℕ) : ℕ := (List.zipWith (· * ·) coefficients coefficients.tail).sum

/-- `evaluate`, from the numbers of the document on. -/
def evaluate (numbers : List (Option ℕ)) : Except VerifyError Evaluation := do
  revertIf (numbers.length ≠ N) .wrongShape
  let (values, total) ← readValues (checked 128) maxValue numbers 0
  revertIf (total = 0) .zeroMass
  let coefficients ← convolveExact (checked 128) values nttLen moduli
  let sumCoefficients ← coefficients.foldlM (fun sum value => checked 128 (sum + value)) 0
  revertIf (sumCoefficients ≠ total * total) .packingChecksum
  match coefficients.max? with
  | none => .error .zeroMass
  | some linf =>
      let s2 := 2 * sumSquares coefficients + sumAdjacent coefficients
      let numerator := s2
      let denominator := 3 * sumCoefficients * linf
      let gcd := Nat.gcd numerator denominator
      let numerator := numerator / gcd
      let denominator := denominator / gcd
      let atomMagnitude ← checked 127 (numerator * scoreAtomScale / denominator)
      let qualifies := qualifiesMaximize numerator denominator
      return ⟨numerator, denominator, linf, sumCoefficients, s2, -atomMagnitude, qualifies⟩

structure Details where
  checkedCoefficients : ℕ
  linf : ℕ
  s1 : ℕ
  s2 : ℕ
  slotBits : ℕ
deriving DecidableEq, Repr

def seedBest : ℚ := seedNumerator / seedDenominator

def computeScore (values : List ℕ) : Except VerifierFailure (ℚ × Details) := do
  let coefficients ← coefficientsOf N 2 values
  let sumCoefficients := coefficients.sum
  let linf := coefficients.max?.getD 0
  let s2 := 2 * sumSquares coefficients + sumAdjacent coefficients
  return ((s2 : ℕ) / (3 * sumCoefficients * linf : ℕ), ⟨2 * N - 1, linf, sumCoefficients, s2, slotBits N 2 (values.max?.getD 0)⟩)

/-- `improvement >= MIN_IMPROVEMENT` of `report_for_solution` -/
def valid (score : ℚ) : Prop := max 0 (score - seedBest) ≥ 1 / 1000000000000

end C2Lower

end P42Prizes.Autoconvolution
