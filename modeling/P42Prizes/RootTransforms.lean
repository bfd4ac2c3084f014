import Mathlib.Algebra.Field.GeomSum
import Mathlib.Algebra.Polynomial.Eval.Degree
import Mathlib.RingTheory.RootsOfUnity.PrimitiveRoots
import Mathlib.Tactic.Ring

/-! # Transforms at the powers of a root of unity

The transform of `n` values takes the polynomial with these coefficients at the powers of a root of unity.
A transform of `2 ^ l` values that are in bit-reversed order is put together from blocks: a block of twice
the length comes from two blocks by sums and differences (`block_succ`, `block_succ_add`), and the only
block in the end is the transform (`block_bitReverse`).  At a primitive root the transform at the inverse
root gives the values back (`transform_inv`), so products of polynomials can be computed value by value
(`transform_coeff_mul`). -/

open Finset Polynomial

namespace RootTransform

/-! ### Bit reversal -/

/-- The lowest `l` bits of a number, in reversed order. -/
def bitReverse : ℕ → ℕ → ℕ
  | 0, _ => 0
  | l + 1, i => i % 2 * 2 ^ l + bitReverse l (i / 2)

theorem bitReverse_lt (l i : ℕ) : bitReverse l i < 2 ^ l := by
  induction l generalizing i with
  | zero => exact Nat.one_pos
  | succ l ih =>
      have hlow := ih (i / 2)
      have hbit : i % 2 = 0 ∨ i % 2 = 1 := Nat.mod_two_eq_zero_or_one i
      unfold bitReverse
      rcases hbit with h | h <;> rw [h, pow_succ] <;> omega

@[simp] theorem bitReverse_zero (l : ℕ) : bitReverse l 0 = 0 := by
  induction l with
  | zero => rfl
  | succ l ih => rw [bitReverse, Nat.zero_mod, Nat.zero_mul, Nat.zero_div, ih]

theorem bitReverse_two_mul (l i : ℕ) : bitReverse (l + 1) (2 * i) = bitReverse l i := by
  rw [bitReverse, Nat.mul_mod_right, Nat.zero_mul, Nat.zero_add, Nat.mul_div_cancel_left i Nat.two_pos]

theorem bitReverse_two_mul_add_one (l i : ℕ) : bitReverse (l + 1) (2 * i + 1) = 2 ^ l + bitReverse l i := by
  have hmod : (2 * i + 1) % 2 = 1 := by omega
  have hdiv : (2 * i + 1) / 2 = i := by omega
  rw [bitReverse, hmod, hdiv, Nat.one_mul]

/-- The highest bit becomes the lowest one. -/
theorem bitReverse_high {l x : ℕ} (b : ℕ) (hx : x < 2 ^ l) :
    bitReverse (l + 1) (b * 2 ^ l + x) = 2 * bitReverse l x + b % 2 := by
  induction l generalizing x with
  | zero =>
      obtain rfl : x = 0 := by omega
      simp [bitReverse]
  | succ l ih =>
      have htwo : b * 2 ^ (l + 1) = 2 * (b * 2 ^ l) := by ring
      have hmod : (b * 2 ^ (l + 1) + x) % 2 = x % 2 := by omega
      have hdiv : (b * 2 ^ (l + 1) + x) / 2 = b * 2 ^ l + x / 2 := by omega
      have hhalf : x / 2 < 2 ^ l := by omega
      rw [bitReverse, hmod, hdiv, ih hhalf, bitReverse, pow_succ]
      ring

theorem bitReverse_bitReverse {l i : ℕ} (hi : i < 2 ^ l) : bitReverse l (bitReverse l i) = i := by
  induction l generalizing i with
  | zero =>
      obtain rfl : i = 0 := by omega
      rfl
  | succ l ih =>
      have hhalf : i / 2 < 2 ^ l := by omega
      have hhigh : bitReverse (l + 1) i = i % 2 * 2 ^ l + bitReverse l (i / 2) := rfl
      rw [hhigh, bitReverse_high _ (bitReverse_lt l _), ih hhalf]
      omega

theorem bitReverse_inj {l i j : ℕ} (hi : i < 2 ^ l) (hj : j < 2 ^ l) (h : bitReverse l i = bitReverse l j) :
    i = j := by
  rw [← bitReverse_bitReverse hi, h, bitReverse_bitReverse hj]

/-! ### Transforms -/

variable {K : Type*}

section

variable [CommRing K]

/-- The polynomial with the coefficients `f`, up to `n` of them, at a power of `ω`. -/
def transform (ω : K) (n : ℕ) (f : ℕ → K) (k : ℕ) : K := ∑ i ∈ range n, ω ^ (i * k) * f i

variable {ω : K} {n : ℕ} {f : ℕ → K}

theorem transform_congr {g : ℕ → K} (h : ∀ i < n, f i = g i) (k : ℕ) :
    transform ω n f k = transform ω n g k :=
  sum_congr rfl fun i hi => by rw [h i (mem_range.mp hi)]

theorem transform_add (hω : ω ^ n = 1) (m k : ℕ) (f : ℕ → K) :
    transform ω m f (k + n) = transform ω m f k := by
  refine sum_congr rfl fun i _ => ?_
  have hperiod : ω ^ (i * (k + n)) = ω ^ (i * k) := by
    rw [Nat.mul_add, pow_add, Nat.mul_comm i n, pow_mul ω n i, hω, one_pow, mul_one]
  rw [hperiod]

theorem sum_range_two_mul (g : ℕ → K) (h : ℕ) :
    ∑ t ∈ range (2 * h), g t = ∑ u ∈ range h, g (2 * u) + ∑ u ∈ range h, g (2 * u + 1) := by
  induction h with
  | zero => simp
  | succ h ih =>
      have hsplit : 2 * (h + 1) = 2 * h + 1 + 1 := by ring
      rw [hsplit, sum_range_succ, sum_range_succ, ih, sum_range_succ, sum_range_succ]
      ring

/-- The even and the odd coefficients apart. -/
theorem transform_two_mul (ω : K) (h : ℕ) (f : ℕ → K) (k : ℕ) :
    transform ω (2 * h) f k =
      transform (ω ^ 2) h (fun u => f (2 * u)) k + ω ^ k * transform (ω ^ 2) h (fun u => f (2 * u + 1)) k := by
  unfold transform
  rw [sum_range_two_mul, mul_sum]
  refine congrArg₂ (· + ·) ?_ ?_
  · refine sum_congr rfl fun u _ => ?_
    rw [← pow_mul, Nat.mul_assoc]
  · refine sum_congr rfl fun u _ => ?_
    rw [← mul_assoc, ← pow_mul, ← pow_add]
    ring_nf

/-! ### Blocks -/

/-- The transform of a block of `2 ^ r` values that are in bit-reversed order. -/
def block (ω : K) (r : ℕ) (b : ℕ → K) (j k : ℕ) : K :=
  transform ω (2 ^ r) (fun t => b (j * 2 ^ r + bitReverse r t)) k

variable {r l : ℕ} {b : ℕ → K}

theorem block_zero (ω : K) (b : ℕ → K) (j k : ℕ) : block ω 0 b j k = b j := by
  simp [block, transform, bitReverse]

/-- A block from the two blocks in it. -/
theorem block_succ (ω : K) (r : ℕ) (b : ℕ → K) (j k : ℕ) :
    block ω (r + 1) b j k = block (ω ^ 2) r b (2 * j) k + ω ^ k * block (ω ^ 2) r b (2 * j + 1) k := by
  have hindex : j * 2 ^ (r + 1) = 2 * j * 2 ^ r := by ring
  have hindex' : ∀ u, j * 2 ^ (r + 1) + (2 ^ r + u) = (2 * j + 1) * 2 ^ r + u := fun u => by ring
  unfold block
  rw [pow_succ' 2 r, transform_two_mul]
  refine congrArg₂ (· + ·) ?_ (congrArg (ω ^ k * ·) ?_)
  · refine transform_congr (fun u _ => ?_) k
    rw [bitReverse_two_mul, ← pow_succ', hindex]
  · refine transform_congr (fun u _ => ?_) k
    rw [bitReverse_two_mul_add_one, ← pow_succ', hindex']

/-- In the upper half the sum becomes a difference. -/
theorem block_succ_add (hω : ω ^ 2 ^ r = -1) (b : ℕ → K) (j k : ℕ) :
    block ω (r + 1) b j (k + 2 ^ r) =
      block (ω ^ 2) r b (2 * j) k - ω ^ k * block (ω ^ 2) r b (2 * j + 1) k := by
  have hone : (ω ^ 2) ^ 2 ^ r = 1 := by
    rw [← pow_mul, Nat.mul_comm, pow_mul, hω, neg_one_sq]
  have hperiod : ∀ i, block (ω ^ 2) r b i (k + 2 ^ r) = block (ω ^ 2) r b i k := fun i =>
    transform_add hone (2 ^ r) k _
  rw [block_succ, hperiod, hperiod, pow_add, hω]
  ring

/-- The whole of it as one block. -/
theorem block_bitReverse (ω : K) (l : ℕ) (f : ℕ → K) (k : ℕ) :
    block ω l (fun i => f (bitReverse l i)) 0 k = transform ω (2 ^ l) f k := by
  refine transform_congr (fun t ht => ?_) k
  show f (bitReverse l (0 * 2 ^ l + bitReverse l t)) = f t
  rw [Nat.zero_mul, Nat.zero_add, bitReverse_bitReverse ht]

end

/-! ### Primitive roots -/

section

variable [Field K] {ω : K} {n : ℕ}

theorem pow_half_eq_neg_one {r : ℕ} (hω : IsPrimitiveRoot ω (2 ^ (r + 1))) : ω ^ 2 ^ r = -1 := by
  have hpos : 0 < 2 ^ (r + 1) := Nat.two_pow_pos _
  exact (hω.pow hpos (pow_succ 2 r)).eq_neg_one_of_two_right

/-- The transform at the inverse root gives the coefficients back. -/
theorem transform_inv (hω : IsPrimitiveRoot ω n) (f : ℕ → K) {j : ℕ} (hj : j < n) :
    transform ω⁻¹ n (transform ω n f) j = n * f j := by
  have hne : ω ≠ 0 := hω.ne_zero (Nat.ne_zero_of_lt hj)
  have hterm : ∀ i ∈ range n, ∑ k ∈ range n, ω⁻¹ ^ (k * j) * (ω ^ (i * k) * f i) =
      if i = j then n * f j else 0 := by
    intro i hi
    have hpow : ∀ k, ω⁻¹ ^ (k * j) * (ω ^ (i * k) * f i) = (ω ^ i * (ω ^ j)⁻¹) ^ k * f i := by
      intro k
      rw [mul_pow, ← pow_mul, ← inv_pow, inv_pow, ← pow_mul, inv_pow, Nat.mul_comm k j]
      ring
    simp only [hpow]
    rw [← sum_mul]
    split <;> rename_i hij
    · subst hij
      rw [mul_inv_cancel₀ (pow_ne_zero i hne)]
      simp
    · have hratio : ω ^ i * (ω ^ j)⁻¹ ≠ 1 := by
        rw [ne_eq, mul_inv_eq_one₀ (pow_ne_zero j hne)]
        exact fun heq => hij (hω.pow_inj (mem_range.mp hi) hj heq)
      have hone : (ω ^ i * (ω ^ j)⁻¹) ^ n = 1 := by
        rw [mul_pow, inv_pow, ← pow_mul, ← pow_mul, Nat.mul_comm i, Nat.mul_comm j, pow_mul, pow_mul,
          hω.pow_eq_one, one_pow, one_pow, inv_one, mul_one]
      rw [geom_sum_eq hratio, hone, sub_self, zero_div, zero_mul]
  unfold transform
  simp only [mul_sum]
  rw [sum_comm, sum_congr rfl hterm, sum_ite_eq' (range n) j, if_pos (mem_range.mpr hj)]

theorem transform_coeff {P : K[X]} (hP : P.natDegree < n) (ω : K) (k : ℕ) :
    transform ω n P.coeff k = P.eval (ω ^ k) := by
  rw [eval_eq_sum_range' hP]
  refine sum_congr rfl fun i _ => ?_
  rw [← pow_mul, Nat.mul_comm i k, mul_comm]

/-- The transform of a product, value by value. -/
theorem transform_coeff_mul {P Q : K[X]} (hP : P.natDegree < n) (hQ : Q.natDegree < n)
    (hmul : (P * Q).natDegree < n) (ω : K) (k : ℕ) :
    transform ω n P.coeff k * transform ω n Q.coeff k = transform ω n (P * Q).coeff k := by
  rw [transform_coeff hP, transform_coeff hQ, transform_coeff hmul, eval_mul]

end

end RootTransform
