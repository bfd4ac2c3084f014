import Mathlib.Algebra.Polynomial.Degree.Lemmas
import Mathlib.Algebra.Polynomial.Eval.Degree
import Mathlib.Data.List.GetD
import Mathlib.Tactic.Ring

/-! # Signed digits and convolutions

A list of integers is packed into its value in a base.  Where its entries are small against half the
base, they are found again from the unsigned digits of the value: a digit of the upper half stands for a
negative entry, which has borrowed one unit from the next digit (`balance_digits`).  The square of a
packed list is the packed list of its autoconvolution (`horner_autoconvolution`). -/

namespace SignedDigits

open Finset Polynomial

variable {B : ℤ}

/-- The value of a list in base `B`, with the lowest entry first. -/
def horner (B : ℤ) : List ℤ → ℤ
  | [] => 0
  | c :: cs => c + B * horner B cs

/-- The `n` lowest digits of a number. -/
def digits (B : ℤ) : ℕ → ℤ → List ℤ
  | 0, _ => []
  | n + 1, z => z % B :: digits B n (z / B)

/-- Signed entries from unsigned digits, with the borrow that is left at the end. -/
def balance (B : ℤ) : ℤ → List ℤ → List ℤ × ℤ
  | carry, [] => ([], carry)
  | carry, digit :: ds =>
      let balanced := if digit < B / 2 then digit else digit - B
      let rest := balance B (if balanced < 0 then -1 else 0) ds
      ((balanced - carry) :: rest.1, rest.2)

/-! ### Reading signed entries -/

/-- The lowest entry is balanced, and what is above it has lost one unit exactly when the entry with
its own borrow is negative. -/
theorem balance_step {c h carry : ℤ} (hB : B = 2 * (B / 2)) (hcarry : carry = 0 ∨ carry = -1)
    (hlow : -(B / 2) < c) (hhigh : c < B / 2) :
    (if (c + B * h + carry) % B < B / 2 then (c + B * h + carry) % B else (c + B * h + carry) % B - B) =
        c + carry ∧
      (c + B * h + carry) / B = h + if c + carry < 0 then -1 else 0 := by
  have hpos : 0 < B := by omega
  have hsplit : c + B * h + carry = c + carry + B * h := by ring
  rw [hsplit, Int.add_mul_emod_self_left, Int.add_mul_ediv_left _ _ hpos.ne']
  by_cases hneg : c + carry < 0
  · have hmod : (c + carry) % B = c + carry + B := by
      rw [← Int.add_emod_right]
      exact Int.emod_eq_of_lt (by omega) (by omega)
    have hdiv : (c + carry) / B = -1 := by
      rw [Int.ediv_eq_iff_of_pos hpos]
      omega
    rw [hmod, hdiv, if_pos hneg, if_neg (by omega)]
    exact ⟨by ring, by ring⟩
  · have hdiv : (c + carry) / B = 0 := Int.ediv_eq_zero_of_lt (by omega) (by omega)
    rw [Int.emod_eq_of_lt (by omega) (by omega), hdiv, if_neg hneg, if_pos (by omega)]
    exact ⟨rfl, by ring⟩

theorem balance_digits (hB : B = 2 * (B / 2)) (hpos : 0 < B) {cs : List ℤ}
    (hcs : ∀ c ∈ cs, -(B / 2) < c ∧ c < B / 2) {carry : ℤ} (hcarry : carry = 0 ∨ carry = -1) :
    balance B carry (digits B cs.length (horner B cs + carry)) =
        (cs, (horner B cs + carry) / B ^ cs.length) ∧
      ((horner B cs + carry) / B ^ cs.length = 0 ∨ (horner B cs + carry) / B ^ cs.length = -1) := by
  induction cs generalizing carry with
  | nil =>
      simp only [horner, zero_add, List.length_nil, pow_zero, Int.ediv_one]
      exact ⟨rfl, hcarry⟩
  | cons c cs ih =>
      obtain ⟨hlow, hhigh⟩ := hcs c List.mem_cons_self
      obtain ⟨hdigit, hrest⟩ := balance_step (h := horner B cs) hB hcarry hlow hhigh
      have hnext : (if c + carry < 0 then (-1 : ℤ) else 0) = 0 ∨
          (if c + carry < 0 then (-1 : ℤ) else 0) = -1 := by
        split
        · exact .inr rfl
        · exact .inl rfl
      obtain ⟨hbalance, hlast⟩ := ih (fun d hd => hcs d (List.mem_cons_of_mem _ hd)) hnext
      have hdiv : (c + B * horner B cs + carry) / B ^ (cs.length + 1) =
          (horner B cs + if c + carry < 0 then -1 else 0) / B ^ cs.length := by
        rw [pow_succ', ← Int.ediv_ediv_of_nonneg hpos.le, hrest]
      rw [horner, List.length_cons, hdiv]
      refine ⟨?_, hlast⟩
      rw [digits, balance, hdigit, hrest, hbalance]
      exact Prod.ext (congrArg (· :: cs) (add_sub_cancel_right c carry)) rfl

/-! ### Packed lists -/

theorem horner_append (xs ys : List ℤ) :
    horner B (xs ++ ys) = horner B xs + B ^ xs.length * horner B ys := by
  induction xs with
  | nil => simp [horner]
  | cons x xs ih =>
      rw [List.cons_append, horner, ih, horner, List.length_cons, pow_succ']
      ring

theorem horner_map_sub {α : Type*} (f g : α → ℤ) (xs : List α) :
    horner B (xs.map f) - horner B (xs.map g) = horner B (xs.map fun x => f x - g x) := by
  induction xs with
  | nil => rfl
  | cons x xs ih =>
      simp only [List.map_cons, horner]
      rw [← ih]
      ring

theorem horner_range (f : ℕ → ℤ) (n : ℕ) :
    horner B ((List.range n).map f) = ∑ i ∈ range n, f i * B ^ i := by
  induction n with
  | zero => rfl
  | succ n ih =>
      rw [List.range_succ, List.map_append, horner_append, ih, List.length_map, List.length_range,
        sum_range_succ]
      simp only [List.map_cons, List.map_nil, horner, mul_zero, add_zero]
      ring

/-! ### Convolutions -/

/-- The polynomial with the entries of a list as coefficients. -/
noncomputable def poly : List ℤ → ℤ[X]
  | [] => 0
  | c :: cs => C c + X * poly cs

theorem coeff_poly (v : List ℤ) (k : ℕ) : (poly v).coeff k = v.getD k 0 := by
  induction v generalizing k with
  | nil => simp [poly]
  | cons c v ih =>
      cases k with
      | zero => simp [poly]
      | succ k => rw [poly, coeff_add, coeff_C_succ, coeff_X_mul, ih, zero_add, List.getD_cons_succ]

theorem eval_poly (v : List ℤ) : (poly v).eval B = horner B v := by
  induction v with
  | nil => simp [poly, horner]
  | cons c v ih => simp [poly, horner, ih]

theorem natDegree_poly_le (v : List ℤ) : (poly v).natDegree ≤ v.length - 1 := by
  refine natDegree_le_iff_coeff_eq_zero.mpr fun k hk => ?_
  rw [coeff_poly, List.getD_eq_default _ _ (by omega)]

/-- The sum of `v i * v (k - i)`. -/
def autoconvolution (v : List ℤ) (k : ℕ) : ℤ :=
  ∑ i ∈ range (k + 1), v.getD i 0 * v.getD (k - i) 0

theorem coeff_poly_mul_self (v : List ℤ) (k : ℕ) :
    (poly v * poly v).coeff k = autoconvolution v k := by
  rw [coeff_mul, Nat.sum_antidiagonal_eq_sum_range_succ_mk]
  simp only [coeff_poly, autoconvolution, Nat.succ_eq_add_one]

theorem horner_autoconvolution {v : List ℤ} (hv : v ≠ []) :
    horner B ((List.range (2 * v.length - 1)).map (autoconvolution v)) = horner B v * horner B v := by
  have hlen : 0 < v.length := List.length_pos_of_ne_nil hv
  have hdegree : (poly v * poly v).natDegree < 2 * v.length - 1 := by
    have hle := natDegree_mul_le (p := poly v) (q := poly v)
    have hv' := natDegree_poly_le v
    omega
  rw [horner_range, ← eval_poly, ← eval_mul, eval_eq_sum_range' hdegree]
  simp only [coeff_poly_mul_self]

/-- No entry of the autoconvolution has more products than the list has entries. -/
theorem abs_autoconvolution_le {v : List ℤ} {m : ℤ} (hm : ∀ x ∈ v, |x| ≤ m) (k : ℕ) :
    |autoconvolution v k| ≤ v.length * (m * m) := by
  have hentry : ∀ i < v.length, |v.getD i 0| ≤ m := by
    intro i hi
    rw [List.getD_eq_getElem _ _ hi]
    exact hm _ (List.getElem_mem hi)
  have hterm : ∀ i, |v.getD i 0 * v.getD (k - i) 0| ≤ if i < v.length then m * m else 0 := by
    intro i
    split
    · next hi =>
        have hnonneg : 0 ≤ m := (abs_nonneg _).trans (hentry i hi)
        by_cases hk : k - i < v.length
        · rw [abs_mul]
          exact mul_le_mul (hentry i hi) (hentry _ hk) (abs_nonneg _) hnonneg
        · rw [List.getD_eq_default _ _ (not_lt.mp hk), mul_zero, abs_zero]
          exact mul_nonneg hnonneg hnonneg
    · next hi => rw [List.getD_eq_default _ _ (not_lt.mp hi), zero_mul, abs_zero]
  have hcard : (range (k + 1)).filter (· < v.length) ⊆ range v.length := by
    intro i hi
    exact mem_range.mpr (mem_filter.mp hi).2
  calc |autoconvolution v k|
    _ ≤ ∑ i ∈ range (k + 1), |v.getD i 0 * v.getD (k - i) 0| := abs_sum_le_sum_abs ..
    _ ≤ ∑ i ∈ range (k + 1), if i < v.length then m * m else 0 := sum_le_sum fun i _ => hterm i
    _ = ((range (k + 1)).filter (· < v.length)).card * (m * m) := by
        rw [← sum_filter, sum_const, nsmul_eq_mul]
    _ ≤ v.length * (m * m) := by
        have hle : ((range (k + 1)).filter (· < v.length)).card ≤ v.length := by
          simpa using card_le_card hcard
        exact mul_le_mul_of_nonneg_right (by exact_mod_cast hle) (mul_self_nonneg m)

end SignedDigits
