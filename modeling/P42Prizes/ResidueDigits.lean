import Mathlib.Data.Nat.ModEq

/-! # Numbers from their residues

A number is found from its residues one modulus after the other: what is known of it, its remainder by the
product of the moduli so far, gets one more digit, and the digit is read off the next residue with the
inverse of the product (`next_digit`).  Once the product is larger than the number, it is the number. -/

namespace ResidueDigits

/-- The digit of the next modulus. -/
theorem next_digit {m p d : ℕ} (c : ℕ) (hp : 0 < p) (hd : m * d ≡ 1 [MOD p]) :
    c % m + m * ((c % p + p - c % m % p) % p * d % p) = c % (m * p) := by
  have hlt : c % m % p < p := Nat.mod_lt _ hp
  have hdelta : (c % p + p - c % m % p) % p ≡ m * (c / m) [MOD p] := by
    refine (Nat.mod_modEq _ _).trans (Nat.ModEq.add_right_cancel' (c % m) ?_)
    have hsum : c % p + p - c % m % p + c % m % p = c % p + p := by omega
    calc c % p + p - c % m % p + c % m
      _ ≡ c % p + p - c % m % p + c % m % p [MOD p] := (Nat.mod_modEq _ _).symm.add_left _
      _ ≡ c [MOD p] := by
          rw [hsum]
          exact (Nat.add_modEq_right.trans (Nat.mod_modEq _ _))
      _ ≡ m * (c / m) + c % m [MOD p] := by rw [Nat.div_add_mod]
  have hdigit : (c % p + p - c % m % p) % p * d ≡ c / m [MOD p] := by
    calc (c % p + p - c % m % p) % p * d
      _ ≡ m * (c / m) * d [MOD p] := hdelta.mul_right d
      _ ≡ m * d * (c / m) [MOD p] := by rw [Nat.mul_right_comm]
      _ ≡ 1 * (c / m) [MOD p] := hd.mul_right (c / m)
      _ ≡ c / m [MOD p] := by rw [Nat.one_mul]
  rw [Nat.mod_mul]
  exact congrArg (fun digit => c % m + m * digit) hdigit

end ResidueDigits
