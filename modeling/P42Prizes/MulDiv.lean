import P42Prizes.Evm

/-! # Full-precision `mulDiv`

`mulDiv` is the routine of `P42Math`: a 512-bit product from two `mulmod`s, an exact division
after subtracting the remainder, and the inverse of the odd part of the denominator modulo
`2 ^ 256` by Newton–Raphson.  `mulDiv_eq` proves that it is the floor of the exact quotient
whenever that fits a word, and `mulDivWord_error` that it reverts otherwise.

The parts of the routine are treated one by one: the high word of the product
(`highWord_toNat`), the power of two in the denominator (`and_neg_toNat`), joining the words
after the power of two is divided out (`joinWords_toNat`), and the inverse: if
`e = 1 - d * i` then one iteration squares `e`, so six of them turn a multiple of `2 ^ 4` into
a multiple of `2 ^ 256` (`inverse_spec`). -/

namespace P42Prizes

open Reverting

abbrev Word := BitVec 256

def mulmod (x y m : Word) : Word :=
  if m = 0 then 0 else BitVec.ofNat 256 (x.toNat * y.toNat % m.toNat)

def ltWord (a b : Word) : Word := if a < b then 1 else 0
def gtWord (a b : Word) : Word := if b < a then 1 else 0

/-- `prod1` of the source: the high word of the 512-bit product. -/
def highWord (x y : Word) : Word :=
  let mm := mulmod x y (~~~0)
  let prod0 := x * y
  mm - prod0 - ltWord mm prod0

/-- `prod0 |= prod1 * twos`, after `twos` has been divided out of `prod0`. -/
def joinWords (prod1 prod0 twos : Word) : Word :=
  let prod0 := prod0 / twos
  let twos := (0 - twos) / twos + 1
  prod0 ||| prod1 * twos

/-- The inverse of an odd word. -/
def inverse (denominator : Word) : Word :=
  let inv := (3 * denominator) ^^^ 2
  let inv := inv * (2 - denominator * inv)
  let inv := inv * (2 - denominator * inv)
  let inv := inv * (2 - denominator * inv)
  let inv := inv * (2 - denominator * inv)
  let inv := inv * (2 - denominator * inv)
  inv * (2 - denominator * inv)

def mulDivWord (x y denominator : Word) : Outcome Word :=
  let prod0 := x * y
  let prod1 := highWord x y
  if prod1 = 0 then
    if denominator = 0 then .error (fail .panic) else .ok (prod0 / denominator)
  else if denominator ≤ prod1 then .error (fail .mulDivOverflow)
  else
    let remainder := mulmod x y denominator
    let prod1 := prod1 - gtWord remainder prod0
    let prod0 := prod0 - remainder
    let twos := denominator &&& (0 - denominator)
    let denominator := denominator / twos
    .ok (joinWords prod1 prod0 twos * inverse denominator)

/-- `P42Math.mulDiv` on `uint256` values. -/
def mulDiv (x y denominator : ℕ) : Outcome ℕ :=
  BitVec.toNat <$> mulDivWord (BitVec.ofNat 256 x) (BitVec.ofNat 256 y) (BitVec.ofNat 256 denominator)

/-! ### The 512-bit product -/

theorem word_zero : (0 : Word).toNat = 0 := rfl
theorem word_one : (1 : Word).toNat = 1 := rfl

theorem mulmod_toNat (x y m : Word) (hm : m ≠ 0) :
    (mulmod x y m).toNat = x.toNat * y.toNat % m.toNat := by
  have hpos : 0 < m.toNat := Nat.pos_of_ne_zero (fun h => hm (BitVec.eq_of_toNat_eq h))
  have hlt := Nat.mod_lt (x.toNat * y.toNat) hpos
  rw [mulmod, if_neg hm, BitVec.toNat_ofNat, Nat.mod_eq_of_lt (lt_trans hlt m.isLt)]

theorem mul_lt_sq (x y : Word) : x.toNat * y.toNat ≤ (2 ^ 256 - 1) * (2 ^ 256 - 1) :=
  Nat.mul_le_mul (by have := x.isLt; omega) (by have := y.isLt; omega)

/-- Modulo `2 ^ 256 - 1` a product is the sum of its two words, reduced at most once. -/
theorem mod_pred_word {P : ℕ} (hP : P ≤ (2 ^ 256 - 1) * (2 ^ 256 - 1)) :
    P % (2 ^ 256 - 1) = P / 2 ^ 256 + P % 2 ^ 256 ∧ P / 2 ^ 256 + P % 2 ^ 256 < 2 ^ 256 - 1 ∨
      P % (2 ^ 256 - 1) + (2 ^ 256 - 1) = P / 2 ^ 256 + P % 2 ^ 256 := by
  have hhi : P / 2 ^ 256 ≤ 2 ^ 256 - 2 := by omega
  have hlo : P % 2 ^ 256 < 2 ^ 256 := Nat.mod_lt _ (by norm_num)
  have hsplit : P = P / 2 ^ 256 + P % 2 ^ 256 + (2 ^ 256 - 1) * (P / 2 ^ 256) := by omega
  have hmod : P % (2 ^ 256 - 1) = (P / 2 ^ 256 + P % 2 ^ 256) % (2 ^ 256 - 1) := by
    conv_lhs => rw [hsplit]
    exact Nat.add_mul_mod_self_left _ _ _
  generalize P / 2 ^ 256 = hi at *
  generalize P % 2 ^ 256 = lo at *
  rw [hmod]
  by_cases h : hi + lo < 2 ^ 256 - 1
  · exact Or.inl ⟨Nat.mod_eq_of_lt h, h⟩
  · right
    rw [Nat.mod_eq_sub_mod (by omega), Nat.mod_eq_of_lt (by omega)]
    omega

theorem highWord_toNat (x y : Word) : (highWord x y).toNat = x.toNat * y.toNat / 2 ^ 256 := by
  have hP := mul_lt_sq x y
  have hmm : (mulmod x y (~~~0)).toNat = x.toNat * y.toNat % (2 ^ 256 - 1) :=
    mulmod_toNat x y _ (by decide)
  have hlo : (x * y).toNat = x.toNat * y.toNat % 2 ^ 256 := BitVec.toNat_mul x y
  have hlt : mulmod x y (~~~0) < x * y ↔
      x.toNat * y.toNat % (2 ^ 256 - 1) < x.toNat * y.toNat % 2 ^ 256 := by
    rw [BitVec.lt_def, hmm, hlo]
  have hhi : x.toNat * y.toNat / 2 ^ 256 ≤ 2 ^ 256 - 2 := by omega
  have hlow : x.toNat * y.toNat % 2 ^ 256 < 2 ^ 256 := Nat.mod_lt _ (by norm_num)
  have hpred := mod_pred_word hP
  simp only [highWord, ltWord, hlt]
  rw [BitVec.toNat_sub, BitVec.toNat_sub, hmm, hlo]
  generalize x.toNat * y.toNat % (2 ^ 256 - 1) = mm at *
  generalize x.toNat * y.toNat % 2 ^ 256 = lo at *
  generalize x.toNat * y.toNat / 2 ^ 256 = hi at *
  by_cases h : mm < lo
  · rw [if_pos h, word_one]
    omega
  · rw [if_neg h, word_zero]
    omega

/-! ### The power of two in the denominator -/

/-- An odd number and its negative have only the lowest bit in common. -/
theorem odd_and_neg {m j : ℕ} (hj : m < 2 ^ j) (hodd : m % 2 = 1) : m &&& (2 ^ j - m) = 1 := by
  obtain ⟨t, rfl⟩ : ∃ t, m = 2 * t + 1 := ⟨m / 2, by omega⟩
  apply Nat.eq_of_testBit_eq
  intro i
  rw [Nat.testBit_and, Nat.testBit_two_pow_sub_succ (by omega : 2 * t < 2 ^ j)]
  cases i with
  | zero =>
      have hj0 : 0 < j := Nat.pos_of_ne_zero (fun h => by subst h; omega)
      simp [Nat.testBit_zero, hj0]
  | succ i =>
      have h1 : (2 * t + 1) / 2 = t := by omega
      have h2 : 2 * t / 2 = t := by omega
      simp only [Nat.testBit_succ, h1, h2, Nat.zero_testBit, Nat.reduceDiv]
      cases t.testBit i <;> simp

/-- The lowest set bit of a word, with the exponent of two it stands for. -/
theorem and_neg_toNat (d : Word) (hd : d ≠ 0) :
    ∃ k m, k < 256 ∧ m % 2 = 1 ∧ d.toNat = 2 ^ k * m ∧ (d &&& (0 - d)).toNat = 2 ^ k := by
  have hpos : d.toNat ≠ 0 := fun h => hd (BitVec.eq_of_toNat_eq h)
  obtain ⟨k, m, hm, hdm⟩ := Nat.exists_eq_two_pow_mul_odd hpos
  have hlt := d.isLt
  have hmpos : 0 < m := hm.pos
  have hk : k < 256 := by
    by_contra hk
    have := Nat.pow_le_pow_right (by norm_num : 0 < 2) (Nat.le_of_not_lt hk)
    have := Nat.le_mul_of_pos_right (2 ^ k) hmpos
    omega
  have hN : (2 : ℕ) ^ 256 = 2 ^ k * 2 ^ (256 - k) := by rw [← Nat.pow_add]; congr 1; omega
  have hmlt : m < 2 ^ (256 - k) := by
    rw [hdm, hN] at hlt
    exact Nat.lt_of_mul_lt_mul_left hlt
  refine ⟨k, m, hk, Nat.odd_iff.mp hm, hdm, ?_⟩
  have hneg : (0 - d).toNat = 2 ^ k * (2 ^ (256 - k) - m) := by
    rw [BitVec.toNat_sub, word_zero, Nat.mul_sub, ← hN, ← hdm]
    omega
  rw [BitVec.toNat_and, hneg, hdm, Nat.mul_comm, Nat.mul_comm (2 ^ k), ← Nat.shiftLeft_eq,
    ← Nat.shiftLeft_eq, ← Nat.shiftLeft_and_distrib, odd_and_neg hmlt (Nat.odd_iff.mp hm),
    Nat.shiftLeft_eq, one_mul]

theorem joinWords_toNat (hi lo twos : Word) {k : ℕ} (hk : k < 256) (ht : twos.toNat = 2 ^ k) :
    (joinWords hi lo twos).toNat = (hi.toNat * 2 ^ 256 + lo.toNat) / 2 ^ k % 2 ^ 256 := by
  have hN : (2 : ℕ) ^ 256 = 2 ^ (256 - k) * 2 ^ k := by rw [← Nat.pow_add]; congr 1; omega
  have hkpos : 0 < 2 ^ k := by positivity
  have hklt : 2 ^ k < 2 ^ 256 := Nat.pow_lt_pow_right (by norm_num) hk
  have hneg : ((0 - twos) / twos + 1).toNat = 2 ^ (256 - k) % 2 ^ 256 := by
    have h1 : (0 - twos).toNat = (2 ^ (256 - k) - 1) * 2 ^ k := by
      rw [BitVec.toNat_sub, word_zero, ht, Nat.sub_mul, one_mul, ← hN]
      omega
    rw [BitVec.toNat_add, BitVec.toNat_udiv, h1, ht, Nat.mul_div_cancel _ hkpos]
    have h2 : 0 < 2 ^ (256 - k) := by positivity
    rw [word_one, Nat.sub_add_cancel h2]
  have hprod : (hi * ((0 - twos) / twos + 1)).toNat = hi.toNat % 2 ^ k * 2 ^ (256 - k) := by
    rw [BitVec.toNat_mul, hneg, Nat.mul_mod_mod, hN, Nat.mul_comm (2 ^ (256 - k)) (2 ^ k),
      Nat.mul_mod_mul_right]
  have hlow : lo.toNat / 2 ^ k < 2 ^ (256 - k) := by
    rw [Nat.div_lt_iff_lt_mul hkpos, ← hN]
    exact lo.isLt
  have hdiv : (hi.toNat * 2 ^ 256 + lo.toNat) / 2 ^ k =
      hi.toNat * 2 ^ (256 - k) + lo.toNat / 2 ^ k := by
    rw [hN, ← Nat.mul_assoc, Nat.add_comm, Nat.add_mul_div_right _ _ hkpos, Nat.add_comm]
  have hmod : (hi.toNat * 2 ^ (256 - k) + lo.toNat / 2 ^ k) % 2 ^ 256 =
      hi.toNat % 2 ^ k * 2 ^ (256 - k) + lo.toNat / 2 ^ k := by
    have hsmall : hi.toNat % 2 ^ k * 2 ^ (256 - k) + lo.toNat / 2 ^ k < 2 ^ 256 := by
      have h1 : hi.toNat % 2 ^ k + 1 ≤ 2 ^ k := Nat.mod_lt _ hkpos
      have h2 := Nat.mul_le_mul_right (2 ^ (256 - k)) h1
      rw [Nat.add_mul, one_mul, Nat.mul_comm (2 ^ k), ← hN] at h2
      omega
    have hsplit : hi.toNat * 2 ^ (256 - k) =
        hi.toNat / 2 ^ k * 2 ^ 256 + hi.toNat % 2 ^ k * 2 ^ (256 - k) := by
      conv_lhs => rw [← Nat.div_add_mod hi.toNat (2 ^ k)]
      rw [hN]
      ring
    rw [hsplit, Nat.add_assoc, Nat.add_comm, Nat.add_mul_mod_self_right, Nat.mod_eq_of_lt hsmall]
  rw [hdiv, hmod]
  simp only [joinWords]
  rw [BitVec.toNat_or, BitVec.toNat_udiv, ht, hprod, Nat.or_comm, ← Nat.shiftLeft_eq,
    ← Nat.shiftLeft_add_eq_or_of_lt hlow]

/-! ### The inverse of the odd part -/

/-- One Newton–Raphson iteration squares the error. -/
theorem newton_step (d i : Word) : 1 - d * (i * (2 - d * i)) = (1 - d * i) ^ 2 := by ring

theorem inverse_start (d : Word) (hd : d.toNat % 2 = 1) :
    ∃ c : Word, 1 - d * ((3 * d) ^^^ 2) = 2 ^ 4 * c := by
  have hall : ∀ v : BitVec 4, v.toNat % 2 = 1 → v * ((3 * v) ^^^ 2) = 1 := by decide
  have hv := hall (d.setWidth 4) (by simp only [BitVec.toNat_setWidth]; omega)
  have hw : (d * ((3 * d) ^^^ 2)).setWidth 4 = 1 := by
    rw [BitVec.setWidth_mul _ _ (by decide), BitVec.setWidth_xor,
      BitVec.setWidth_mul _ _ (by decide)]
    exact hv
  have hone : (d * ((3 * d) ^^^ 2)).toNat % 2 ^ 4 = 1 := by
    rw [← BitVec.toNat_setWidth, hw]
    rfl
  have hmod : (1 - d * ((3 * d) ^^^ 2)).toNat % 2 ^ 4 = 0 := by
    rw [BitVec.toNat_sub, word_one]
    have := (d * ((3 * d) ^^^ 2)).isLt
    omega
  generalize 1 - d * ((3 * d) ^^^ 2) = e at hmod
  refine ⟨BitVec.ofNat 256 (e.toNat / 2 ^ 4), ?_⟩
  apply BitVec.eq_of_toNat_eq
  have h16 : ((2 : Word) ^ 4).toNat = 2 ^ 4 := by decide
  rw [BitVec.toNat_mul, BitVec.toNat_ofNat, h16]
  have := e.isLt
  omega

theorem inverse_spec (d : Word) (hd : d.toNat % 2 = 1) : d * inverse d = 1 := by
  obtain ⟨c, hc⟩ := inverse_start d hd
  have hzero : 1 - d * inverse d = 0 := by
    simp only [inverse, newton_step, hc]
    have h256 : (2 : Word) ^ 256 = 0 := by decide +kernel
    calc ((((((2 ^ 4 * c) ^ 2) ^ 2) ^ 2) ^ 2) ^ 2) ^ 2 = (2 : Word) ^ 256 * c ^ 64 := by ring
      _ = 0 := by rw [h256, zero_mul]
  exact (sub_eq_zero.mp hzero).symm

/-! ### The specification -/

theorem mulDivWord_eq (x y d : Word) (hd : d ≠ 0)
    (hfit : x.toNat * y.toNat / d.toNat < 2 ^ 256) :
    ∃ r, mulDivWord x y d = .ok r ∧ r.toNat = x.toNat * y.toNat / d.toNat := by
  have hdpos : 0 < d.toNat := Nat.pos_of_ne_zero (fun h => hd (BitVec.eq_of_toNat_eq h))
  have hhi := highWord_toNat x y
  have hlo : (x * y).toNat = x.toNat * y.toNat % 2 ^ 256 := BitVec.toNat_mul x y
  unfold mulDivWord
  by_cases h0 : highWord x y = 0
  · rw [if_pos h0, if_neg hd]
    refine ⟨_, rfl, ?_⟩
    have hz : x.toNat * y.toNat / 2 ^ 256 = 0 := by rw [← hhi, h0]; rfl
    rw [BitVec.toNat_udiv, hlo, Nat.mod_eq_of_lt (by omega)]
  · have hgt : x.toNat * y.toNat / 2 ^ 256 < d.toNat := by
      rw [Nat.div_lt_iff_lt_mul hdpos] at hfit
      rw [Nat.div_lt_iff_lt_mul (by norm_num), Nat.mul_comm (d.toNat)]
      exact hfit
    have hle : ¬ d ≤ highWord x y := by rw [BitVec.le_def, hhi]; omega
    rw [if_neg h0, if_neg hle]
    refine ⟨_, rfl, ?_⟩
    obtain ⟨k, m, hk, hm, hdm, htwos⟩ := and_neg_toNat d hd
    have hrem := mulmod_toNat x y d hd
    have hgtw : (x * y < mulmod x y d) ↔
        x.toNat * y.toNat % 2 ^ 256 < x.toNat * y.toNat % d.toNat := by
      rw [BitVec.lt_def, hlo, hrem]
    have hremlt := Nat.mod_lt (x.toNat * y.toNat) hdpos
    have hdlt := d.isLt
    -- the two words of the product less the remainder
    have hwords : (highWord x y - gtWord (mulmod x y d) (x * y)).toNat * 2 ^ 256 +
        (x * y - mulmod x y d).toNat = d.toNat * (x.toNat * y.toNat / d.toNat) := by
      have hdm' := Nat.div_add_mod (x.toNat * y.toNat) d.toNat
      rw [BitVec.toNat_sub, BitVec.toNat_sub, hhi, hlo, hrem]
      simp only [gtWord, hgtw]
      generalize d.toNat * (x.toNat * y.toNat / d.toNat) = Q at *
      generalize x.toNat * y.toNat % d.toNat = R at *
      generalize x.toNat * y.toNat = P at *
      split
      · rw [word_one]
        omega
      · rw [word_zero]
        omega
    have hkpos : 0 < 2 ^ k := by positivity
    have hodd : (d / (d &&& (0 - d))).toNat = m := by
      rw [BitVec.toNat_udiv, htwos, hdm, Nat.mul_div_cancel_left _ hkpos]
    have hinv := inverse_spec (d / (d &&& (0 - d))) (by rw [hodd]; exact hm)
    have hjoin := joinWords_toNat (highWord x y - gtWord (mulmod x y d) (x * y))
      (x * y - mulmod x y d) (d &&& (0 - d)) hk htwos
    rw [hwords, hdm, Nat.mul_assoc, Nat.mul_div_cancel_left _ hkpos, ← hdm] at hjoin
    have hword : joinWords (highWord x y - gtWord (mulmod x y d) (x * y)) (x * y - mulmod x y d)
        (d &&& (0 - d)) = d / (d &&& (0 - d)) * BitVec.ofNat 256 (x.toNat * y.toNat / d.toNat) := by
      apply BitVec.eq_of_toNat_eq
      rw [hjoin, BitVec.toNat_mul, hodd, BitVec.toNat_ofNat, Nat.mul_mod_mod]
    calc _ = (BitVec.ofNat 256 (x.toNat * y.toNat / d.toNat)).toNat := by
          rw [hword, mul_right_comm, hinv, one_mul]
      _ = x.toNat * y.toNat / d.toNat := by rw [BitVec.toNat_ofNat, Nat.mod_eq_of_lt hfit]

theorem mulDivWord_error (x y d : Word)
    (h : d = 0 ∨ 2 ^ 256 ≤ x.toNat * y.toNat / d.toNat) : ∃ e, mulDivWord x y d = .error e := by
  have hhi := highWord_toNat x y
  unfold mulDivWord
  by_cases h0 : highWord x y = 0
  · rw [if_pos h0]
    rcases h with rfl | h
    · exact ⟨_, rfl⟩
    · have hz : x.toNat * y.toNat / 2 ^ 256 = 0 := by rw [← hhi, h0]; rfl
      have := Nat.div_le_self (x.toNat * y.toNat) d.toNat
      omega
  · have hle : d ≤ highWord x y := by
      rw [BitVec.le_def, hhi]
      rcases h with rfl | h
      · exact Nat.zero_le _
      · rw [Nat.le_div_iff_mul_le (by norm_num)]
        have h1 := Nat.div_mul_le_self (x.toNat * y.toNat) d.toNat
        have h2 := Nat.mul_le_mul_right d.toNat h
        rw [Nat.mul_comm]
        omega
    rw [if_neg h0, if_pos hle]
    exact ⟨_, rfl⟩

/-- `mulDiv` is the floor of the exact quotient. -/
theorem mulDiv_eq {x y d : ℕ} (hx : x < 2 ^ 256) (hy : y < 2 ^ 256) (hd : d < 2 ^ 256)
    (hpos : 0 < d) (hfit : x * y / d < 2 ^ 256) : mulDiv x y d = .ok (x * y / d) := by
  have ex : (BitVec.ofNat 256 x).toNat = x := by rw [BitVec.toNat_ofNat, Nat.mod_eq_of_lt hx]
  have ey : (BitVec.ofNat 256 y).toNat = y := by rw [BitVec.toNat_ofNat, Nat.mod_eq_of_lt hy]
  have ed : (BitVec.ofNat 256 d).toNat = d := by rw [BitVec.toNat_ofNat, Nat.mod_eq_of_lt hd]
  have hd0 : BitVec.ofNat 256 d ≠ 0 := by
    intro h
    have := congrArg BitVec.toNat h
    rw [ed] at this
    exact hpos.ne' this
  obtain ⟨r, hr, hrn⟩ := mulDivWord_eq (BitVec.ofNat 256 x) (BitVec.ofNat 256 y)
    (BitVec.ofNat 256 d) hd0 (by rw [ex, ey, ed]; exact hfit)
  rw [ex, ey, ed] at hrn
  rw [mulDiv, hr, ← hrn]
  rfl

theorem mulDiv_lt {x y d r : ℕ} (h : mulDiv x y d = .ok r) : r < 2 ^ 256 := by
  simp only [mulDiv, map_eq_ok] at h
  obtain ⟨w, -, rfl⟩ := h
  exact w.isLt

/-- A share of at most the whole: `mulDiv a part whole` never reverts and is at most `a`. -/
theorem mulDiv_share {a part whole : ℕ} (ha : a < 2 ^ 256) (hle : part ≤ whole)
    (hw : whole < 2 ^ 256) (hpos : 0 < whole) : mulDiv a part whole = .ok (a * part / whole) := by
  have hq : a * part / whole ≤ a := by
    calc a * part / whole ≤ a * whole / whole := Nat.div_le_div_right (Nat.mul_le_mul_left a hle)
      _ = a := Nat.mul_div_cancel a hpos
  exact mulDiv_eq ha (lt_of_le_of_lt hle hw) hw hpos (lt_of_le_of_lt hq ha)

/-- **`mulDiv` is exact.**  It returns the floor of the quotient whenever that is a word, and reverts in all
other cases. -/
theorem mulDiv_floor (x y d : Word) :
    (∀ r, mulDivWord x y d = .ok r ↔ 0 < d.toNat ∧ r.toNat = x.toNat * y.toNat / d.toNat) ∧
      ((∃ e, mulDivWord x y d = .error e) ↔ d.toNat = 0 ∨ 2 ^ 256 ≤ x.toNat * y.toNat / d.toNat) := by
  by_cases hfit : d ≠ 0 ∧ x.toNat * y.toNat / d.toNat < 2 ^ 256
  · obtain ⟨hd, hlt⟩ := hfit
    have hpos : 0 < d.toNat := Nat.pos_of_ne_zero (fun h => hd (BitVec.eq_of_toNat_eq h))
    obtain ⟨q, hq, hfloor⟩ := mulDivWord_eq x y d hd hlt
    rw [hq]
    refine ⟨fun r => ⟨?_, ?_⟩, ⟨?_, ?_⟩⟩
    · intro h
      rw [← Except.ok.inj h]
      exact ⟨hpos, hfloor⟩
    · rintro ⟨-, hr⟩
      rw [BitVec.eq_of_toNat_eq (hfloor.trans hr.symm)]
    · rintro ⟨e, he⟩
      cases he
    · intro h
      omega
  · have hout : d = 0 ∨ 2 ^ 256 ≤ x.toNat * y.toNat / d.toNat := by
      by_cases hd : d = 0
      · exact .inl hd
      · exact .inr (Nat.not_lt.mp (fun hlt => hfit ⟨hd, hlt⟩))
    obtain ⟨e, he⟩ := mulDivWord_error x y d hout
    rw [he]
    refine ⟨fun r => ⟨?_, ?_⟩, ⟨fun _ => ?_, fun _ => ⟨e, rfl⟩⟩⟩
    · intro h
      cases h
    · rintro ⟨hpos, hr⟩
      refine absurd ⟨?_, ?_⟩ hfit
      · rintro rfl
        exact Nat.lt_irrefl 0 hpos
      · rw [← hr]
        exact r.isLt
    · rcases hout with rfl | hlarge
      · exact .inl rfl
      · exact .inr hlarge

end P42Prizes
