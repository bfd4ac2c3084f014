import P42Prizes.ConvolutionLaws
import P42Prizes.ScoreTextLaws
import P42Prizes.SignedPackingLaws

/-! # The guests and the verifiers of C1 and C2 agree

The verifiers square the packed vector, and a slot has room for every coefficient of the square, so they
unpack the convolution that the guests compute with their transforms.  On every admitted vector both report
the same score, reduced, the same norms and atoms, and the same answer whether it improves on the seed. -/

namespace P42Prizes.Autoconvolution

open Reverting Verifier SignedDigits SignedAutoconvolution

/-! ### Packing -/

section

variable {slotBytes : ℕ} {values : List ℕ}

/-- The slots from an index on are filled with the values, below them the buffer is kept. -/
theorem fromBytes_fillSlots (hvalues : ∀ v ∈ values, v < 256 ^ slotBytes) {index : ℕ} {filled : List ℕ}
    (hfilled : filled.length = index * slotBytes) :
    fromBytes (fillSlots slotBytes index values (filled ++ List.replicate (slotBytes * values.length) 0)) =
      fromBytes filled + (256 ^ slotBytes) ^ index * Nat.ofDigits (256 ^ slotBytes) values := by
  induction values generalizing index filled with
  | nil => simp [fillSlots, Nat.ofDigits]
  | cons value values ih =>
      have hslotLength := toBytes_length (hvalues value List.mem_cons_self)
      have hsplit : List.replicate (slotBytes * (values.length + 1)) 0 =
          List.replicate slotBytes 0 ++ List.replicate (slotBytes * values.length) 0 := by
        rw [List.replicate_append_replicate, Nat.mul_succ, Nat.add_comm]
      have hindex : (index + 1) * slotBytes = filled.length + slotBytes := by
        rw [hfilled, Nat.succ_mul]
      have hbuffer : (if value ≠ 0 then
          setSlice (filled ++ List.replicate (slotBytes * (values.length + 1)) 0) (index * slotBytes)
            ((index + 1) * slotBytes) (toBytes value slotBytes)
          else filled ++ List.replicate (slotBytes * (values.length + 1)) 0) =
          filled ++ toBytes value slotBytes ++ List.replicate (slotBytes * values.length) 0 := by
        split <;> rename_i hzero
        · rw [setSlice, hsplit, hindex, ← hfilled, List.take_left', ← List.append_assoc, List.drop_left']
          · rw [List.length_append, List.length_replicate]
          · rfl
        · obtain rfl := not_not.mp hzero
          have hslotZero : toBytes 0 slotBytes = List.replicate slotBytes 0 := by
            simp [toBytes]
          rw [hslotZero, hsplit, List.append_assoc]
      have hnext : (filled ++ toBytes value slotBytes).length = (index + 1) * slotBytes := by
        rw [List.length_append, hslotLength, hindex]
      have happend : fromBytes (filled ++ toBytes value slotBytes) =
          fromBytes filled + (256 ^ slotBytes) ^ index * value := by
        rw [fromBytes, Nat.ofDigits_append, hfilled, Nat.mul_comm index, pow_mul]
        exact congrArg (fun x => fromBytes filled + (256 ^ slotBytes) ^ index * x) (fromBytes_toBytes _ _)
      rw [fillSlots, List.length_cons, hbuffer, ih (fun v hv => hvalues v (List.mem_cons_of_mem _ hv)) hnext,
        Nat.ofDigits_cons, happend, pow_succ]
      ring

theorem packNonnegative_eq (h : ∀ v ∈ values, v < 256 ^ slotBytes) :
    packNonnegative values slotBytes = Nat.ofDigits (256 ^ slotBytes) values := by
  have hfill := fromBytes_fillSlots h (show ([] : List ℕ).length = 0 * slotBytes from (Nat.zero_mul _).symm)
  rw [List.nil_append] at hfill
  rw [packNonnegative, hfill]
  simp [fromBytes, Nat.ofDigits]

theorem ofDigits_digit {base : ℕ} {digits : List ℕ} (h : ∀ d ∈ digits, d < base) (i : ℕ) :
    Nat.ofDigits base digits / base ^ i % base = digits.getD i 0 := by
  induction digits generalizing i with
  | nil => simp [Nat.ofDigits]
  | cons d digits ih =>
      have hd := h d List.mem_cons_self
      have hpos : 0 < base := Nat.zero_lt_of_lt hd
      rw [Nat.ofDigits_cons]
      cases i with
      | zero => rw [pow_zero, Nat.div_one, Nat.add_mul_mod_self_left, Nat.mod_eq_of_lt hd, List.getD_cons_zero]
      | succ i =>
          rw [pow_succ', ← Nat.div_div_eq_div_mul, Nat.add_mul_div_left _ _ hpos, Nat.div_eq_of_lt hd, Nat.zero_add,
            ih (fun e he => h e (List.mem_cons_of_mem _ he)), List.getD_cons_succ]

/-- A number is unpacked into its digits. -/
theorem unpackNonnegative_eq (h : ∀ v ∈ values, v < 256 ^ slotBytes) :
    unpackNonnegative (Nat.ofDigits (256 ^ slotBytes) values) slotBytes values.length = values := by
  obtain ⟨z, hz⟩ : ∃ z, z = Nat.ofDigits (256 ^ slotBytes) values := ⟨_, rfl⟩
  have hraw : ∀ b ∈ toBytes z (usedBytes z) ++
      List.replicate (slotBytes * values.length - (toBytes z (usedBytes z)).length) 0, b < 256 := by
    intro b hb
    rcases List.mem_append.mp hb with hb | hb
    · exact toBytes_lt hb
    · rw [List.eq_of_mem_replicate hb]
      decide
  have hvalue : fromBytes (toBytes z (usedBytes z) ++
      List.replicate (slotBytes * values.length - (toBytes z (usedBytes z)).length) 0) = z := by
    rw [fromBytes, Nat.ofDigits_append_replicate_zero]
    exact fromBytes_toBytes _ _
  unfold unpackNonnegative
  rw [← hz]
  simp only [fromBytes_slot hraw, hvalue]
  refine List.ext_getElem (by rw [List.length_map, List.length_range]) fun i hi hi' => ?_
  rw [List.getElem_map, List.getElem_range, hz, ofDigits_digit h, List.getD_eq_getElem _ _ hi']

theorem ofDigits_coefficients (base : ℕ) (hne : values ≠ []) :
    Nat.ofDigits base (coefficients values) = Nat.ofDigits base values * Nat.ofDigits base values := by
  have hne' : values.map (Nat.cast : ℕ → ℤ) ≠ [] := fun h => hne (List.map_eq_nil_iff.mp h)
  have hsquare := horner_autoconvolution (B := base) hne'
  have hcoefficients : (List.range (2 * (values.map (Nat.cast : ℕ → ℤ)).length - 1)).map
      (autoconvolution (values.map Nat.cast)) = (coefficients values).map Nat.cast := by
    rw [List.length_map, coefficients, List.map_map]
    exact List.map_congr_left fun k _ => (cast_convolution values k).symm
  rw [hcoefficients, horner_natCast, horner_natCast] at hsquare
  exact_mod_cast hsquare

theorem sum_coefficients (hne : values ≠ []) : (coefficients values).sum = values.sum * values.sum := by
  rw [← Nat.ofDigits_one, ofDigits_coefficients 1 hne, Nat.ofDigits_one]

theorem coefficients_length (values : List ℕ) : (coefficients values).length = 2 * values.length - 1 := by
  rw [coefficients, List.length_map, List.length_range]

/-- The largest entry. -/
def largest (values : List ℕ) : ℕ := values.max?.getD 0

theorem le_largest {v : ℕ} (hv : v ∈ values) : v ≤ largest values := by
  unfold largest
  cases hmax : values.max? with
  | none =>
      rw [List.max?_eq_none_iff.mp hmax] at hv
      exact absurd hv List.not_mem_nil
  | some m => exact (List.max?_eq_some_iff.mp hmax).2 v hv

theorem largest_mem (hne : values ≠ []) : values.max? = some (largest values) ∧ largest values ∈ values := by
  unfold largest
  cases hmax : values.max? with
  | none => exact absurd (List.max?_eq_none_iff.mp hmax) hne
  | some m => exact ⟨rfl, (List.max?_eq_some_iff.mp hmax).1⟩

theorem largest_pos (hsum : values.sum ≠ 0) : largest values ≠ 0 := by
  intro hzero
  refine hsum (List.sum_eq_zero fun v hv => ?_)
  exact Nat.le_zero.mp (hzero ▸ le_largest hv)

/-- A slot has room for every coefficient. -/
theorem lt_slot (n spareBits m : ℕ) : n * (m * m) < 256 ^ (slotBits n spareBits m / 8) ∧
    m < 256 ^ (slotBits n spareBits m / 8) := by
  have hslot : 2 * Nat.size m + Nat.size n ≤ 8 * (slotBits n spareBits m / 8) := by
    have hneeded : 2 * Nat.size m + Nat.size n + spareBits ≤ slotBits n spareBits m :=
      le_max_of_le_right (by omega)
    have hbytes : 8 * (slotBits n spareBits m / 8) = slotBits n spareBits m := by
      refine Nat.mul_div_cancel' ?_
      unfold slotBits
      rcases max_choice 96 ((2 * Nat.size m + Nat.size n + spareBits + 7) / 8 * 8) with h | h <;> rw [h]
      · decide
      · exact Dvd.intro_left _ rfl
    omega
  have hm := Nat.lt_size_self m
  have hn := Nat.lt_size_self n
  have hpow : 2 ^ (2 * Nat.size m + Nat.size n) ≤ 256 ^ (slotBits n spareBits m / 8) := by
    rw [← pow_eight]
    exact Nat.pow_le_pow_right Nat.two_pos hslot
  have hsquare : m * m < 2 ^ (2 * Nat.size m) := by
    rw [Nat.two_mul, pow_add]
    exact Nat.mul_lt_mul'' hm hm
  constructor
  · refine lt_of_lt_of_le ?_ hpow
    rw [pow_add, Nat.mul_comm]
    exact Nat.mul_lt_mul'' hsquare hn
  · refine (hm.trans_le ?_).trans_le hpow
    exact Nat.pow_le_pow_right Nat.two_pos (by omega)

/-- The verifiers find the coefficients of the convolution, whatever the spare bits. -/
theorem coefficientsOf_eq (spareBits : ℕ) (hsum : values.sum ≠ 0) :
    coefficientsOf values.length spareBits values = .ok (coefficients values) := by
  have hne : values ≠ [] := fun h => hsum (by rw [h, List.sum_nil])
  obtain ⟨hroom, hmax⟩ := lt_slot values.length spareBits (largest values)
  generalize hslot : slotBits values.length spareBits (largest values) / 8 = slotBytes at hroom hmax
  have hvalues : ∀ v ∈ values, v < 256 ^ slotBytes := fun v hv => (le_largest hv).trans_lt hmax
  have hcoefficients : ∀ c ∈ coefficients values, c < 256 ^ slotBytes := by
    intro c hc
    obtain ⟨k, -, rfl⟩ := List.mem_map.mp hc
    exact (convolution_le (fun v hv => le_largest hv) k).trans_lt hroom
  have hunpacked := unpackNonnegative_eq hcoefficients
  rw [coefficients_length, ofDigits_coefficients _ hne, ← packNonnegative_eq hvalues] at hunpacked
  unfold coefficientsOf
  simp only [bind_eq_ok, revertIf_eq_ok, pure_eq_ok, exists_const]
  unfold largest at hslot
  rw [hslot, hunpacked]
  exact ⟨largest_pos hsum, not_not.mpr (sum_coefficients hne), rfl⟩

end

/-! ### Primes with a certificate -/

/-- The prime factors of `p - 1`, and what the powers of the root show with them. -/
def certified (l p g : ℕ) (factors : List ℕ) : Bool :=
  1 < p ∧ p < 2 ^ 32 ∧ 2 ^ l ∣ p - 1 ∧ p - 1 ∣ factors.prod ^ 64 ∧ modPow g (p - 1) p = 1 ∧
    factors.all fun q => modPow g ((p - 1) / q) p ≠ 1

theorem modulus_of_certified {l p g : ℕ} (factors : List ℕ) (hprimes : ∀ q ∈ factors, q.Prime)
    (h : certified l p g factors = true) : Modulus l p g := by
  unfold certified at h
  simp only [decide_eq_true_eq, List.all_eq_true] at h
  obtain ⟨hp, hbits, hlength, hfactors, hone, hne⟩ := h
  obtain ⟨hprime, hprimitive⟩ := prime_of_powers factors hp (hbits.le.trans (by decide)) hprimes hfactors hone hne
  exact ⟨hprime, hprimitive, hlength, hbits⟩

/-- The four moduli that both guests use, for transforms of up to `2 ^ 20` values. -/
theorem modulus_common {l : ℕ} (hl : 2 ^ l ∣ 2 ^ 20) :
    ∀ entry ∈ C2Lower.moduli, Modulus l entry.1 entry.2 := by
  have hweaken : ∀ {p g : ℕ}, Modulus 20 p g → Modulus l p g := fun h =>
    ⟨h.prime, h.primitive, hl.trans h.length, h.bits⟩
  simp only [C2Lower.moduli, List.forall_mem_cons]
  refine ⟨hweaken ?_, hweaken ?_, hweaken ?_, hweaken ?_, nofun⟩
  · exact modulus_of_certified [2, 127] (by norm_num) (by decide +kernel)
  · exact modulus_of_certified [2, 2017] (by norm_num) (by decide +kernel)
  · exact modulus_of_certified [2, 3, 7] (by norm_num) (by decide +kernel)
  · exact modulus_of_certified [2, 7, 11, 13] (by norm_num) (by decide +kernel)

theorem C1Upper.modulus_moduli : ∀ entry ∈ C1Upper.moduli, Modulus 18 entry.1 entry.2 := by
  have hcommon := modulus_common (l := 18) (by decide)
  simp only [C2Lower.moduli, List.forall_mem_cons] at hcommon
  obtain ⟨h1, h2, h3, h4, -⟩ := hcommon
  simp only [C1Upper.moduli, List.forall_mem_cons]
  refine ⟨h1, h2, h3, h4, ?_, ?_, ?_, ?_, ?_, nofun⟩
  · exact modulus_of_certified [2, 3, 37] (by norm_num) (by decide +kernel)
  · exact modulus_of_certified [2, 3, 83] (by norm_num) (by decide +kernel)
  · exact modulus_of_certified [2, 7, 283] (by norm_num) (by decide +kernel)
  · exact modulus_of_certified [2, 5, 79] (by norm_num) (by decide +kernel)
  · exact modulus_of_certified [2, 3, 7, 31] (by norm_num) (by decide +kernel)

/-! ### Sums that fit -/

theorem checked_eq {bits x : ℕ} (h : x < 2 ^ bits) : checked bits x = .ok x := by
  unfold checked
  simp only [bind_eq_ok, revertIf_eq_ok, pure_eq_ok, exists_const, and_true]
  exact h.not_ge

section

variable {fit : ℕ → Except VerifyError ℕ} {values : List ℕ}

theorem readValues_eq {maxValue total : ℕ} (hmax : ∀ v ∈ values, v ≤ maxValue)
    (hfit : ∀ x ≤ total + values.sum, fit x = .ok x) :
    readValues fit maxValue (values.map some) total = .ok (values, total + values.sum) := by
  induction values generalizing total with
  | nil => rfl
  | cons v values ih =>
      rw [List.sum_cons, ← Nat.add_assoc] at hfit ⊢
      have hrest := ih (fun w hw => hmax w (List.mem_cons_of_mem v hw)) hfit
      rw [List.map_cons, readValues]
      simp only [bind_eq_ok, revertIf_eq_ok, pure_eq_ok, exists_const]
      exact ⟨(hmax v List.mem_cons_self).not_gt, _, hfit _ (Nat.le_add_right _ _), _, hrest, rfl⟩

theorem foldlM_checked {sum : ℕ} (h : sum + values.sum < 2 ^ 128) :
    values.foldlM (fun sum value => checked 128 (sum + value)) sum = .ok (sum + values.sum) := by
  induction values generalizing sum with
  | nil => rfl
  | cons v values ih =>
      rw [List.sum_cons, ← Nat.add_assoc] at h ⊢
      rw [List.foldlM_cons, checked_eq (by omega)]
      exact ih h

theorem convolveExact_c1 (hlen : values.length = C1Upper.N) (hmax : ∀ v ∈ values, v ≤ C1Upper.maxValue) :
    convolveExact unbounded values C1Upper.nttLen C1Upper.moduli = .ok (coefficients values) := by
  have hne : values ≠ [] := by
    rintro rfl
    exact absurd hlen (by decide)
  refine convolveExact_eq C1Upper.modulus_moduli (by decide) hne ?_ hmax ?_ fun _ _ => rfl
  · rw [hlen]
    decide
  · rw [hlen]
    decide +kernel

theorem convolveExact_c2 (hlen : values.length = C2Lower.N) (hmax : ∀ v ∈ values, v ≤ C2Lower.maxValue) :
    convolveExact (checked 128) values C2Lower.nttLen C2Lower.moduli = .ok (coefficients values) := by
  have hne : values ≠ [] := by
    rintro rfl
    exact absurd hlen (by decide)
  refine convolveExact_eq (modulus_common dvd_rfl) (by decide) hne ?_ hmax ?_ fun x hx => ?_
  · rw [hlen]
    decide
  · rw [hlen]
    decide +kernel
  · exact checked_eq (hx.trans_lt (by decide +kernel))

end

/-! ### Scores -/

section

variable {a b n d : ℕ}

/-- Dividing by the greatest common divisor gives the reduced fraction. -/
theorem reduced (a : ℕ) (hb : 0 < b) :
    ((a / Nat.gcd a b : ℕ) : ℤ) = ((a : ℚ) / b).num ∧ b / Nat.gcd a b = ((a : ℚ) / b).den := by
  have hg : 0 < Nat.gcd a b := Nat.gcd_pos_of_pos_right a hb
  have hpos : 0 < b / Nat.gcd a b := Nat.div_pos (Nat.le_of_dvd hb (Nat.gcd_dvd_right a b)) hg
  have hcoprime : Nat.Coprime (a / Nat.gcd a b) (b / Nat.gcd a b) := Nat.coprime_div_gcd_div_gcd hg
  have heq : (a : ℚ) / b = ((a / Nat.gcd a b : ℕ) : ℤ) / ((b / Nat.gcd a b : ℕ) : ℤ) := by
    rw [Int.cast_natCast, Int.cast_natCast, Nat.cast_div (Nat.gcd_dvd_left a b) (by exact_mod_cast hg.ne'),
      Nat.cast_div (Nat.gcd_dvd_right a b) (by exact_mod_cast hg.ne'),
      div_div_div_cancel_right₀ (by exact_mod_cast hg.ne')]
  have hpos' : (0 : ℤ) < ((b / Nat.gcd a b : ℕ) : ℤ) := by exact_mod_cast hpos
  have hcoprime' : Nat.Coprime ((a / Nat.gcd a b : ℕ) : ℤ).natAbs ((b / Nat.gcd a b : ℕ) : ℤ).natAbs := hcoprime
  rw [heq, Rat.num_div_eq_of_coprime hpos' hcoprime']
  refine ⟨rfl, ?_⟩
  have hden := Rat.den_div_eq_of_coprime hpos' hcoprime'
  exact_mod_cast hden.symm

theorem div_gcd_le {c : ℕ} (hb : 0 < b) (h : a ≤ c * b) : a / Nat.gcd a b ≤ c * (b / Nat.gcd a b) := by
  have hg : 0 < Nat.gcd a b := Nat.gcd_pos_of_pos_right a hb
  refine Nat.div_le_of_le_mul ?_
  rw [← Nat.mul_assoc, Nat.mul_comm (Nat.gcd a b) c, Nat.mul_assoc, Nat.mul_div_cancel' (Nat.gcd_dvd_right a b)]
  exact h

/-- An improvement by the least amount, in integers. -/
theorem improvement_iff (hb : 0 < b) (hd : 0 < d) : (1 / 1000000000000 : ℚ) ≤ (a : ℚ) / b - (n : ℚ) / d ↔
    a * d > n * b ∧ (a * d - n * b) * minImprovementDenominator ≥ b * d := by
  have hb' : (0 : ℚ) < b := by exact_mod_cast hb
  have hd' : (0 : ℚ) < d := by exact_mod_cast hd
  have hpos : (0 : ℚ) < b * d := mul_pos hb' hd'
  have hden : (minImprovementDenominator : ℚ) = 1000000000000 := by norm_num [minImprovementDenominator]
  rw [div_sub_div _ _ hb'.ne' hd'.ne', le_div_iff₀ hpos]
  constructor
  · intro h
    have hlt : ((n * b : ℕ) : ℚ) < ((a * d : ℕ) : ℚ) := by
      push_cast
      nlinarith
    have hlt' : n * b < a * d := by exact_mod_cast hlt
    refine ⟨hlt', ?_⟩
    have hge : ((b * d : ℕ) : ℚ) ≤ ((a * d - n * b : ℕ) : ℚ) * minImprovementDenominator := by
      rw [Nat.cast_sub hlt'.le, hden]
      push_cast
      linarith
    exact_mod_cast hge
  · rintro ⟨hlt, hge⟩
    have hge' : ((b * d : ℕ) : ℚ) ≤ ((a * d - n * b : ℕ) : ℚ) * minImprovementDenominator := by exact_mod_cast hge
    rw [Nat.cast_sub hlt.le, hden] at hge'
    push_cast at hge'
    linarith

theorem le_max_zero_iff {x y : ℚ} (hy : 0 < y) : max 0 x ≥ y ↔ y ≤ x := by
  rw [ge_iff_le, le_max_iff, or_iff_right hy.not_ge]

theorem ceil_atoms (n : ℕ) (hd : 0 < d) :
    (((n * scoreAtomScale + d - 1) / d : ℕ) : ℤ) = exactAtoms .minimize ((n : ℚ) / d) := by
  have hscaled : (n : ℚ) / d * 10 ^ 18 = ((n * scoreAtomScale : ℕ) : ℚ) / (d : ℕ) := by
    rw [Nat.cast_mul, mul_div_right_comm]
    norm_num [scoreAtomScale]
  rw [exactAtoms, hscaled, Rat.ceil_natCast_div_natCast]
  generalize n * scoreAtomScale = x
  have hlow := Nat.div_mul_le_self (x + d - 1) d
  have hhigh := Nat.lt_div_mul_add hd (a := x + d - 1)
  generalize (x + d - 1) / d = q at hlow hhigh
  have hd' : (0 : ℤ) < d := by exact_mod_cast hd
  rw [eq_comm, neg_eq_iff_eq_neg, Int.ediv_eq_iff_of_pos hd']
  have hlow' : (q * d : ℤ) ≤ x + d - 1 := by
    have hcast : ((q * d : ℕ) : ℤ) ≤ ((x + d - 1 : ℕ) : ℤ) := by exact_mod_cast hlow
    rw [Nat.cast_sub (by omega)] at hcast
    push_cast at hcast
    exact hcast
  have hhigh' : (x + d - 1 : ℤ) < q * d + d := by
    have hcast : ((x + d - 1 : ℕ) : ℤ) < ((q * d + d : ℕ) : ℤ) := by exact_mod_cast hhigh
    rw [Nat.cast_sub (by omega)] at hcast
    push_cast at hcast
    exact hcast
  constructor <;> linarith

theorem floor_atoms (n d : ℕ) :
    -((n * scoreAtomScale / d : ℕ) : ℤ) = exactAtoms .maximize ((n : ℚ) / d) := by
  have hscaled : (n : ℚ) / d * 10 ^ 18 = ((n * scoreAtomScale : ℕ) : ℚ) / (d : ℕ) := by
    rw [Nat.cast_mul, mul_div_right_comm]
    norm_num [scoreAtomScale]
  rw [exactAtoms, hscaled, Rat.floor_natCast_div_natCast]
  rfl

theorem verdict_fraction (q : ℚ) (direction : Direction) :
    Verdict.chainScoreAtoms (.fraction q) direction = .ok (exactAtoms direction q) := by
  have hatoms := verdict_chainScoreAtoms (.fraction q) direction
  exact toOption_eq_some.mp hatoms

end

/-! ### C1 -/

section

variable {values : List ℕ}

/-- `max_by` finds the largest entry at its first index. -/
theorem maxEntry_zipIdx {l : List ℕ} (hl : l ≠ []) :
    C1Upper.maxEntry l.zipIdx = some (largest l, l.idxOf (largest l)) := by
  induction l using List.reverseRecOn with
  | nil => exact absurd rfl hl
  | append_singleton l x ih =>
      cases l with
      | nil => simp [C1Upper.maxEntry, largest]
      | cons a l =>
          have hne : a :: l ≠ [] := List.cons_ne_nil a l
          have hmem := (largest_mem hne).2
          have hrest := ih hne
          have hlargest : largest (a :: l ++ [x]) = max (largest (a :: l)) x := by
            simp only [largest, List.cons_append, List.max?_cons', List.foldl_append, List.foldl_cons, List.foldl_nil,
              Option.getD_some]
          have hentry : C1Upper.maxEntry (a :: l ++ [x]).zipIdx =
              (C1Upper.maxEntry (a :: l).zipIdx).map fun best =>
                if best.1 < x then (x, (a :: l).length) else best := by
            simp only [List.zipIdx_append, List.zipIdx_cons, List.zipIdx_nil, List.cons_append, C1Upper.maxEntry,
              List.foldl_append, List.foldl_cons, List.foldl_nil, Option.map_some, List.length_cons, Nat.zero_add,
              Nat.add_comm 1]
          rw [hentry, hrest, hlargest, Option.map_some]
          split <;> rename_i hlt
          · have hnot : x ∉ a :: l := fun hx => hlt.not_ge (le_largest hx)
            rw [max_eq_right hlt.le, List.idxOf_append_of_notMem hnot, List.idxOf_cons_self, Nat.add_zero]
          · rw [max_eq_left (not_lt.mp hlt), List.idxOf_append_of_mem hmem]

theorem largest_coefficients_le (hne : values ≠ []) :
    largest (coefficients values) ≤ values.sum * values.sum := by
  have hcoefficients : coefficients values ≠ [] := by
    intro h
    have hlength := coefficients_length values
    rw [h, List.length_nil] at hlength
    have hpos := List.length_pos_of_ne_nil hne
    omega
  rw [← sum_coefficients hne]
  exact List.le_sum_of_mem (largest_mem hcoefficients).2

/-- What the guest and the verifier of C1 say of one vector. -/
structure C1Upper.Agree (values : List ℕ) (score : ℚ) (details : C1Upper.Details)
    (evaluation : C1Upper.Evaluation) : Prop where
  verifier : C1Upper.computeScore values = .ok (score, details)
  guest : C1Upper.evaluate (values.map some) = .ok evaluation
  numerator : (evaluation.numerator : ℤ) = score.num
  denominator : evaluation.denominator = score.den
  argmaxIndex : evaluation.argmaxIndex = details.argmaxIndex
  linf : evaluation.linf = details.linf
  l1 : evaluation.l1 = details.l1
  atoms : Verdict.chainScoreAtoms (.fraction score) .minimize = .ok evaluation.chainScoreAtoms
  qualifies : evaluation.qualifies = true ↔ C1Upper.valid score

theorem C1Upper.agree (hlen : values.length = C1Upper.N) (hmax : ∀ v ∈ values, v ≤ C1Upper.maxValue)
    (hsum : values.sum ≠ 0) : ∃ score details evaluation, C1Upper.Agree values score details evaluation := by
  have hne : values ≠ [] := fun h => hsum (by rw [h, List.sum_nil])
  have hcoefficients : coefficients values ≠ [] := by
    intro h
    have hlength := coefficients_length values
    rw [h, List.length_nil, hlen] at hlength
    exact absurd hlength (by decide)
  have hscore := coefficientsOf_eq 4 hsum
  rw [hlen] at hscore
  have hunbounded : ∀ x ≤ 0 + values.sum, unbounded x = .ok x := fun _ _ => rfl
  have hread := readValues_eq hmax hunbounded
  rw [Nat.zero_add] at hread
  have hconvolve := convolveExact_c1 hlen hmax
  have hchecksum := sum_coefficients hne
  have hlinf := largest_coefficients_le hne
  -- the numbers of the score
  obtain ⟨linf, hl⟩ : ∃ linf, linf = largest (coefficients values) := ⟨_, rfl⟩
  obtain ⟨total, ht⟩ : ∃ total, total = values.sum := ⟨_, rfl⟩
  rw [← hl, ← ht] at hlinf
  have hpos : 0 < total * total := by
    rw [ht]
    exact Nat.mul_pos (Nat.pos_of_ne_zero hsum) (Nat.pos_of_ne_zero hsum)
  obtain ⟨hnum, hden⟩ := reduced (2 * C1Upper.N * linf) hpos
  have hle : 2 * C1Upper.N * linf ≤ 2 * C1Upper.N * (total * total) := Nat.mul_le_mul_left _ hlinf
  have hsmall := div_gcd_le hpos hle
  generalize hn : 2 * C1Upper.N * linf / Nat.gcd (2 * C1Upper.N * linf) (total * total) = n at hnum hsmall
  generalize hd : total * total / Nat.gcd (2 * C1Upper.N * linf) (total * total) = d at hden hsmall
  obtain ⟨score, hs⟩ : ∃ score : ℚ, score = ((2 * C1Upper.N * linf : ℕ) : ℚ) / ((total * total : ℕ) : ℚ) :=
    ⟨_, rfl⟩
  rw [← hs] at hnum hden
  have hdpos : 0 < d := by
    rw [hden]
    exact score.den_pos
  have hvalue : (n : ℚ) / d = score := by
    rw [hden, ← Int.cast_natCast, hnum, Rat.num_div_den]
  have hatoms := ceil_atoms n hdpos
  rw [hvalue] at hatoms
  have hfits : (n * scoreAtomScale + d - 1) / d < 2 ^ 128 := by
    have hbound : n * scoreAtomScale + d - 1 < (2 * C1Upper.N * scoreAtomScale + 1) * d := by
      have hscaled : n * scoreAtomScale ≤ 2 * C1Upper.N * d * scoreAtomScale := Nat.mul_le_mul_right _ hsmall
      have hsplit : (2 * C1Upper.N * scoreAtomScale + 1) * d = 2 * C1Upper.N * d * scoreAtomScale + d := by ring
      omega
    exact ((Nat.div_lt_iff_lt_mul hdpos).mpr hbound).trans (by decide +kernel)
  have hqualifies : C1Upper.qualifiesMinimize n d = true ↔ C1Upper.valid score := by
    have hseed : 0 < C1Upper.seedDenominator := by decide
    unfold C1Upper.qualifiesMinimize C1Upper.valid C1Upper.seedBest
    rw [le_max_zero_iff (by norm_num), ← hvalue, improvement_iff hseed hdpos, decide_eq_true_eq]
  refine ⟨score, ⟨(coefficients values).idxOf linf, 2 * C1Upper.N - 1, linf, total,
    slotBits C1Upper.N 4 (values.max?.getD 0)⟩,
    ⟨n, d, (coefficients values).idxOf linf, linf, total, (n * scoreAtomScale + d - 1) / d,
      C1Upper.qualifiesMinimize n d⟩, ?_, ?_, hnum, hden, rfl, rfl, rfl, ?_, hqualifies⟩
  · unfold C1Upper.computeScore
    simp only [bind_eq_ok, pure_eq_ok]
    refine ⟨_, hscore, ?_⟩
    rw [← largest, ← hl, ← ht, hs]
  · unfold C1Upper.evaluate
    simp only [bind_eq_ok, revertIf_eq_ok, exists_const]
    refine ⟨by rw [List.length_map, hlen, ne_eq, not_not], _, hread, hsum, _, hconvolve, ?_, ?_⟩
    · rw [hchecksum, ne_eq, not_not]
    · rw [maxEntry_zipIdx hcoefficients, ← hl, ← ht]
      simp only [hn, hd, bind_eq_ok, pure_eq_ok]
      exact ⟨_, checked_eq hfits, rfl⟩
  · rw [verdict_fraction, ← hatoms]

/-! ### C2 -/

theorem sumSquares_le {m : ℕ} (hm : ∀ v ∈ values, v ≤ m) : C2Lower.sumSquares values ≤ m * values.sum := by
  induction values with
  | nil => exact Nat.zero_le _
  | cons v values ih =>
      have hrest := ih fun w hw => hm w (List.mem_cons_of_mem v hw)
      have hv : v * v ≤ m * v := Nat.mul_le_mul_right v (hm v List.mem_cons_self)
      unfold C2Lower.sumSquares at hrest ⊢
      rw [List.map_cons, List.sum_cons, List.sum_cons, Nat.mul_add]
      exact Nat.add_le_add hv hrest

theorem sumAdjacent_le {m : ℕ} (hm : ∀ v ∈ values, v ≤ m) : C2Lower.sumAdjacent values ≤ m * values.sum := by
  induction values with
  | nil => exact Nat.zero_le _
  | cons v values ih =>
      have hrest := ih fun w hw => hm w (List.mem_cons_of_mem v hw)
      unfold C2Lower.sumAdjacent at hrest ⊢
      rw [List.tail_cons]
      cases values with
      | nil => exact Nat.zero_le _
      | cons w values =>
          have hw : w ≤ m := hm w (List.mem_cons_of_mem v List.mem_cons_self)
          have hv : v * w ≤ m * v := by
            rw [Nat.mul_comm m]
            exact Nat.mul_le_mul_left v hw
          rw [List.tail_cons] at hrest
          rw [List.zipWith_cons_cons, List.sum_cons, List.sum_cons, Nat.mul_add]
          exact Nat.add_le_add hv hrest

/-- What the guest and the verifier of C2 say of one vector. -/
structure C2Lower.Agree (values : List ℕ) (score : ℚ) (details : C2Lower.Details)
    (evaluation : C2Lower.Evaluation) : Prop where
  verifier : C2Lower.computeScore values = .ok (score, details)
  guest : C2Lower.evaluate (values.map some) = .ok evaluation
  numerator : (evaluation.numerator : ℤ) = score.num
  denominator : evaluation.denominator = score.den
  linf : evaluation.linf = details.linf
  s1 : evaluation.s1 = details.s1
  s2 : evaluation.s2 = details.s2
  atoms : Verdict.chainScoreAtoms (.fraction score) .maximize = .ok evaluation.chainScoreAtoms
  qualifies : evaluation.qualifies = true ↔ C2Lower.valid score

theorem C2Lower.agree (hlen : values.length = C2Lower.N) (hmax : ∀ v ∈ values, v ≤ C2Lower.maxValue)
    (hsum : values.sum ≠ 0) : ∃ score details evaluation, C2Lower.Agree values score details evaluation := by
  have hne : values ≠ [] := fun h => hsum (by rw [h, List.sum_nil])
  have hcoefficients : coefficients values ≠ [] := by
    intro h
    have hlength := coefficients_length values
    rw [h, List.length_nil, hlen] at hlength
    exact absurd hlength (by decide)
  have hscore := coefficientsOf_eq 2 hsum
  rw [hlen] at hscore
  have hchecksum := sum_coefficients hne
  have htotal : values.sum ≤ C2Lower.N * C2Lower.maxValue := by
    rw [← hlen]
    exact List.sum_le_card_nsmul _ _ hmax
  have hsquare : values.sum * values.sum < 2 ^ 128 :=
    (Nat.mul_le_mul htotal htotal).trans_lt (by decide +kernel)
  have hchecked : ∀ x ≤ 0 + values.sum, checked 128 x = .ok x := fun x hx =>
    checked_eq ((hx.trans ((Nat.zero_add _).trans_le htotal)).trans_lt (by decide +kernel))
  have hread := readValues_eq hmax hchecked
  rw [Nat.zero_add] at hread
  have hconvolve := convolveExact_c2 hlen hmax
  have hsmallSum : 0 + (coefficients values).sum < 2 ^ 128 := by rwa [hchecksum, Nat.zero_add]
  have hfold := foldlM_checked hsmallSum
  rw [Nat.zero_add, hchecksum] at hfold
  -- the numbers of the score
  have hmaximum := (largest_mem hcoefficients).1
  have hsquares := sumSquares_le fun v (hv : v ∈ coefficients values) => le_largest hv
  have hadjacent := sumAdjacent_le fun v (hv : v ∈ coefficients values) => le_largest hv
  have hnonzero : largest (coefficients values) ≠ 0 := by
    refine largest_pos ?_
    rw [hchecksum]
    exact mul_self_ne_zero.mpr hsum
  rw [hchecksum] at hsquares hadjacent
  obtain ⟨linf, hl⟩ : ∃ linf, linf = largest (coefficients values) := ⟨_, rfl⟩
  obtain ⟨s1, h1⟩ : ∃ s1, s1 = values.sum * values.sum := ⟨_, rfl⟩
  obtain ⟨s2, h2⟩ : ∃ s2, s2 = 2 * C2Lower.sumSquares (coefficients values) +
      C2Lower.sumAdjacent (coefficients values) := ⟨_, rfl⟩
  rw [← hl] at hmaximum hnonzero hsquares hadjacent
  rw [← h1] at hsquares hadjacent hfold hchecksum
  have hpos : 0 < 3 * s1 * linf := by
    refine Nat.mul_pos (Nat.mul_pos (by decide) ?_) (Nat.pos_of_ne_zero hnonzero)
    rw [h1]
    exact Nat.mul_pos (Nat.pos_of_ne_zero hsum) (Nat.pos_of_ne_zero hsum)
  have hle : s2 ≤ 1 * (3 * s1 * linf) := by
    have hring : 1 * (3 * s1 * linf) = 2 * (linf * s1) + linf * s1 := by ring
    omega
  obtain ⟨hnum, hden⟩ := reduced s2 hpos
  have hsmall := div_gcd_le hpos hle
  generalize hn : s2 / Nat.gcd s2 (3 * s1 * linf) = n at hnum hsmall
  generalize hd : 3 * s1 * linf / Nat.gcd s2 (3 * s1 * linf) = d at hden hsmall
  obtain ⟨score, hs⟩ : ∃ score : ℚ, score = (s2 : ℚ) / ((3 * s1 * linf : ℕ) : ℚ) := ⟨_, rfl⟩
  rw [← hs] at hnum hden
  have hdpos : 0 < d := by
    rw [hden]
    exact score.den_pos
  have hvalue : (n : ℚ) / d = score := by
    rw [hden, ← Int.cast_natCast, hnum, Rat.num_div_den]
  have hatoms := floor_atoms n d
  rw [hvalue] at hatoms
  have hfits : n * scoreAtomScale / d < 2 ^ 127 := by
    have hbound : n * scoreAtomScale < (scoreAtomScale + 1) * d := by
      have hscaled : n * scoreAtomScale ≤ 1 * d * scoreAtomScale := Nat.mul_le_mul_right _ hsmall
      have hsplit : (scoreAtomScale + 1) * d = 1 * d * scoreAtomScale + d := by ring
      omega
    exact ((Nat.div_lt_iff_lt_mul hdpos).mpr hbound).trans (by decide +kernel)
  have hqualifies : C2Lower.qualifiesMaximize n d = true ↔ C2Lower.valid score := by
    have hseed : 0 < C2Lower.seedDenominator := by decide
    unfold C2Lower.qualifiesMaximize C2Lower.valid C2Lower.seedBest
    rw [le_max_zero_iff (by norm_num), ← hvalue, improvement_iff hdpos hseed, decide_eq_true_eq,
      Nat.mul_comm d C2Lower.seedDenominator]
  refine ⟨score, ⟨2 * C2Lower.N - 1, linf, s1, s2, slotBits C2Lower.N 2 (values.max?.getD 0)⟩,
    ⟨n, d, linf, s1, s2, -(n * scoreAtomScale / d : ℕ), C2Lower.qualifiesMaximize n d⟩,
    ?_, ?_, hnum, hden, rfl, rfl, rfl, ?_, hqualifies⟩
  · unfold C2Lower.computeScore
    simp only [bind_eq_ok, pure_eq_ok]
    refine ⟨_, hscore, ?_⟩
    rw [← largest, ← hl, hchecksum, ← h2, hs]
  · unfold C2Lower.evaluate
    simp only [bind_eq_ok, revertIf_eq_ok, exists_const]
    refine ⟨by rw [List.length_map, hlen, ne_eq, not_not], _, hread, hsum, _, hconvolve, _, hfold, ?_, ?_⟩
    · rw [← h1, ne_eq, not_not]
    · rw [hmaximum]
      simp only [← h2, hn, hd, bind_eq_ok, pure_eq_ok]
      exact ⟨_, checked_eq hfits, rfl⟩
  · rw [verdict_fraction, ← hatoms]

/-! ### Main results -/

/-- The transforms of the guests and the packing of the verifiers compute the same convolution. -/
theorem convolution_exact {l m : ℕ} {moduli : List (ℕ × ℕ)}
    (hmoduli : ∀ entry ∈ moduli, Modulus l entry.1 entry.2) (hnodup : (moduli.map Prod.fst).Nodup)
    (hne : values ≠ []) (hlen : 2 * values.length - 1 ≤ 2 ^ l) (hm : ∀ v ∈ values, v ≤ m)
    (hbound : values.length * (m * m) < (moduli.map Prod.fst).prod) :
    ∃ cs : List ℕ, cs.length = 2 * values.length - 1 ∧
      (∀ k < cs.length, cs.getD k 0 = ∑ i ∈ Finset.range (k + 1), values.getD i 0 * values.getD (k - i) 0) ∧
      convolveExact unbounded values (2 ^ l) moduli = .ok cs ∧
      ((moduli.map Prod.fst).prod < 2 ^ 128 → convolveExact (checked 128) values (2 ^ l) moduli = .ok cs) ∧
      (values.sum ≠ 0 → ∀ spareBits, coefficientsOf values.length spareBits values = .ok cs) := by
  refine ⟨coefficients values, coefficients_length values, fun k hk => ?_, ?_, fun hfits => ?_,
    fun hsum spareBits => coefficientsOf_eq spareBits hsum⟩
  · rw [List.getD_eq_getElem _ _ hk]
    simp only [coefficients, List.getElem_map, List.getElem_range]
    rfl
  · exact convolveExact_eq hmoduli hnodup hne hlen hm hbound fun _ _ => rfl
  · exact convolveExact_eq hmoduli hnodup hne hlen hm hbound fun x hx => checked_eq (hx.trans_lt hfits)

theorem convolution_exact_sample : ∃ cs : List ℕ, cs.length = 2 * [2, 0, 5, 1].length - 1 ∧
    (∀ k < cs.length, cs.getD k 0 =
      ∑ i ∈ Finset.range (k + 1), [2, 0, 5, 1].getD i 0 * [2, 0, 5, 1].getD (k - i) 0) ∧
    convolveExact unbounded [2, 0, 5, 1] (2 ^ 3) C2Lower.moduli = .ok cs ∧
    ((C2Lower.moduli.map Prod.fst).prod < 2 ^ 128 →
      convolveExact (checked 128) [2, 0, 5, 1] (2 ^ 3) C2Lower.moduli = .ok cs) ∧
    ([2, 0, 5, 1].sum ≠ 0 → ∀ spareBits, coefficientsOf [2, 0, 5, 1].length spareBits [2, 0, 5, 1] = .ok cs) :=
  convolution_exact (m := 5) (modulus_common (by decide)) (by decide) (by decide) (by decide) (by decide)
    (by decide +kernel)

/-- On every admitted vector the guest and the verifier of C1 agree, and so do those of C2. -/
theorem autoconvolution_agree (values : List ℕ) (hsum : values.sum ≠ 0) :
    (values.length = C1Upper.N → (∀ v ∈ values, v ≤ C1Upper.maxValue) →
      ∃ score details evaluation, C1Upper.Agree values score details evaluation) ∧
    (values.length = C2Lower.N → (∀ v ∈ values, v ≤ C2Lower.maxValue) →
      ∃ score details evaluation, C2Lower.Agree values score details evaluation) :=
  ⟨fun hlen hmax => C1Upper.agree hlen hmax hsum, fun hlen hmax => C2Lower.agree hlen hmax hsum⟩

theorem autoconvolution_agree_constant :
    (∃ score details evaluation, C1Upper.Agree (List.replicate C1Upper.N 1) score details evaluation) ∧
    ∃ score details evaluation, C2Lower.Agree (List.replicate C2Lower.N 1) score details evaluation := by
  have hsum : ∀ n, n ≠ 0 → (List.replicate n 1).sum ≠ 0 := fun n hn => by
    rwa [List.sum_replicate, nsmul_one]
  have hmax : ∀ n m, 1 ≤ m → ∀ v ∈ List.replicate n 1, v ≤ m := fun n m hm v hv =>
    (List.eq_of_mem_replicate hv).trans_le hm
  exact ⟨(autoconvolution_agree _ (hsum C1Upper.N (by decide))).1 List.length_replicate (hmax _ _ (by decide)),
    (autoconvolution_agree _ (hsum C2Lower.N (by decide))).2 List.length_replicate (hmax _ _ (by decide))⟩

end

end P42Prizes.Autoconvolution
