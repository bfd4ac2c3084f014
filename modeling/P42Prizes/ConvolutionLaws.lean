import Mathlib.Data.List.GetD
import Mathlib.FieldTheory.Finite.Basic
import Mathlib.NumberTheory.LucasPrimality
import P42Prizes.Autoconvolution
import P42Prizes.ResidueDigits
import P42Prizes.RootTransforms

/-! # The transforms compute the convolution

The loop over the indices brings a vector into bit-reversed order, and each stage puts two blocks together,
so the transform of the guests is the transform at the powers of a root of unity modulo the prime.  Squaring
it and transforming back gives the coefficients modulo the prime.  The digits of the coefficients are then
exact, because the product of the primes exceeds every coefficient. -/

open Finset Polynomial

namespace P42Prizes.Autoconvolution

open Reverting RootTransform SignedDigits

/-! ### Modular arithmetic -/

section

variable {p g : ℕ}

theorem cast_mulMod (left right modulus : ℕ) :
    ((mulMod left right modulus : ℕ) : ZMod modulus) = left * right := by
  rw [mulMod, ZMod.natCast_mod, Nat.cast_mul]

theorem mulMod_lt (left right : ℕ) (hp : 0 < p) : mulMod left right p < p := Nat.mod_lt _ hp

theorem cast_modPowLoop {modulus rounds exponent : ℕ} (base result : ℕ) (h : exponent < 2 ^ rounds) :
    ((modPowLoop modulus rounds base exponent result : ℕ) : ZMod modulus) = result * base ^ exponent := by
  induction rounds generalizing base exponent result with
  | zero =>
      obtain rfl : exponent = 0 := by omega
      simp [modPowLoop]
  | succ rounds ih =>
      unfold modPowLoop
      split <;> rename_i hzero
      · rw [hzero, pow_zero, mul_one]
      · have hhalf : exponent / 2 < 2 ^ rounds := by omega
        have hsplit : (base : ZMod modulus) ^ exponent =
            (base * base) ^ (exponent / 2) * base ^ (exponent % 2) := by
          rw [← pow_two, ← pow_mul, ← pow_add, Nat.div_add_mod]
        rw [ih _ _ hhalf, cast_mulMod, hsplit]
        rcases Nat.mod_two_eq_zero_or_one exponent with heven | hodd
        · rw [heven, if_neg (by decide), pow_zero, mul_one]
        · rw [hodd, if_pos rfl, cast_mulMod, pow_one]
          ring

theorem cast_modPow {modulus exponent : ℕ} (base : ℕ) (h : exponent < 2 ^ 64) :
    ((modPow base exponent modulus : ℕ) : ZMod modulus) = base ^ exponent := by
  rw [modPow, cast_modPowLoop _ _ h, Nat.cast_one, one_mul]

theorem modPowLoop_lt {modulus : ℕ} (rounds base exponent : ℕ) {result : ℕ} (hresult : result < modulus) :
    modPowLoop modulus rounds base exponent result < modulus := by
  induction rounds generalizing base exponent result with
  | zero => exact hresult
  | succ rounds ih =>
      unfold modPowLoop
      split
      · exact hresult
      · refine ih _ _ ?_
        split
        · exact mulMod_lt _ _ (Nat.zero_lt_of_lt hresult)
        · exact hresult

/-- The powers that the code computes show that a modulus is prime and its root primitive. -/
theorem prime_of_powers (factors : List ℕ) (hp : 1 < p) (hbits : p ≤ 2 ^ 64)
    (hprimes : ∀ q ∈ factors, q.Prime) (hfactors : p - 1 ∣ factors.prod ^ 64) (hone : modPow g (p - 1) p = 1)
    (hne : ∀ q ∈ factors, modPow g ((p - 1) / q) p ≠ 1) :
    p.Prime ∧ IsPrimitiveRoot (g : ZMod p) (p - 1) := by
  have hpow : (g : ZMod p) ^ (p - 1) = 1 := by
    rw [← cast_modPow g (by omega), hone, Nat.cast_one]
  have hpow' : ∀ q : ℕ, q.Prime → q ∣ p - 1 → (g : ZMod p) ^ ((p - 1) / q) ≠ 1 := by
    intro q hq hdvd heq
    -- a prime that divides `p - 1` is one of the factors
    have hmem : q ∈ factors := by
      have hprod : q ∣ factors.prod := hq.dvd_of_dvd_pow (hdvd.trans hfactors)
      obtain ⟨r, hr, hqr⟩ := (Prime.dvd_prod_iff hq.prime).mp hprod
      rwa [(Nat.prime_dvd_prime_iff_eq hq (hprimes r hr)).mp hqr]
    refine hne q hmem ?_
    have hle : (p - 1) / q ≤ p - 1 := Nat.div_le_self _ _
    have hcast : ((modPow g ((p - 1) / q) p : ℕ) : ZMod p) = (1 : ℕ) := by
      rw [cast_modPow g (by omega), heq, Nat.cast_one]
    have hlt : modPow g ((p - 1) / q) p < p := modPowLoop_lt _ _ _ hp
    rwa [ZMod.natCast_eq_natCast_iff', Nat.mod_eq_of_lt hlt, Nat.mod_eq_of_lt hp] at hcast
  refine ⟨lucas_primality p g hpow hpow', ?_⟩
  rw [← orderOf_eq_of_pow_and_pow_div_prime (by omega) hpow hpow']
  exact IsPrimitiveRoot.orderOf _

end

/-! ### Bit-reversed order -/

theorem getD_set {values : List ℕ} {i k : ℕ} (a : ℕ) (hk : k < values.length) :
    (values.set i a).getD k 0 = if k = i then a else values.getD k 0 := by
  by_cases h : k = i
  · subst h
    rw [if_pos rfl, List.getD_eq_getElem _ _ (by rwa [List.length_set]), List.getElem_set_self]
  · rw [if_neg h, List.getD_eq_getElem _ _ (by rwa [List.length_set]), List.getElem_set_ne (Ne.symm h),
      List.getD_eq_getElem _ _ hk]

theorem swap_length (values : List ℕ) (i j : ℕ) : (swap values i j).length = values.length := by
  rw [swap, List.length_set, List.length_set]

theorem getD_swap {values : List ℕ} {i j k : ℕ} (hk : k < values.length) :
    (swap values i j).getD k 0 =
      if k = j then values.getD i 0 else if k = i then values.getD j 0 else values.getD k 0 := by
  rw [swap, getD_set _ (by rwa [List.length_set]), getD_set _ hk]

/-- The highest bit is set or cleared. -/
theorem xor_two_pow {r x : ℕ} (hx : x < 2 ^ r) : x ^^^ 2 ^ r = 2 ^ r + x := by
  refine Nat.eq_of_testBit_eq fun i => ?_
  rw [Nat.testBit_xor, Nat.testBit_two_pow]
  rcases lt_trichotomy i r with hlt | rfl | hgt
  · rw [Nat.testBit_two_pow_add_gt hlt, decide_eq_false hlt.ne', Bool.xor_false]
  · rw [Nat.testBit_two_pow_add_eq, decide_eq_true rfl, Bool.xor_true]
  · have hpow : 2 ^ (r + 1) ≤ 2 ^ i := Nat.pow_le_pow_right Nat.two_pos hgt
    rw [Nat.testBit_lt_two_pow (by omega), Nat.testBit_lt_two_pow (by omega), decide_eq_false hgt.ne,
      Bool.xor_false]

theorem and_two_pow_of_lt {r x : ℕ} (hx : x < 2 ^ r) : x &&& 2 ^ r = 0 := by
  refine Nat.eq_of_testBit_eq fun i => ?_
  rw [Nat.testBit_and, Nat.testBit_two_pow, Nat.zero_testBit]
  by_cases h : r = i
  · subst h
    rw [Nat.testBit_lt_two_pow hx, Bool.false_and]
  · rw [decide_eq_false h, Bool.and_false]

theorem and_two_pow_ne_zero {r x : ℕ} (hx : x < 2 ^ r) : (2 ^ r + x) &&& 2 ^ r ≠ 0 := by
  intro h
  have hbit := congrArg (Nat.testBit · r) h
  simp only [Nat.testBit_and, Nat.testBit_two_pow_add_eq, Nat.testBit_lt_two_pow hx, Nat.testBit_two_pow_self,
    Nat.zero_testBit] at hbit
  exact absurd hbit (by decide)

/-- The loop over the bits adds one in reversed order. -/
theorem nextIndex_bitReverse {r i : ℕ} (hi : i + 1 < 2 ^ (r + 1)) :
    nextIndex (bitReverse (r + 1) i) (2 ^ r) = bitReverse (r + 1) (i + 1) := by
  induction r generalizing i with
  | zero =>
      obtain rfl : i = 0 := by omega
      rw [nextIndex]
      rfl
  | succ r ih =>
      have hlow := bitReverse_lt (r + 1) (i / 2)
      rw [nextIndex]
      rcases Nat.even_or_odd' i with ⟨h, rfl | rfl⟩
      · -- an even index has no carry
        rw [Nat.mul_div_cancel_left h Nat.two_pos] at hlow
        rw [bitReverse_two_mul, bitReverse_two_mul_add_one, dif_neg (not_not.mpr (and_two_pow_of_lt hlow)),
          xor_two_pow hlow]
      · have hhalf : (2 * h + 1) / 2 = h := by omega
        have hnext : 2 * h + 1 + 1 = 2 * (h + 1) := by ring
        have hpow : 2 ^ (r + 1) / 2 = 2 ^ r := by omega
        rw [hhalf] at hlow
        rw [bitReverse_two_mul_add_one, dif_pos (and_two_pow_ne_zero hlow), ← xor_two_pow hlow,
          Nat.xor_xor_cancel_right, hpow, ih (by omega), hnext, bitReverse_two_mul]

/-- What the loop has done when it has come to an index. -/
theorem reorderStep_foldl {l : ℕ} {values : List ℕ} (hlength : values.length = 2 ^ l) {m : ℕ} (hm : m < 2 ^ l) :
    let state := (List.range' 1 m).foldl (reorderStep values.length) (values, 0)
    state.1.length = 2 ^ l ∧ state.2 = bitReverse l m ∧ ∀ k < 2 ^ l, state.1.getD k 0 =
      if k ≤ m ∨ bitReverse l k ≤ m then values.getD (bitReverse l k) 0 else values.getD k 0 := by
  induction m with
  | zero =>
      refine ⟨hlength, (bitReverse_zero l).symm, fun k hk => ?_⟩
      split <;> rename_i h
      · have hzero : k = 0 := by
          rcases h with h | h
          · exact Nat.le_zero.mp h
          · refine bitReverse_inj hk (Nat.two_pow_pos l) ?_
            rw [Nat.le_zero.mp h, bitReverse_zero]
        rw [hzero, bitReverse_zero]
        rfl
      · rfl
  | succ m ih =>
      obtain ⟨hlen, hindex, hcells⟩ := ih (Nat.lt_of_succ_lt hm)
      rw [List.range'_1_concat, List.foldl_append, List.foldl_cons, List.foldl_nil]
      generalize (List.range' 1 m).foldl (reorderStep values.length) (values, 0) = state at hlen hindex hcells
      obtain ⟨cells, j⟩ := state
      simp only at hlen hindex hcells
      have hl : ∃ r, l = r + 1 := ⟨l - 1, by
        have hpos : l ≠ 0 := by
          rintro rfl
          omega
        omega⟩
      obtain ⟨r, rfl⟩ := hl
      have hnext : nextIndex j (values.length / 2) = bitReverse (r + 1) (m + 1) := by
        rw [hindex, hlength, pow_succ, Nat.mul_div_cancel _ Nat.two_pos, nextIndex_bitReverse hm]
      have hlt := bitReverse_lt (r + 1) (m + 1)
      have hback := bitReverse_bitReverse hm
      have hone : 1 + m = m + 1 := Nat.add_comm 1 m
      unfold reorderStep
      simp only [hnext, hone]
      refine ⟨by split <;> [rw [swap_length, hlen]; exact hlen], trivial, fun k hk => ?_⟩
      have hrev : ∀ x, bitReverse (r + 1) k = x → k = bitReverse (r + 1) x := fun x hx => by
        rw [← hx, bitReverse_bitReverse hk]
      split <;> rename_i hij
      · rw [getD_swap (by rwa [hlen]), hcells _ hm, hcells _ hlt, hcells k hk, hback]
        by_cases hkj : k = bitReverse (r + 1) (m + 1)
        · subst hkj
          rw [if_pos rfl, hback, if_neg (by omega), if_pos (Or.inr le_rfl)]
        · by_cases hki : k = m + 1
          · subst hki
            rw [if_neg hkj, if_pos rfl, if_neg (by omega), if_pos (Or.inl le_rfl)]
          · have hne : bitReverse (r + 1) k ≠ m + 1 := fun h => hkj (hrev _ h)
            rw [if_neg hkj, if_neg hki]
            exact if_congr (by omega) rfl rfl
      · rw [hcells k hk]
        by_cases hki : k = m + 1
        · subst hki
          by_cases heq : bitReverse (r + 1) (m + 1) = m + 1
          · rw [heq, ite_self, ite_self]
          · exact if_congr (by omega) rfl rfl
        · by_cases hkj : k = bitReverse (r + 1) (m + 1)
          · subst hkj
            rw [hback]
            by_cases heq : bitReverse (r + 1) (m + 1) = m + 1
            · exact absurd heq hki
            · exact if_congr (by omega) rfl rfl
          · have hne : bitReverse (r + 1) k ≠ m + 1 := fun h => hkj (hrev _ h)
            exact if_congr (by omega) rfl rfl

theorem reorder_spec {l : ℕ} {values : List ℕ} (hlength : values.length = 2 ^ l) :
    (reorder values).length = 2 ^ l ∧
      ∀ k < 2 ^ l, (reorder values).getD k 0 = values.getD (bitReverse l k) 0 := by
  have hpos := Nat.two_pow_pos l
  have hlast : 2 ^ l - 1 < 2 ^ l := by omega
  obtain ⟨hlen, -, hcells⟩ := reorderStep_foldl hlength hlast
  unfold reorder
  rw [hlength] at hlen hcells ⊢
  refine ⟨hlen, fun k hk => ?_⟩
  rw [hcells k hk, if_pos (Or.inl (by omega))]

/-! ### Chunks -/

theorem flatMap_range_length {len m : ℕ} {f : ℕ → List ℕ} (hf : ∀ j < m, (f j).length = len) :
    ((List.range m).flatMap f).length = m * len := by
  induction m with
  | zero => rw [Nat.zero_mul]; rfl
  | succ m ih =>
      rw [List.range_succ, List.flatMap_append, List.length_append, ih fun j hj => hf j (Nat.lt_succ_of_lt hj),
        List.flatMap_singleton, hf m (Nat.lt_succ_self m), Nat.succ_mul]

theorem getD_flatMap_range {len m : ℕ} {f : ℕ → List ℕ} (hf : ∀ j < m, (f j).length = len) {j k : ℕ}
    (hj : j < m) (hk : k < len) : ((List.range m).flatMap f).getD (j * len + k) 0 = (f j).getD k 0 := by
  induction m with
  | zero => exact absurd hj (Nat.not_lt_zero j)
  | succ m ih =>
      have hlength := flatMap_range_length fun i (hi : i < m) => hf i (Nat.lt_succ_of_lt hi)
      rw [List.range_succ, List.flatMap_append, List.flatMap_singleton]
      rcases Nat.lt_or_eq_of_le (Nat.lt_succ_iff.mp hj) with hlt | rfl
      · have hbound : j * len + k < m * len :=
          calc j * len + k
            _ < (j + 1) * len := by rw [Nat.succ_mul]; omega
            _ ≤ m * len := Nat.mul_le_mul_right len hlt
        rw [List.getD_append _ _ _ _ (by rwa [hlength]), ih (fun i hi => hf i (Nat.lt_succ_of_lt hi)) hlt]
      · rw [List.getD_append_right _ _ _ _ (by rw [hlength]; omega), hlength, Nat.add_sub_cancel_left]

theorem getD_chunk (values : List ℕ) {len k : ℕ} (j : ℕ) (hk : k < len) :
    ((values.drop (j * len)).take len).getD k 0 = values.getD (j * len + k) 0 := by
  rw [List.getD_eq_getElem?_getD, List.getElem?_take_of_lt hk, List.getElem?_drop, List.getD_eq_getElem?_getD]

theorem chunk_length {values : List ℕ} {m len j : ℕ} (hlength : values.length = m * len) (hj : j < m) :
    ((values.drop (j * len)).take len).length = len := by
  have hle : (j + 1) * len ≤ m * len := Nat.mul_le_mul_right len hj
  rw [Nat.succ_mul] at hle
  rw [List.length_take, List.length_drop, hlength]
  omega

variable {f : List ℕ → List ℕ}

theorem mapChunks_spec {values : List ℕ} {m len : ℕ} (hlength : values.length = m * len) (hlen : 0 < len)
    (hf : ∀ chunk, chunk.length = len → (f chunk).length = len) :
    (mapChunks len f values).length = m * len ∧ ∀ j < m, ∀ k < len,
      (mapChunks len f values).getD (j * len + k) 0 = (f ((values.drop (j * len)).take len)).getD k 0 := by
  have hchunks : ∀ j < m, (f ((values.drop (j * len)).take len)).length = len := fun j hj =>
    hf _ (chunk_length hlength hj)
  have hdrop : values.drop (m * len) = [] := List.drop_eq_nil_of_le hlength.le
  unfold mapChunks
  rw [hlength, Nat.mul_div_cancel m hlen, hdrop, List.append_nil]
  exact ⟨flatMap_range_length hchunks, fun j hj k hk => getD_flatMap_range hchunks hj hk⟩

/-! ### Butterflies -/

section

variable {p : ℕ}

/-- A value as a residue. -/
def cell (p : ℕ) (values : List ℕ) (k : ℕ) : ZMod p := (values.getD k 0 : ℕ)

theorem cast_sub_mod {even odd : ℕ} (hodd : odd < p) :
    (((even + p - odd) % p : ℕ) : ZMod p) = even - odd := by
  rw [ZMod.natCast_mod, Nat.cast_sub (by omega), Nat.cast_add, ZMod.natCast_self, add_zero]

/-- What the loop over a chunk has done when it has come to an index. -/
theorem butterfly_foldl (root : ℕ) {half : ℕ} {chunk : List ℕ} (hp : 0 < p) (hlength : chunk.length = 2 * half)
    {m : ℕ} (hm : m ≤ half) :
    let state := (List.range m).foldl (butterfly p root half) (chunk, 1)
    state.1.length = 2 * half ∧ (state.2 : ZMod p) = root ^ m ∧ ∀ k < half,
      cell p state.1 k = cell p chunk k + (if k < m then root ^ k * cell p chunk (k + half) else 0) ∧
      cell p state.1 (k + half) =
        if k < m then cell p chunk k - root ^ k * cell p chunk (k + half) else cell p chunk (k + half) := by
  induction m with
  | zero =>
      refine ⟨hlength, by simp, fun k _ => ⟨?_, ?_⟩⟩
      · rw [if_neg (Nat.not_lt_zero k), add_zero]
        rfl
      · rw [if_neg (Nat.not_lt_zero k)]
        rfl
  | succ m ih =>
      obtain ⟨hlen, homega, hcells⟩ := ih (Nat.le_of_succ_le hm)
      rw [List.range_succ, List.foldl_append, List.foldl_cons, List.foldl_nil]
      generalize (List.range m).foldl (butterfly p root half) (chunk, 1) = state at hlen homega hcells
      obtain ⟨cells, omega⟩ := state
      simp only at hlen homega hcells
      obtain ⟨heven, hodd⟩ := hcells m hm
      rw [if_neg (lt_irrefl m), add_zero] at heven
      rw [if_neg (lt_irrefl m)] at hodd
      have hset : ∀ k < 2 * half, (butterfly p root half (cells, omega) m).1.getD k 0 =
          if k = m + half then (cells.getD m 0 + p - mulMod (cells.getD (m + half) 0) omega p) % p
          else if k = m then (cells.getD m 0 + mulMod (cells.getD (m + half) 0) omega p) % p
          else cells.getD k 0 := by
        intro k hk
        unfold butterfly
        rw [getD_set _ (by rw [List.length_set]; omega), getD_set _ (by omega)]
      have hproduct : ((mulMod (cells.getD (m + half) 0) omega p : ℕ) : ZMod p) =
          root ^ m * cell p chunk (m + half) := by
        rw [cast_mulMod, homega, mul_comm, ← hodd]
        rfl
      refine ⟨?_, ?_, fun k hk => ⟨?_, ?_⟩⟩
      · unfold butterfly
        simp only [List.length_set]
        exact hlen
      · unfold butterfly
        simp only []
        rw [cast_mulMod, homega, pow_succ]
      · unfold cell
        rw [hset k (by omega), if_neg (by omega)]
        split <;> rename_i hkm
        · subst hkm
          rw [if_pos (Nat.lt_succ_self k), ZMod.natCast_mod, Nat.cast_add, hproduct]
          exact congrArg (· + _) heven
        · have hiff : k < m + 1 ↔ k < m := by omega
          simp only [hiff]
          exact (hcells k hk).1
      · unfold cell
        rw [hset (k + half) (by omega)]
        split <;> rename_i hkm
        · obtain rfl : k = m := by omega
          rw [if_pos (Nat.lt_succ_self k), cast_sub_mod (mulMod_lt _ _ hp), hproduct]
          exact congrArg (· - _) heven
        · rw [if_neg (by omega)]
          have hiff : k < m + 1 ↔ k < m := by omega
          simp only [hiff]
          exact (hcells k hk).2

theorem butterflies_spec {root half : ℕ} {chunk : List ℕ} (hp : 0 < p) (hlength : chunk.length = 2 * half) :
    (butterflies p root (2 * half) chunk).length = 2 * half ∧ ∀ k < half,
      cell p (butterflies p root (2 * half) chunk) k = cell p chunk k + root ^ k * cell p chunk (k + half) ∧
      cell p (butterflies p root (2 * half) chunk) (k + half) =
        cell p chunk k - root ^ k * cell p chunk (k + half) := by
  obtain ⟨hlen, -, hcells⟩ := butterfly_foldl root hp hlength le_rfl
  unfold butterflies
  rw [Nat.mul_div_cancel_left half Nat.two_pos]
  refine ⟨hlen, fun k hk => ?_⟩
  obtain ⟨heven, hodd⟩ := hcells k hk
  rw [if_pos hk] at heven hodd
  exact ⟨heven, hodd⟩

/-! ### Stages -/

/-- After the stage of length `2 ^ r` every chunk holds the transform of a block; `2 ^ s` chunks are left. -/
structure Staged (p : ℕ) (values : List ℕ) (s r : ℕ) (ω : ZMod p) (b : ℕ → ZMod p) : Prop where
  length : values.length = 2 ^ s * 2 ^ r
  cells : ∀ j < 2 ^ s, ∀ k < 2 ^ r, cell p values (j * 2 ^ r + k) = block ω r b j k

variable {values : List ℕ} {s r : ℕ} {b : ℕ → ZMod p}

theorem Staged.stage {root : ℕ} {ω : ZMod p} (hp : 0 < p) (h : Staged p values (s + 1) r (ω ^ 2) b)
    (hroot : (root : ZMod p) = ω) (hω : ω ^ 2 ^ r = -1) :
    Staged p (mapChunks (2 ^ (r + 1)) (butterflies p root (2 ^ (r + 1))) values) s (r + 1) ω b := by
  have hhalf : 2 ^ (r + 1) = 2 * 2 ^ r := pow_succ' 2 r
  have hpos : 0 < 2 ^ (r + 1) := Nat.two_pow_pos _
  have hlength : values.length = 2 ^ s * 2 ^ (r + 1) := by
    rw [h.length, pow_succ, pow_succ]
    ring
  have hbutterflies : ∀ chunk : List ℕ, chunk.length = 2 ^ (r + 1) →
      (butterflies p root (2 ^ (r + 1)) chunk).length = 2 ^ (r + 1) := by
    intro chunk hchunk
    rw [hhalf] at hchunk ⊢
    exact (butterflies_spec hp hchunk).1
  obtain ⟨hlen, hchunks⟩ := mapChunks_spec hlength hpos hbutterflies
  refine ⟨hlen, fun j hj k hk => ?_⟩
  have hchunk := chunk_length hlength hj
  have hread : ∀ x < 2 ^ (r + 1), cell p ((values.drop (j * 2 ^ (r + 1))).take (2 ^ (r + 1))) x =
      cell p values (j * 2 ^ (r + 1) + x) := fun x hx => by
    unfold cell
    rw [getD_chunk values j hx]
  have hcell : cell p (mapChunks (2 ^ (r + 1)) (butterflies p root (2 ^ (r + 1))) values)
      (j * 2 ^ (r + 1) + k) = cell p (butterflies p root (2 ^ (r + 1))
        ((values.drop (j * 2 ^ (r + 1))).take (2 ^ (r + 1)))) k := by
    unfold cell
    rw [hchunks j hj k hk]
  -- the two halves of a chunk are two blocks of the stage before
  have hblock : ∀ x < 2 ^ r, cell p values (j * 2 ^ (r + 1) + x) = block (ω ^ 2) r b (2 * j) x ∧
      cell p values (j * 2 ^ (r + 1) + (x + 2 ^ r)) = block (ω ^ 2) r b (2 * j + 1) x := by
    intro x hx
    have hj' : 2 * j + 1 < 2 ^ (s + 1) := by
      rw [pow_succ]
      omega
    have hlow : j * 2 ^ (r + 1) + x = 2 * j * 2 ^ r + x := by
      rw [hhalf]
      ring
    have hhigh : j * 2 ^ (r + 1) + (x + 2 ^ r) = (2 * j + 1) * 2 ^ r + x := by
      rw [hhalf]
      ring
    rw [hlow, hhigh]
    exact ⟨h.cells (2 * j) (by omega) x hx, h.cells (2 * j + 1) hj' x hx⟩
  have hspec : ∀ x < 2 ^ r, cell p (butterflies p root (2 ^ (r + 1))
        ((values.drop (j * 2 ^ (r + 1))).take (2 ^ (r + 1)))) x =
      cell p values (j * 2 ^ (r + 1) + x) + ω ^ x * cell p values (j * 2 ^ (r + 1) + (x + 2 ^ r)) ∧
      cell p (butterflies p root (2 ^ (r + 1))
        ((values.drop (j * 2 ^ (r + 1))).take (2 ^ (r + 1)))) (x + 2 ^ r) =
      cell p values (j * 2 ^ (r + 1) + x) - ω ^ x * cell p values (j * 2 ^ (r + 1) + (x + 2 ^ r)) := by
    intro x hx
    rw [← hread x (by omega), ← hread (x + 2 ^ r) (by omega), ← hroot]
    rw [hhalf] at hchunk ⊢
    exact (butterflies_spec hp hchunk).2 x hx
  rw [hcell]
  rcases Nat.lt_or_ge k (2 ^ r) with hlow | hhigh
  · obtain ⟨heven, hodd⟩ := hblock k hlow
    rw [(hspec k hlow).1, heven, hodd, block_succ]
  · obtain ⟨x, rfl⟩ := Nat.exists_eq_add_of_le' hhigh
    have hx : x < 2 ^ r := by omega
    obtain ⟨heven, hodd⟩ := hblock x hx
    rw [(hspec x hx).2, heven, hodd, block_succ_add hω]

/-- The roots of the stages: each is the square of the next, and its last power before one is `-1`. -/
structure Roots (p : ℕ) (inverse : Bool) (g l : ℕ) (ω : ℕ → ZMod p) : Prop where
  square : ∀ i < l, ω (i + 1) ^ 2 = ω i
  half : ∀ i < l, ω (i + 1) ^ 2 ^ i = -1
  stage : ∀ i < l, (stageRoot inverse p g (2 ^ (i + 1)) : ZMod p) = ω (i + 1)

theorem Roots.run_stages {inverse : Bool} {g l : ℕ} {ω : ℕ → ZMod p} (hroots : Roots p inverse g l ω) (hp : 0 < p)
    (hl : r + s = l) (h : Staged p values s r (ω r) b) :
    Staged p (stages inverse p g (2 ^ l) (2 ^ (r + 1)) values) 0 l (ω l) b := by
  induction s generalizing values r with
  | zero =>
      obtain rfl : r = l := hl
      have hlarge : ¬ (0 < 2 ^ (r + 1) ∧ 2 ^ (r + 1) ≤ 2 ^ r) := fun hle =>
        absurd hle.2 (Nat.pow_lt_pow_right (by decide) (Nat.lt_succ_self r)).not_ge
      rw [Autoconvolution.stages, if_neg hlarge]
      exact h
  | succ s ih =>
      have hlt : r < l := by omega
      have hle : 0 < 2 ^ (r + 1) ∧ 2 ^ (r + 1) ≤ 2 ^ l :=
        ⟨Nat.two_pow_pos _, Nat.pow_le_pow_right Nat.two_pos hlt⟩
      rw [← hroots.square r hlt] at h
      have hnext := h.stage hp (hroots.stage r hlt) (hroots.half r hlt)
      rw [Autoconvolution.stages, if_pos hle, ← pow_succ']
      exact ih (by omega) hnext

/-- The stages turn values in bit-reversed order into their transform. -/
theorem Roots.stages_reorder {inverse : Bool} {g l : ℕ} {ω : ℕ → ZMod p} (hroots : Roots p inverse g l ω)
    (hp : 0 < p) (hlength : values.length = 2 ^ l) :
    (Autoconvolution.stages inverse p g (2 ^ l) 2 (reorder values)).length = 2 ^ l ∧
      ∀ k < 2 ^ l, cell p (Autoconvolution.stages inverse p g (2 ^ l) 2 (reorder values)) k =
        transform (ω l) (2 ^ l) (cell p values) k := by
  obtain ⟨hlen, hcells⟩ := reorder_spec hlength
  have hstart : Staged p (reorder values) l 0 (ω 0) fun i => cell p values (bitReverse l i) := by
    refine ⟨by rw [hlen, pow_zero, mul_one], fun j hj k hk => ?_⟩
    obtain rfl : k = 0 := by omega
    rw [block_zero, pow_zero, mul_one, add_zero]
    unfold cell
    rw [hcells j hj]
  have hend := hroots.run_stages hp (Nat.zero_add l) hstart
  rw [Nat.zero_add, pow_one] at hend
  refine ⟨by rw [hend.length, pow_zero, one_mul], fun k hk => ?_⟩
  have hcell := hend.cells 0 (Nat.two_pow_pos 0) k hk
  rwa [Nat.zero_mul, Nat.zero_add, block_bitReverse] at hcell

end

/-! ### Transforms and their inverses -/

/-- A prime that has transforms of length `2 ^ l`, with a primitive root. -/
structure Modulus (l p g : ℕ) : Prop where
  prime : p.Prime
  primitive : IsPrimitiveRoot (g : ZMod p) (p - 1)
  length : 2 ^ l ∣ p - 1
  bits : p < 2 ^ 32

/-- The root of the stage of length `2 ^ i`. -/
def stageOmega (p g i : ℕ) : ZMod p := (g : ZMod p) ^ ((p - 1) / 2 ^ i)

namespace Modulus

variable {l p g : ℕ} {values : List ℕ}

theorem pred_pos (h : Modulus l p g) : 0 < p - 1 := Nat.sub_pos_of_lt h.prime.one_lt

theorem length_lt (h : Modulus l p g) : 2 ^ l < p := by
  have hle := Nat.le_of_dvd h.pred_pos h.length
  have hpos := h.pred_pos
  omega

theorem stageOmega_sq (h : Modulus l p g) {i : ℕ} (hi : i < l) :
    stageOmega p g (i + 1) ^ 2 = stageOmega p g i := by
  obtain ⟨m, hm⟩ : 2 ^ (i + 1) ∣ p - 1 := (pow_dvd_pow 2 hi).trans h.length
  have hhigh : (p - 1) / 2 ^ (i + 1) = m := by
    rw [hm, Nat.mul_div_cancel_left _ (Nat.two_pow_pos _)]
  have hlow : (p - 1) / 2 ^ i = m * 2 := by
    rw [hm, pow_succ, Nat.mul_assoc, Nat.mul_div_cancel_left _ (Nat.two_pow_pos _), Nat.mul_comm]
  rw [stageOmega, stageOmega, hhigh, hlow, pow_mul]

theorem stageOmega_primitive (h : Modulus l p g) {i : ℕ} (hi : i ≤ l) :
    IsPrimitiveRoot (stageOmega p g i) (2 ^ i) :=
  h.primitive.pow h.pred_pos (Nat.div_mul_cancel ((pow_dvd_pow 2 hi).trans h.length)).symm

section

variable [Fact p.Prime]

/-- The power that the code takes for the inverse. -/
theorem pow_sub_two {x : ZMod p} (hx : x ≠ 0) : x ^ (p - 2) = x⁻¹ := by
  have htwo := (Fact.out : p.Prime).two_le
  refine eq_inv_of_mul_eq_one_left ?_
  rw [← pow_succ, ← ZMod.pow_card_sub_one_eq_one hx]
  congr 1
  omega

theorem cast_inverse (h : Modulus l p g) {x : ℕ} (hx : (x : ZMod p) ≠ 0) :
    ((modPow x (p - 2) p : ℕ) : ZMod p) = (x : ZMod p)⁻¹ := by
  have hbits := h.bits
  rw [cast_modPow x (by omega), pow_sub_two hx]

theorem stageOmega_ne_zero (h : Modulus l p g) {i : ℕ} (hi : i ≤ l) : stageOmega p g i ≠ 0 :=
  (h.stageOmega_primitive hi).ne_zero (Nat.two_pow_pos i).ne'

theorem roots (h : Modulus l p g) : Roots p false g l (stageOmega p g) where
  square _ hi := h.stageOmega_sq hi
  half _ hi := pow_half_eq_neg_one (h.stageOmega_primitive hi)
  stage i _ := by
    have hle : (p - 1) / 2 ^ (i + 1) ≤ p - 1 := Nat.div_le_self _ _
    have hbits := h.bits
    rw [stageRoot, if_neg (by decide), cast_modPow g (by omega), stageOmega]

theorem inverse_roots (h : Modulus l p g) : Roots p true g l fun i => (stageOmega p g i)⁻¹ where
  square _ hi := by rw [inv_pow, h.stageOmega_sq hi]
  half _ hi := pow_half_eq_neg_one (h.stageOmega_primitive hi).inv
  stage i hi := by
    have hroot : ((modPow g ((p - 1) / 2 ^ (i + 1)) p : ℕ) : ZMod p) = stageOmega p g (i + 1) :=
      h.roots.stage i hi
    have hne : ((modPow g ((p - 1) / 2 ^ (i + 1)) p : ℕ) : ZMod p) ≠ 0 := by
      rw [hroot]
      exact h.stageOmega_ne_zero hi
    rw [stageRoot, if_pos rfl, h.cast_inverse hne, hroot]

theorem ntt_spec (h : Modulus l p g) (hlength : values.length = 2 ^ l) :
    (ntt false p g values).length = 2 ^ l ∧ ∀ k < 2 ^ l,
      cell p (ntt false p g values) k = transform (stageOmega p g l) (2 ^ l) (cell p values) k := by
  have hspec := h.roots.stages_reorder h.prime.pos hlength
  rw [ntt, hlength, if_neg (by decide)]
  exact hspec

theorem ntt_inverse_spec (h : Modulus l p g) (hlength : values.length = 2 ^ l) :
    (ntt true p g values).length = 2 ^ l ∧ ∀ k < 2 ^ l, (ntt true p g values).getD k 0 < p ∧
      cell p (ntt true p g values) k =
        ((2 ^ l : ℕ) : ZMod p)⁻¹ * transform (stageOmega p g l)⁻¹ (2 ^ l) (cell p values) k := by
  obtain ⟨hlen, hcells⟩ := h.inverse_roots.stages_reorder h.prime.pos hlength
  have hlt := h.length_lt
  have hbits := h.bits
  have hmod : 2 ^ l % 2 ^ 32 = 2 ^ l := Nat.mod_eq_of_lt (by omega)
  have hne : ((2 ^ l : ℕ) : ZMod p) ≠ 0 := by
    rw [ne_eq, ZMod.natCast_eq_zero_iff]
    exact fun hdvd => absurd (Nat.le_of_dvd (Nat.two_pow_pos l) hdvd) hlt.not_ge
  rw [ntt, hlength, if_pos rfl, hmod]
  refine ⟨by rw [List.length_map, hlen], fun k hk => ?_⟩
  have hget : ((stages true p g (2 ^ l) 2 (reorder values)).map fun value =>
      mulMod value (modPow (2 ^ l) (p - 2) p) p).getD k 0 =
        mulMod ((stages true p g (2 ^ l) 2 (reorder values)).getD k 0) (modPow (2 ^ l) (p - 2) p) p := by
    rw [List.getD_eq_getElem _ _ (by rwa [List.length_map, hlen]), List.getElem_map,
      ← List.getD_eq_getElem _ 0 (by rwa [hlen])]
  unfold cell
  rw [hget, cast_mulMod, h.cast_inverse hne, mul_comm]
  exact ⟨mulMod_lt _ _ h.prime.pos, congrArg (_ * ·) (hcells k hk)⟩

end

end Modulus

/-! ### Coefficients modulo a prime -/

/-- The coefficient of a power in the square of the polynomial with the entries `values`. -/
def convolution (values : List ℕ) (k : ℕ) : ℕ :=
  ∑ i ∈ range (k + 1), values.getD i 0 * values.getD (k - i) 0

theorem getD_map_cast (values : List ℕ) (i : ℕ) :
    (values.map (Nat.cast : ℕ → ℤ)).getD i 0 = (values.getD i 0 : ℕ) := by
  have hget := List.getD_map values 0 (Nat.cast : ℕ → ℤ) (n := i)
  rwa [Nat.cast_zero] at hget

theorem cast_convolution (values : List ℕ) (k : ℕ) :
    (convolution values k : ℤ) = autoconvolution (values.map Nat.cast) k := by
  unfold convolution autoconvolution
  push_cast
  simp only [getD_map_cast]

/-- The polynomial with the entries as coefficients, modulo `p`. -/
noncomputable def residuePoly (p : ℕ) (values : List ℕ) : (ZMod p)[X] :=
  (poly (values.map Nat.cast)).map (Int.castRingHom (ZMod p))

section

variable {l p g : ℕ} {values : List ℕ}

theorem coeff_residuePoly (p : ℕ) (values : List ℕ) (k : ℕ) :
    (residuePoly p values).coeff k = cell p values k := by
  rw [residuePoly, coeff_map, coeff_poly, getD_map_cast, cell]
  simp

theorem coeff_residuePoly_mul (p : ℕ) (values : List ℕ) (k : ℕ) :
    (residuePoly p values * residuePoly p values).coeff k = (convolution values k : ℕ) := by
  rw [residuePoly, ← Polynomial.map_mul, coeff_map, coeff_poly_mul_self, ← cast_convolution]
  simp

theorem natDegree_residuePoly (p : ℕ) (values : List ℕ) :
    (residuePoly p values).natDegree ≤ values.length - 1 := by
  refine natDegree_map_le.trans ((natDegree_poly_le _).trans ?_)
  rw [List.length_map]

/-- The transform there and back gives the coefficients modulo the prime. -/
theorem residues_spec (h : Modulus l p g) (hne : values ≠ []) (hlen : 2 * values.length - 1 ≤ 2 ^ l) :
    (residues values (2 ^ l) p g).length = 2 ^ l ∧
      ∀ k < 2 ^ l, (residues values (2 ^ l) p g).getD k 0 = convolution values k % p := by
  have : Fact p.Prime := ⟨h.prime⟩
  have hpos : 0 < values.length := List.length_pos_of_ne_nil hne
  let n := 2 ^ l
  let P := residuePoly p values
  have hdegree : P.natDegree < n := by
    have hle : P.natDegree ≤ _ := natDegree_residuePoly p values
    omega
  have hdegree' : (P * P).natDegree < n := by
    have hle : P.natDegree ≤ _ := natDegree_residuePoly p values
    have hmul := natDegree_mul_le (p := P) (q := P)
    omega
  -- the padded input
  obtain ⟨input, hinput⟩ : ∃ input, input = values.map (· % p) ++ List.replicate (n - values.length) 0 :=
    ⟨_, rfl⟩
  have hinputLength : input.length = n := by
    rw [hinput, List.length_append, List.length_map, List.length_replicate]
    omega
  have hinputCells : ∀ k < n, cell p input k = P.coeff k := by
    intro k hk
    rw [coeff_residuePoly, cell, cell, hinput]
    rcases Nat.lt_or_ge k values.length with hlt | hge
    · rw [List.getD_append _ _ _ _ (by rwa [List.length_map]),
        List.getD_eq_getElem _ _ (by rwa [List.length_map]), List.getElem_map, ZMod.natCast_mod,
        List.getD_eq_getElem _ _ hlt]
    · rw [List.getD_append_right _ _ _ _ (by rwa [List.length_map]), List.getD_eq_default _ _ hge,
        List.length_map, List.getD_replicate]
      omega
  obtain ⟨hforward, hcells⟩ := h.ntt_spec hinputLength
  -- the squares are the transform of the square
  obtain ⟨squared, hsquared⟩ : ∃ squared, squared = (ntt false p g input).map fun value => mulMod value value p :=
    ⟨_, rfl⟩
  have hsquaredLength : squared.length = n := by rw [hsquared, List.length_map, hforward]
  have hsquaredCells : ∀ k < n, cell p squared k = transform (stageOmega p g l) n (P * P).coeff k := by
    intro k hk
    have hcell : cell p (ntt false p g input) k = transform (stageOmega p g l) n P.coeff k := by
      rw [hcells k hk]
      exact transform_congr hinputCells k
    rw [← transform_coeff_mul hdegree hdegree hdegree', ← hcell, hsquared]
    unfold cell
    rw [List.getD_eq_getElem _ _ (by rwa [List.length_map, hforward]), List.getElem_map, cast_mulMod,
      ← List.getD_eq_getElem _ 0 (by rwa [hforward])]
  obtain ⟨hbackward, hback⟩ := h.ntt_inverse_spec hsquaredLength
  have hresidues : residues values (2 ^ l) p g = ntt true p g squared := by
    rw [residues, ← hinput, ← hsquared]
  rw [hresidues]
  refine ⟨hbackward, fun k hk => ?_⟩
  obtain ⟨hlt, hcell⟩ := hback k hk
  have hn : ((2 ^ l : ℕ) : ZMod p) ≠ 0 := by
    rw [ne_eq, ZMod.natCast_eq_zero_iff]
    exact fun hdvd => absurd (Nat.le_of_dvd (Nat.two_pow_pos l) hdvd) h.length_lt.not_ge
  rw [transform_congr hsquaredCells, transform_inv (h.stageOmega_primitive le_rfl) _ hk,
    coeff_residuePoly_mul, inv_mul_cancel_left₀ hn, cell, ZMod.natCast_eq_natCast_iff'] at hcell
  rwa [Nat.mod_eq_of_lt hlt] at hcell

end

/-! ### The digits of the coefficients -/

section

variable {l p g product : ℕ} {values : List ℕ} {fit : ℕ → Except VerifyError ℕ}

theorem inverse_modEq (h : Modulus l p g) (hcoprime : Nat.Coprime product p) :
    product * modPow (product % p) (p - 2) p ≡ 1 [MOD p] := by
  have : Fact p.Prime := ⟨h.prime⟩
  have hne : (product : ZMod p) ≠ 0 := by
    rw [ne_eq, ZMod.natCast_eq_zero_iff]
    exact fun hdvd => h.prime.one_lt.ne' (Nat.Coprime.eq_one_of_dvd hcoprime.symm hdvd)
  have hne' : ((product % p : ℕ) : ZMod p) ≠ 0 := by rwa [ZMod.natCast_mod]
  rw [← ZMod.natCast_eq_natCast_iff, Nat.cast_mul, h.cast_inverse hne', ZMod.natCast_mod,
    mul_inv_cancel₀ hne, Nat.cast_one]

theorem addDigit_eq (h : Modulus l p g) (hpos : 0 < product) (hcoprime : Nat.Coprime product p)
    (hfit : ∀ x ≤ product * p, fit x = .ok x) (c : ℕ) :
    addDigit fit p product (modPow (product % p) (p - 2) p) (c % product) (c % p) = .ok (c % (product * p)) := by
  have hdigit := ResidueDigits.next_digit c h.prime.pos (inverse_modEq h hcoprime)
  have hlt : mulMod ((c % p + p - c % product % p) % p) (modPow (product % p) (p - 2) p) p < p :=
    mulMod_lt _ _ h.prime.pos
  have hsum : c % (product * p) < product * p := Nat.mod_lt _ (Nat.mul_pos hpos h.prime.pos)
  unfold addDigit
  simp only [bind_eq_ok]
  refine ⟨_, hfit _ (Nat.mul_le_mul_left product hlt.le), ?_⟩
  unfold mulMod
  rw [hdigit]
  exact hfit _ hsum.le

theorem mapM_eq_ok_of {ε α β : Type} {f : α → Except ε β} {g : α → β} {as : List α}
    (h : ∀ a ∈ as, f a = .ok (g a)) : as.mapM f = .ok (as.map g) := by
  induction as with
  | nil => rfl
  | cons a as ih =>
      rw [List.mapM_cons, h a List.mem_cons_self, ih fun b hb => h b (List.mem_cons_of_mem a hb)]
      rfl

/-- The coefficients as far as they are known from the moduli with this product. -/
def known (values : List ℕ) (product : ℕ) : List ℕ :=
  (List.range (2 * values.length - 1)).map fun k => convolution values k % product

theorem convolveStep_eq (h : Modulus l p g) (hne : values ≠ []) (hlen : 2 * values.length - 1 ≤ 2 ^ l)
    (hpos : 0 < product) (hcoprime : Nat.Coprime product p) (hfit : ∀ x ≤ product * p, fit x = .ok x) :
    convolveStep fit values (2 ^ l) (known values product, product) (p, g) =
      .ok (known values (product * p), product * p) := by
  obtain ⟨hlength, hresidues⟩ := residues_spec h hne hlen
  have hzip : (known values product).zip (residues values (2 ^ l) p g) =
      (List.range (2 * values.length - 1)).map fun k =>
        (convolution values k % product, convolution values k % p) := by
    refine List.ext_getElem ?_ fun k hk hk' => ?_
    · rw [List.length_zip, known, List.length_map, List.length_range, List.length_map, List.length_range, hlength]
      omega
    · rw [List.length_map, List.length_range] at hk'
      have hget := hresidues k (by omega)
      rw [List.getD_eq_getElem _ _ (by omega)] at hget
      simp only [List.getElem_zip, known, List.getElem_map, List.getElem_range, hget]
  have hdigits : ((known values product).zip (residues values (2 ^ l) p g)).mapM (fun pair =>
      addDigit fit p product (modPow (product % p) (p - 2) p) pair.1 pair.2) =
        .ok (known values (product * p)) := by
    rw [hzip, List.mapM_map]
    exact mapM_eq_ok_of fun k _ => addDigit_eq h hpos hcoprime hfit _
  unfold convolveStep
  simp only [bind_eq_ok, pure_eq_ok]
  exact ⟨_, hdigits, _, hfit _ le_rfl, rfl⟩

theorem foldlM_convolveStep {moduli : List (ℕ × ℕ)} (hmoduli : ∀ entry ∈ moduli, Modulus l entry.1 entry.2)
    (hnodup : (moduli.map Prod.fst).Nodup) (hne : values ≠ []) (hlen : 2 * values.length - 1 ≤ 2 ^ l)
    (hpos : 0 < product) (hcoprime : ∀ entry ∈ moduli, Nat.Coprime product entry.1)
    (hfit : ∀ x ≤ product * (moduli.map Prod.fst).prod, fit x = .ok x) :
    moduli.foldlM (convolveStep fit values (2 ^ l)) (known values product, product) =
      .ok (known values (product * (moduli.map Prod.fst).prod), product * (moduli.map Prod.fst).prod) := by
  induction moduli generalizing product with
  | nil => rw [List.map_nil, List.prod_nil, Nat.mul_one]; rfl
  | cons entry moduli ih =>
      obtain ⟨p, g⟩ := entry
      have h : Modulus l p g := hmoduli _ List.mem_cons_self
      rw [List.map_cons, List.nodup_cons] at hnodup
      rw [List.map_cons, List.prod_cons, ← Nat.mul_assoc] at hfit ⊢
      have hrest : 0 < (moduli.map Prod.fst).prod := by
        refine List.prod_pos fun q hq => ?_
        obtain ⟨entry, hentry, rfl⟩ := List.mem_map.mp hq
        exact (hmoduli entry (List.mem_cons_of_mem _ hentry)).prime.pos
      have hfit' : ∀ x ≤ product * p, fit x = .ok x := fun x hx =>
        hfit x (hx.trans (Nat.le_mul_of_pos_right _ hrest))
      have hstep := convolveStep_eq h hne hlen hpos (hcoprime _ List.mem_cons_self) hfit'
      rw [List.foldlM_cons, hstep]
      refine ih (fun e he => hmoduli e (List.mem_cons_of_mem _ he)) hnodup.2 (Nat.mul_pos hpos h.prime.pos) ?_ hfit
      intro e he
      refine (hcoprime e (List.mem_cons_of_mem _ he)).mul_left ?_
      rw [Nat.coprime_primes h.prime (hmoduli e (List.mem_cons_of_mem _ he)).prime]
      exact fun heq => hnodup.1 (List.mem_map.mpr ⟨e, he, heq.symm⟩)

/-- The coefficients of the convolution. -/
def coefficients (values : List ℕ) : List ℕ := (List.range (2 * values.length - 1)).map (convolution values)

theorem convolution_le {m : ℕ} (hm : ∀ v ∈ values, v ≤ m) (k : ℕ) :
    convolution values k ≤ values.length * (m * m) := by
  have habs : ∀ x ∈ values.map (Nat.cast : ℕ → ℤ), |x| ≤ (m : ℤ) := by
    intro x hx
    obtain ⟨v, hv, rfl⟩ := List.mem_map.mp hx
    rw [abs_of_nonneg (Int.natCast_nonneg v)]
    exact_mod_cast hm v hv
  have hle := (le_abs_self _).trans (abs_autoconvolution_le habs k)
  rw [← cast_convolution, List.length_map] at hle
  exact_mod_cast hle

/-- With distinct primes whose product exceeds every coefficient `convolve_exact` is exact. -/
theorem convolveExact_eq {moduli : List (ℕ × ℕ)} {m : ℕ}
    (hmoduli : ∀ entry ∈ moduli, Modulus l entry.1 entry.2) (hnodup : (moduli.map Prod.fst).Nodup)
    (hne : values ≠ []) (hlen : 2 * values.length - 1 ≤ 2 ^ l) (hm : ∀ v ∈ values, v ≤ m)
    (hbound : values.length * (m * m) < (moduli.map Prod.fst).prod)
    (hfit : ∀ x ≤ (moduli.map Prod.fst).prod, fit x = .ok x) :
    convolveExact fit values (2 ^ l) moduli = .ok (coefficients values) := by
  have hstart : List.replicate (2 * values.length - 1) 0 = known values 1 := by
    refine List.ext_getElem (by simp [known]) fun k hk hk' => ?_
    simp only [known, List.getElem_replicate, List.getElem_map, Nat.mod_one]
  have hend : known values (moduli.map Prod.fst).prod = coefficients values := by
    refine List.map_congr_left fun k _ => Nat.mod_eq_of_lt ((convolution_le hm k).trans_lt hbound)
  have hfit' : ∀ x ≤ 1 * (moduli.map Prod.fst).prod, fit x = .ok x := by rwa [Nat.one_mul]
  have hfold := foldlM_convolveStep hmoduli hnodup hne hlen Nat.one_pos
    (fun _ _ => Nat.coprime_one_left _) hfit'
  rw [Nat.one_mul, hend, ← hstart] at hfold
  unfold convolveExact
  simp only [bind_eq_ok, revertIf_eq_ok, pure_eq_ok, exists_const]
  refine ⟨?_, _, hfold, rfl⟩
  rw [not_or, not_not, not_lt]
  exact ⟨hlen, by rw [Nat.log2_two_pow]⟩

end

end P42Prizes.Autoconvolution
