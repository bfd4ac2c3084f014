import P42Prizes.SignedPacking

/-! # The signed packing is exact

Packing a vector gives its value in the base of a slot, and squaring that value gives the value of the
autoconvolution.  A slot has room for twice the largest coefficient and a sign, so `unpack_signed` finds
the coefficients, and the borrow of the last one is zero because a square is not negative. -/

namespace P42Prizes.SignedAutoconvolution

open Reverting Verifier SignedDigits

/-! ### Bytes -/

theorem pow_eight (k : ℕ) : 2 ^ (8 * k) = 256 ^ k := by
  rw [pow_mul]
  rfl

theorem lt_pow_usedBytes (value : ℕ) : value < 256 ^ usedBytes value := by
  rw [← pow_eight]
  refine (Nat.lt_size_self value).trans_le (Nat.pow_le_pow_right Nat.two_pos ?_)
  unfold usedBytes
  omega

theorem usedBytes_le {value k : ℕ} (h : value < 256 ^ k) : usedBytes value ≤ k := by
  rw [← pow_eight, ← Nat.size_le] at h
  unfold usedBytes
  omega

theorem toBytes_length {value length : ℕ} (h : value < 256 ^ length) :
    (toBytes value length).length = length := by
  have hle := (Nat.digits_length_le_iff (by decide : 1 < 256) value).mpr h
  rw [toBytes, List.length_append, List.length_replicate]
  omega

theorem fromBytes_toBytes (value length : ℕ) : fromBytes (toBytes value length) = value := by
  rw [fromBytes, toBytes, Nat.ofDigits_append_replicate_zero, Nat.ofDigits_digits]

theorem toBytes_lt {value length b : ℕ} (h : b ∈ toBytes value length) : b < 256 := by
  rcases List.mem_append.mp h with h | h
  · exact Nat.digits_lt_base (by decide) h
  · rw [List.eq_of_mem_replicate h]
    decide

/-- The bytes of one slot are the digit of that slot. -/
theorem fromBytes_slot {raw : List ℕ} (hraw : ∀ b ∈ raw, b < 256) (slotBytes index : ℕ) :
    fromBytes ((raw.take ((index + 1) * slotBytes)).drop (index * slotBytes)) =
      fromBytes raw / (256 ^ slotBytes) ^ index % 256 ^ slotBytes := by
  have htake : ∀ b ∈ raw.take ((index + 1) * slotBytes), b < 256 :=
    fun b hb => hraw b (List.mem_of_mem_take hb)
  rw [fromBytes, ← Nat.ofDigits_div_pow_eq_ofDigits_drop _ (by decide) _ htake,
    ← Nat.ofDigits_mod_pow_eq_ofDigits_take _ (by decide) _ hraw, fromBytes, ← pow_mul, Nat.mul_comm slotBytes,
    Nat.add_mul, Nat.one_mul, pow_add, Nat.mod_mul_right_div_self]

/-! ### Packing -/

/-- The slots from an index on are filled with the values, below them the buffer is kept. -/
theorem fromBytes_fillSlots {slotBytes : ℕ} {values : List ℕ} (hvalues : ∀ v ∈ values, v < 256 ^ slotBytes)
    {index : ℕ} {filled : List ℕ} (hfilled : filled.length = index * slotBytes) :
    fromBytes (fillSlots slotBytes index values (filled ++ List.replicate (slotBytes * values.length) 0)) =
      fromBytes filled + (256 ^ slotBytes) ^ index * Nat.ofDigits (256 ^ slotBytes) values := by
  induction values generalizing index filled with
  | nil => simp [fillSlots, Nat.ofDigits]
  | cons value values ih =>
      have hlt := hvalues value List.mem_cons_self
      have hle := usedBytes_le hlt
      have hused := toBytes_length (lt_pow_usedBytes value)
      -- the slot holds the value, padded with zeros
      let slot := toBytes value (usedBytes value) ++ List.replicate (slotBytes - usedBytes value) 0
      have hslot : fromBytes slot = value := by
        show Nat.ofDigits 256 (toBytes value (usedBytes value) ++ _) = value
        rw [Nat.ofDigits_append_replicate_zero]
        exact fromBytes_toBytes value _
      have hslotLength : slot.length = slotBytes := by
        show (toBytes value (usedBytes value) ++ _).length = slotBytes
        rw [List.length_append, hused, List.length_replicate]
        omega
      have hlength : slotBytes * (values.length + 1) =
          usedBytes value + (slotBytes - usedBytes value + slotBytes * values.length) := by
        rw [Nat.mul_succ]
        omega
      have hbuffer : (if value ≠ 0 then
          setSlice (filled ++ List.replicate (slotBytes * (values.length + 1)) 0) (index * slotBytes)
            (index * slotBytes + usedBytes value) (toBytes value (usedBytes value))
          else filled ++ List.replicate (slotBytes * (values.length + 1)) 0) =
          filled ++ slot ++ List.replicate (slotBytes * values.length) 0 := by
        split
        · rw [setSlice, ← hfilled, List.take_left', List.drop_append, List.drop_eq_nil_of_le (by omega),
            hlength, Nat.add_sub_cancel_left, List.drop_replicate, Nat.add_sub_cancel_left, List.nil_append,
            ← List.replicate_append_replicate]
          · simp only [slot, List.append_assoc]
          · rfl
        · next hzero =>
            obtain rfl := not_not.mp hzero
            have hslotZero : slot = List.replicate slotBytes 0 := by
              simp [slot, toBytes, usedBytes]
            rw [hslotZero, List.append_assoc, List.replicate_append_replicate, Nat.mul_succ, Nat.add_comm]
      have hnext : (filled ++ slot).length = (index + 1) * slotBytes := by
        rw [List.length_append, hfilled, hslotLength, Nat.add_mul, Nat.one_mul]
      rw [fillSlots, List.length_cons, hbuffer, ih (fun v hv => hvalues v (List.mem_cons_of_mem _ hv)) hnext,
        Nat.ofDigits_cons]
      have happend : fromBytes (filled ++ slot) =
          fromBytes filled + (256 ^ slotBytes) ^ index * value := by
        rw [fromBytes, Nat.ofDigits_append, hfilled, Nat.mul_comm index, pow_mul]
        exact congrArg (fun x => fromBytes filled + (256 ^ slotBytes) ^ index * x) hslot
      rw [happend, pow_succ]
      ring

theorem packNonnegative_eq {slotBytes : ℕ} {values : List ℕ} (h : ∀ v ∈ values, v < 256 ^ slotBytes) :
    packNonnegative values slotBytes = Nat.ofDigits (256 ^ slotBytes) values := by
  have hfill := fromBytes_fillSlots h (show ([] : List ℕ).length = 0 * slotBytes from (Nat.zero_mul _).symm)
  rw [List.nil_append] at hfill
  rw [packNonnegative, hfill]
  simp [fromBytes, Nat.ofDigits]

theorem horner_natCast (b : ℕ) (values : List ℕ) :
    horner b (values.map fun v : ℕ => (v : ℤ)) = (Nat.ofDigits b values : ℕ) := by
  induction values with
  | nil => rfl
  | cons v values ih =>
      rw [List.map_cons, horner, ih, Nat.ofDigits_cons]
      push_cast
      rfl

theorem packSigned_eq {slotBytes : ℕ} {values : List ℤ} (h : ∀ v ∈ values, |v| < 256 ^ slotBytes) :
    packSigned values slotBytes = horner (256 ^ slotBytes) values := by
  have hbase : ((256 ^ slotBytes : ℕ) : ℤ) = 256 ^ slotBytes := by push_cast; rfl
  have hpart : ∀ f : ℤ → ℕ, (∀ v, (f v : ℤ) ≤ |v|) →
      ((packNonnegative (values.map f) slotBytes : ℕ) : ℤ) =
        horner (256 ^ slotBytes) (values.map fun v => (f v : ℤ)) := by
    intro f hf
    rw [packNonnegative_eq, ← horner_natCast, hbase, List.map_map]
    · rfl
    · intro w hw
      obtain ⟨v, hv, rfl⟩ := List.mem_map.mp hw
      exact_mod_cast (hf v).trans_lt (h v hv)
  simp only [packSigned]
  rw [hpart, hpart, horner_map_sub]
  · have hparts : ∀ v : ℤ, ((if v > 0 then v.toNat else 0 : ℕ) : ℤ) -
        (if v < 0 then (-v).toNat else 0 : ℕ) = v := by
      intro v
      split_ifs <;> omega
    simp only [hparts, List.map_id']
  · intro v
    have hneg := neg_le_abs v
    have hnonneg := abs_nonneg v
    split_ifs <;> omega
  · intro v
    have hself := le_abs_self v
    have hnonneg := abs_nonneg v
    split_ifs <;> omega

/-! ### Unpacking -/

theorem balanceLoop_eq (base : ℤ) (ds : List ℤ) (carry : ℤ) :
    balanceLoop base carry ds = balance base carry ds := by
  induction ds generalizing carry with
  | nil => rfl
  | cons d ds ih => simp only [balanceLoop, balance, ih]

theorem digits_eq_range (b : ℕ) (n z : ℕ) :
    SignedDigits.digits b n z = (List.range n).map fun index => ((z / b ^ index % b : ℕ) : ℤ) := by
  induction n generalizing z with
  | zero => rfl
  | succ n ih =>
      have hdiv : (z : ℤ) / b = ((z / b : ℕ) : ℤ) := rfl
      rw [SignedDigits.digits, hdiv, ih, List.range_succ_eq_map, List.map_cons, List.map_map, pow_zero,
        Nat.div_one]
      congr 1
      refine List.map_congr_left fun index _ => ?_
      rw [Function.comp_apply, Nat.succ_eq_add_one, pow_succ', Nat.div_div_eq_div_mul]

/-- A value of balanced entries that is not negative is unpacked into them. -/
theorem unpackSigned_horner {slotBytes : ℕ} {cs : List ℤ} (hne : 0 < slotBytes * cs.length)
    (hcs : ∀ c ∈ cs, 2 * |c| < 256 ^ slotBytes) (hnonneg : 0 ≤ horner (256 ^ slotBytes) cs) :
    unpackSigned (horner (256 ^ slotBytes) cs) slotBytes cs.length = .ok cs := by
  have hpos : (0 : ℤ) < 256 ^ slotBytes := by positivity
  have hslot : slotBytes ≠ 0 := fun h => by simp [h] at hne
  obtain ⟨half, hhalf⟩ : (2 : ℤ) ∣ 256 ^ slotBytes := dvd_pow (by decide) hslot
  have heven : (256 ^ slotBytes : ℤ) = 2 * (256 ^ slotBytes / 2) := by omega
  have hbalanced : ∀ c ∈ cs, -(256 ^ slotBytes / 2 : ℤ) < c ∧ c < 256 ^ slotBytes / 2 := by
    intro c hc
    have hlt := hcs c hc
    have hself := le_abs_self c
    have hneg := neg_le_abs c
    omega
  obtain ⟨hbalance, hcarry⟩ := balance_digits heven hpos hbalanced (.inl rfl)
  rw [add_zero] at hbalance hcarry
  -- the last borrow is the part of the value beyond the slots
  have hlast : horner (256 ^ slotBytes) cs / (256 ^ slotBytes) ^ cs.length = 0 := by
    have hdiv : 0 ≤ horner (256 ^ slotBytes) cs / (256 ^ slotBytes) ^ cs.length :=
      Int.ediv_nonneg hnonneg (by positivity)
    omega
  rw [hlast] at hbalance
  obtain ⟨z, hz⟩ := Int.eq_ofNat_of_zero_le hnonneg
  have hlt : z < 256 ^ (slotBytes * cs.length) := by
    rw [hz] at hlast
    have hnat : z / (256 ^ slotBytes) ^ cs.length = 0 := by exact_mod_cast hlast
    rw [pow_mul]
    exact Nat.lt_of_div_eq_zero (by positivity) hnat
  have hused : max 1 (usedBytes z) ≤ slotBytes * cs.length := max_le hne (usedBytes_le hlt)
  have hfits : z < 256 ^ max 1 (usedBytes z) :=
    (lt_pow_usedBytes z).trans_le (Nat.pow_le_pow_right (by decide) (le_max_right _ _))
  -- the slots of the padded bytes are the digits
  have hraw : ∀ b ∈ toBytes z (max 1 (usedBytes z)) ++
      List.replicate (slotBytes * cs.length - (toBytes z (max 1 (usedBytes z))).length) 0, b < 256 := by
    intro b hb
    rcases List.mem_append.mp hb with hb | hb
    · exact toBytes_lt hb
    · rw [List.eq_of_mem_replicate hb]
      decide
  have hvalue : fromBytes (toBytes z (max 1 (usedBytes z)) ++
      List.replicate (slotBytes * cs.length - (toBytes z (max 1 (usedBytes z))).length) 0) = z := by
    rw [fromBytes, Nat.ofDigits_append_replicate_zero]
    exact fromBytes_toBytes _ _
  have hbase : ((256 ^ slotBytes : ℕ) : ℤ) = 256 ^ slotBytes := by push_cast; rfl
  have hpow : (2 : ℤ) ^ (8 * slotBytes) = 256 ^ slotBytes := by exact_mod_cast pow_eight slotBytes
  have hdigits := digits_eq_range (256 ^ slotBytes) cs.length z
  rw [hbase, ← hz] at hdigits
  rw [hdigits] at hbalance
  rw [unpackSigned, hz]
  simp only [Int.toNat_natCast, fromBytes_slot hraw, hvalue, hpow, balanceLoop_eq, hbalance, bind_eq_ok,
    revertIf_eq_ok, pure_eq_ok, exists_const]
  exact ⟨Int.natCast_nonneg z |>.not_gt, hused.not_gt, not_not.mpr rfl, trivial⟩

/-! ### Slots -/

theorem le_listMax {l : List ℤ} {x : ℤ} (hx : x ∈ l) : x ≤ listMax l := by
  cases l with
  | nil => exact absurd hx List.not_mem_nil
  | cons a l =>
      have hfold : ∀ (l : List ℤ) (a : ℤ), a ≤ l.foldl max a ∧ ∀ x ∈ l, x ≤ l.foldl max a := by
        intro l
        induction l with
        | nil => exact fun a => ⟨le_rfl, fun x hx => absurd hx List.not_mem_nil⟩
        | cons b l ih =>
            intro a
            obtain ⟨hmax, hall⟩ := ih (max a b)
            refine ⟨(le_max_left a b).trans hmax, fun x hx => ?_⟩
            obtain rfl | hx := List.mem_cons.mp hx
            · exact (le_max_right a x).trans hmax
            · exact hall x hx
      obtain rfl | hx := List.mem_cons.mp hx
      · exact (hfold l x).1
      · exact (hfold l a).2 x hx

theorem listMax_mem {l : List ℤ} (hl : l ≠ []) : listMax l ∈ l := by
  cases l with
  | nil => exact absurd rfl hl
  | cons a l =>
      have hfold : ∀ (l : List ℤ) (a : ℤ), l.foldl max a ∈ a :: l := by
        intro l
        induction l with
        | nil => exact fun a => List.mem_cons_self
        | cons b l ih =>
            intro a
            rcases List.mem_cons.mp (ih (max a b)) with heq | hmem
            · rw [List.foldl_cons, heq]
              rcases max_choice a b with h | h
              · rw [h]
                exact List.mem_cons_self
              · rw [h]
                exact List.mem_cons_of_mem _ List.mem_cons_self
            · exact List.mem_cons_of_mem _ (List.mem_cons_of_mem _ hmem)
      exact hfold l a

theorem neg_listMin (l : List ℤ) : -listMin l = listMax (l.map fun x => -x) := by
  cases l with
  | nil => rfl
  | cons a l =>
      have hfold : ∀ (l : List ℤ) (a : ℤ), -l.foldl min a = (l.map fun x => -x).foldl max (-a) := by
        intro l
        induction l with
        | nil => exact fun a => rfl
        | cons b l ih =>
            intro a
            rw [List.foldl_cons, ih, List.map_cons, List.foldl_cons, max_neg_neg]
      exact hfold l a

/-- `max(abs(value) for value in values)` -/
def maxAbs (values : List ℤ) : ℤ := listMax (values.map fun value => |value|)

theorem abs_le_maxAbs {values : List ℤ} {v : ℤ} (hv : v ∈ values) : |v| ≤ maxAbs values :=
  le_listMax (List.mem_map_of_mem hv)

/-- The larger of the maximum and the negated minimum is the largest absolute value. -/
theorem max_listMax_neg_listMin {l : List ℤ} (hl : l ≠ []) :
    max (listMax l) (-listMin l) = maxAbs l := by
  have hmap : l.map (fun x => -x) ≠ [] := fun h => hl (List.map_eq_nil_iff.mp h)
  have hmap' : l.map (fun x => |x|) ≠ [] := fun h => hl (List.map_eq_nil_iff.mp h)
  rw [neg_listMin]
  refine le_antisymm (max_le ?_ ?_) ?_
  · exact (le_abs_self _).trans (abs_le_maxAbs (listMax_mem hl))
  · obtain ⟨x, hx, heq⟩ := List.mem_map.mp (listMax_mem hmap)
    rw [← heq]
    exact (neg_le_abs x).trans (abs_le_maxAbs hx)
  · obtain ⟨x, hx, heq⟩ := List.mem_map.mp (listMax_mem hmap')
    rw [maxAbs, ← heq]
    exact abs_le.mpr ⟨neg_le.mp ((le_listMax (List.mem_map_of_mem hx)).trans (le_max_right _ _)),
      (le_listMax hx).trans (le_max_left _ _)⟩

/-- The width of a slot for `n` entries: twice a coefficient fits, whatever its sign. -/
theorem four_mul_lt_slot (bound : ℕ) : 4 * bound < 256 ^ slotBytesFor bound := by
  have hsize := Nat.lt_size_self bound
  rw [← pow_eight]
  calc 4 * bound
    _ < 2 ^ (Nat.size bound + 2) := by rw [pow_add]; omega
    _ ≤ 2 ^ (8 * slotBytesFor bound) := Nat.pow_le_pow_right Nat.two_pos (by unfold slotBytesFor; omega)

/-! ### Scores -/

theorem square_unpacked {v : List ℤ} (hv : v ≠ []) (hmax : 0 < maxAbs v) {slotBytes : ℕ}
    (hslot : slotBytes = slotBytesFor (v.length * (maxAbs v).toNat * (maxAbs v).toNat)) :
    unpackSigned (packSigned v slotBytes * packSigned v slotBytes) slotBytes (2 * v.length - 1) =
      .ok ((List.range (2 * v.length - 1)).map (autoconvolution v)) := by
  have hlen : 0 < v.length := List.length_pos_of_ne_nil hv
  have hroom : 4 * ((v.length : ℤ) * (maxAbs v * maxAbs v)) < 256 ^ slotBytes := by
    have hlt := four_mul_lt_slot (v.length * (maxAbs v).toNat * (maxAbs v).toNat)
    rw [← hslot] at hlt
    have hcast : ((4 * (v.length * (maxAbs v).toNat * (maxAbs v).toNat) : ℕ) : ℤ) < 256 ^ slotBytes := by
      exact_mod_cast hlt
    push_cast at hcast
    rwa [Int.toNat_of_nonneg hmax.le, mul_assoc (v.length : ℤ)] at hcast
  have hbound : maxAbs v ≤ v.length * (maxAbs v * maxAbs v) := by
    have hsquare : maxAbs v ≤ maxAbs v * maxAbs v := by nlinarith
    have hone : (1 : ℤ) ≤ v.length := by exact_mod_cast hlen
    nlinarith
  have hentries : ∀ x ∈ v, |x| < 256 ^ slotBytes := by
    intro x hx
    have hle := abs_le_maxAbs hx
    omega
  have hpositive : slotBytes ≠ 0 := by
    rintro rfl
    omega
  have hcs : ∀ c ∈ (List.range (2 * v.length - 1)).map (autoconvolution v),
      2 * |c| < 256 ^ slotBytes := by
    intro c hc
    obtain ⟨k, -, rfl⟩ := List.mem_map.mp hc
    have hle := abs_autoconvolution_le (fun x (hx : x ∈ v) => abs_le_maxAbs hx) k
    omega
  have hsquare := horner_autoconvolution (B := 256 ^ slotBytes) hv
  have hunpacked := @unpackSigned_horner slotBytes ((List.range (2 * v.length - 1)).map (autoconvolution v))
  rw [List.length_map, List.length_range, hsquare] at hunpacked
  rw [packSigned_eq hentries]
  refine hunpacked (Nat.mul_pos (Nat.pos_of_ne_zero hpositive) (by omega)) hcs (mul_self_nonneg _)

theorem horner_one (l : List ℤ) : horner 1 l = l.sum := by
  induction l with
  | nil => rfl
  | cons c l ih => rw [horner, ih, one_mul, List.sum_cons]

theorem sum_autoconvolution {v : List ℤ} (hv : v ≠ []) :
    ((List.range (2 * v.length - 1)).map (autoconvolution v)).sum = v.sum * v.sum := by
  rw [← horner_one, horner_autoconvolution hv, horner_one]

theorem maxAbs_pos {l : List ℤ} (hsum : l.sum ≠ 0) : 0 < maxAbs l := by
  by_contra hle
  have hzero : ∀ x ∈ l, x = 0 := by
    intro x hx
    have hx' := abs_le_maxAbs hx
    exact abs_nonpos_iff.mp (hx'.trans (not_lt.mp hle))
  exact hsum (List.sum_eq_zero hzero)

/-- The score of a vector: its largest coefficient in absolute value, at the first index that has it. -/
structure Scored (values : List ℤ) (score : ℚ) (details : Details) (linf : ℤ) : Prop where
  score : score = (2 * N * linf : ℤ) / (values.sum * values.sum : ℤ)
  bound : ∀ k < 2 * N - 1, |autoconvolution values k| ≤ linf
  inRange : details.argmaxIndex < 2 * N - 1
  attained : |autoconvolution values details.argmaxIndex| = linf
  first : ∀ k < details.argmaxIndex, |autoconvolution values k| ≠ linf

theorem computeScore_spec {values : List ℤ} (hlen : values.length = N) (hsum : values.sum ≠ 0) :
    ∃ score details linf, computeScore values = .ok (score, details) ∧ Scored values score details linf := by
  have hv : values ≠ [] := fun h => hsum (by rw [h, List.sum_nil])
  have hmax := maxAbs_pos hsum
  have hunpacked := square_unpacked hv hmax rfl
  have htotal := sum_autoconvolution hv
  rw [hlen] at hunpacked htotal
  obtain ⟨coefficients, hcoefficients⟩ : ∃ l, l = (List.range (2 * N - 1)).map (autoconvolution values) :=
    ⟨_, rfl⟩
  rw [← hcoefficients] at hunpacked htotal
  have hlength : coefficients.length = 2 * N - 1 := by
    rw [hcoefficients, List.length_map, List.length_range]
  have hget : ∀ k (hk : k < coefficients.length), coefficients[k] = autoconvolution values k := by
    intro k hk
    rw [List.getElem_of_eq hcoefficients, List.getElem_map, List.getElem_range]
  have hne : coefficients ≠ [] := by
    intro hnil
    rw [hnil, List.length_nil, N] at hlength
    omega
  have hpos : 0 < maxAbs coefficients := by
    refine maxAbs_pos ?_
    rw [htotal]
    exact mul_self_ne_zero.mpr hsum
  -- the largest absolute value is one of the coefficients
  obtain ⟨c, hc, heq⟩ : ∃ c ∈ coefficients, |c| = maxAbs coefficients := by
    have hmap : coefficients.map (fun x => |x|) ≠ [] := fun h => hne (List.map_eq_nil_iff.mp h)
    exact List.mem_map.mp (listMax_mem hmap)
  have hfind : coefficients.findIdx (fun c => |c| = maxAbs coefficients) < coefficients.length :=
    List.findIdx_lt_length_of_exists ⟨c, hc, decide_eq_true heq⟩
  let slotBytes := slotBytesFor (N * (maxAbs values).toNat * (maxAbs values).toNat)
  refine ⟨_, ⟨coefficients.findIdx (fun c => |c| = maxAbs coefficients), 2 * N - 1, values.sum, slotBytes⟩,
    maxAbs coefficients, ?_, ⟨rfl, ?_, hfind.trans_eq hlength, ?_, ?_⟩⟩
  · rw [computeScore]
    simp only [bind_eq_ok, revertIf_eq_ok, pure_eq_ok, exists_const]
    refine ⟨hmax.ne', _, hunpacked, not_not.mpr htotal, ?_, ?_⟩
    · rw [max_listMax_neg_listMin hne]
      exact hpos.not_ge
    · rw [max_listMax_neg_listMin hne]
      rfl
  · intro k hk
    rw [← hget k (hk.trans_eq hlength.symm)]
    exact abs_le_maxAbs (List.getElem_mem _)
  · have hfound := List.findIdx_getElem (w := hfind)
    rw [hget] at hfound
    exact of_decide_eq_true hfound
  · intro k hk
    have hnot := List.not_of_lt_findIdx hk
    rw [hget k (hk.trans hfind)] at hnot
    exact of_decide_eq_false hnot

theorem parseSolution_ok {loads : Bytes → Except String Json} {raw : Bytes} {power : ℤ} {values : List ℤ}
    (h : parseSolution loads raw = .ok (power, values)) : values.length = N ∧ values.sum ≠ 0 := by
  have hparsed : ∀ limit rawValues index values, parseValues limit index rawValues = .ok values →
      values.length = rawValues.length := by
    intro limit rawValues
    induction rawValues with
    | nil =>
        intro index values hok
        obtain rfl := Except.ok.inj hok
        rfl
    | cons rawValue rawValues ih =>
        intro index values hok
        simp only [parseValues, bind_eq_ok, revertIf_eq_ok, pure_eq_ok] at hok
        obtain ⟨value, -, -, -, rest, hrest, rfl⟩ := hok
        rw [List.length_cons, List.length_cons, ih _ _ hrest]
  unfold parseSolution at h
  simp only [bind_eq_ok, revertIf_eq_ok] at h
  obtain ⟨data, -, -, -, power', -, -, -, h⟩ := h
  split at h
  · next rawValues _ =>
      simp only [bind_eq_ok, revertIf_eq_ok, pure_eq_ok, Prod.mk.injEq] at h
      obtain ⟨-, hlen, values', hvalues, -, hsum, -, rfl⟩ := h
      exact ⟨(hparsed _ _ _ _ hvalues).trans (not_not.mp hlen), hsum⟩
  · cases h

/-- Every vector is squared exactly, and every solution that is admitted is scored by its largest
coefficient. -/
theorem signedPacking_exact :
    (∀ v : List ℤ, v ≠ [] → 0 < maxAbs v → ∀ slotBytes,
      slotBytes = slotBytesFor (v.length * (maxAbs v).toNat * (maxAbs v).toNat) →
      unpackSigned (packSigned v slotBytes * packSigned v slotBytes) slotBytes (2 * v.length - 1) =
        .ok ((List.range (2 * v.length - 1)).map (autoconvolution v))) ∧
    ∀ (loads : Bytes → Except String Json) (raw : Bytes) (power : ℤ) (values : List ℤ),
      parseSolution loads raw = .ok (power, values) →
      ∃ score details linf, computeScore values = .ok (score, details) ∧
        Scored values score details linf := by
  refine ⟨fun v hv hmax slotBytes => square_unpacked hv hmax, fun loads raw power values h => ?_⟩
  obtain ⟨hlen, hsum⟩ := parseSolution_ok h
  exact computeScore_spec hlen hsum

/-- A solution with the value one everywhere. -/
def constant : Json :=
  .dict [("n", .int N), ("denominator_power", .int 0), ("values", .list (List.replicate N (.int 1)))]

theorem parseValues_replicate (limit : ℤ) (hlimit : 1 ≤ limit) (n index : ℕ) :
    parseValues limit index (List.replicate n (.int 1)) = .ok (List.replicate n 1) := by
  induction n generalizing index with
  | zero => rfl
  | succ n ih =>
      simp only [List.replicate_succ, parseValues, bind_eq_ok, requireInt_eq_ok, revertIf_eq_ok, pure_eq_ok,
        exists_const]
      exact ⟨1, rfl, not_lt.mpr hlimit, _, ih _, rfl⟩

theorem parseSolution_constant : parseSolution (fun _ => .ok constant) [] = .ok (0, List.replicate N 1) := by
  simp only [parseSolution, bind_eq_ok, loadObject_eq_ok, requireInt_eq_ok, revertIf_eq_ok, exists_const]
  refine ⟨_, ⟨Nat.zero_le _, rfl⟩, ?_, 0, rfl, by decide, ?_⟩
  · simp [Json.equalsInt, List.lookup]
  · show (do
      revertIf ((List.replicate N (Json.int 1)).length ≠ N) _
      let values ← parseValues _ 0 (List.replicate N (Json.int 1))
      revertIf (values.sum = 0) _
      return ((0 : ℤ), values)) = Except.ok (0, List.replicate N 1)
    simp only [bind_eq_ok, revertIf_eq_ok, pure_eq_ok, exists_const, List.length_replicate]
    refine ⟨not_not.mpr rfl, _, parseValues_replicate _ (by decide) _ _, ?_, rfl⟩
    rw [List.sum_replicate, N]
    decide

theorem signedPacking_exact_constant :
    unpackSigned (packSigned [1, -2] 1 * packSigned [1, -2] 1) 1 3 = .ok [1, -4, 4] ∧
      ∃ score details linf, computeScore (List.replicate N 1) = .ok (score, details) ∧
        Scored (List.replicate N 1) score details linf :=
  ⟨signedPacking_exact.1 [1, -2] (by decide) (by decide) 1 (by decide),
    signedPacking_exact.2 _ _ _ _ parseSolution_constant⟩

end P42Prizes.SignedAutoconvolution
