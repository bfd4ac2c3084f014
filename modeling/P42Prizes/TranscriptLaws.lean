import P42Prizes.PrefixCodes
import P42Prizes.TypedTranscript

/-! # Typed transcripts are injective

The frames of a specification are a prefix code, because a frame says how long its payload is
(`frameCode`), and so are the blocks of a frame, because only its last block is marked as final
(`blockCode`).  Both codes are read back from what is absorbed, whatever the payload imitates. -/

namespace P42Prizes.TypedTranscript

open Reverting PrefixCodes

/-! ### Lists of results -/

section Results

variable {ε α β : Type}

theorem mapM_eq_ok {f : α → Except ε β} {as : List α} {bs : List β} (h : as.mapM f = .ok bs) :
    List.Forall₂ (fun a b => f a = .ok b) as bs := by
  induction as generalizing bs with
  | nil =>
      rw [List.mapM_nil, pure_eq_ok] at h
      subst h
      exact .nil
  | cons a as ih =>
      simp only [List.mapM_cons, bind_eq_ok, pure_eq_ok] at h
      obtain ⟨b, hb, bs', hbs, rfl⟩ := h
      exact .cons hb (ih hbs)

/-- The results of a computation on `0`, `1`, … -/
theorem range_mapM_eq_ok {f : ℕ → Except ε β} {n : ℕ} {bs : List β}
    (h : (List.range n).mapM f = .ok bs) :
    bs.length = n ∧ ∀ i b, bs[i]? = some b → f i = .ok b := by
  have hall := mapM_eq_ok h
  have hlength : bs.length = n := by rw [← hall.length_eq, List.length_range]
  refine ⟨hlength, fun i b hb => ?_⟩
  obtain ⟨hi, rfl⟩ := List.getElem?_eq_some_iff.mp hb
  have hget := (List.forall₂_iff_get.mp hall).2 i (by rw [List.length_range]; omega) hi
  simpa using hget

end Results

/-! ### Limbs -/

theorem limbs_length (radix count : ℕ) (value : ℤ) : (limbs radix count value).length = count := by
  induction count generalizing value with
  | zero => rfl
  | succ count ih => rw [limbs, List.length_cons, ih]

theorem limbs_injective {radix count : ℕ} {v w : ℤ} (hv : 0 ≤ v) (hv' : v < (radix : ℤ) ^ count)
    (hw : 0 ≤ w) (hw' : w < (radix : ℤ) ^ count) (h : limbs radix count v = limbs radix count w) :
    v = w := by
  induction count generalizing v w with
  | zero =>
      rw [pow_zero] at hv' hw'
      omega
  | succ count ih =>
      rw [limbs, limbs, List.cons.injEq] at h
      obtain ⟨hlow, hhigh⟩ := h
      rcases Nat.eq_zero_or_pos radix with rfl | hradix
      · rw [Nat.cast_zero, zero_pow (Nat.succ_ne_zero count)] at hv'
        omega
      have hpos : (0 : ℤ) < radix := by exact_mod_cast hradix
      have hdiv : v / radix = w / radix := by
        apply ih (Int.ediv_nonneg hv hpos.le) _ (Int.ediv_nonneg hw hpos.le) _ hhigh
        · exact Int.ediv_lt_of_lt_mul hpos (by rwa [← pow_succ])
        · exact Int.ediv_lt_of_lt_mul hpos (by rwa [← pow_succ])
      calc v = v % radix + radix * (v / radix) := (Int.emod_add_mul_ediv v radix).symm
        _ = w % radix + radix * (w / radix) := by rw [hlow, hdiv]
        _ = w := Int.emod_add_mul_ediv w radix

theorem limbsU64_eq_ok {value : ℤ} {radix count : ℕ} {ls : List ℤ}
    (h : limbsU64 value radix count = .ok ls) :
    0 ≤ value ∧ value < (radix : ℤ) ^ count ∧ ls = limbs radix count value := by
  simp only [limbsU64, bind_eq_ok, revertIf_eq_ok, pure_eq_ok] at h
  obtain ⟨-, hrange, rfl⟩ := h
  rw [not_or, not_lt, not_le] at hrange
  exact ⟨hrange.1, hrange.2, rfl⟩

/-! ### Frames -/

section Frames

variable {spec : Spec} {event : Event} {words : List ℤ}

/-- The words of an event whose integers are in range. -/
def Spec.frame (spec : Spec) (event : Event) : List ℤ :=
  let digits := limbs spec.constants.lengthRadix spec.constants.lengthLimbs
  (spec.constants.protocolMagic : ℤ) :: (spec.version : ℤ) :: (spec.eventTags event.tag : ℤ) ::
    (spec.encodingTags event.encoding : ℤ) :: (digits event.counter ++ (digits event.logicalLength ++
      (digits event.payload.length ++ (event.payload ++ [(spec.constants.frameEnd : ℤ)]))))

/-- The integers of an event are in range. -/
def Spec.Encodes (spec : Spec) (event : Event) : Prop :=
  let bound := (spec.constants.lengthRadix : ℤ) ^ spec.constants.lengthLimbs
  (0 ≤ event.counter ∧ event.counter < bound) ∧ (0 ≤ event.logicalLength ∧ event.logicalLength < bound) ∧
    (event.payload.length : ℤ) < bound

theorem encodeEvent_eq_ok (h : spec.encodeEvent event = .ok words) :
    spec.Encodes event ∧ words = spec.frame event := by
  simp only [Spec.encodeEvent, bind_eq_ok, pure_eq_ok] at h
  obtain ⟨_, hc, _, hl, _, hp, rfl⟩ := h
  obtain ⟨hc₀, hc₁, rfl⟩ := limbsU64_eq_ok hc
  obtain ⟨hl₀, hl₁, rfl⟩ := limbsU64_eq_ok hl
  obtain ⟨-, hp₁, rfl⟩ := limbsU64_eq_ok hp
  refine ⟨⟨⟨hc₀, hc₁⟩, ⟨hl₀, hl₁⟩, hp₁⟩, ?_⟩
  simp [Spec.frame]

/-- The tags of a specification are distinct. -/
structure Spec.Tagged (spec : Spec) : Prop where
  eventTags : Function.Injective spec.eventTags
  encodingTags : Function.Injective spec.encodingTags

theorem frameCode (hspec : spec.Tagged) : PrefixCode spec.Encodes spec.frame where
  ne_nil event _ h := by cases h
  unique e f he hf r s h := by
    obtain ⟨⟨hec, hec'⟩, ⟨hel, hel'⟩, hep⟩ := he
    obtain ⟨⟨hfc, hfc'⟩, ⟨hfl, hfl'⟩, hfp⟩ := hf
    simp only [Spec.frame, List.cons_append, List.append_assoc, List.cons.injEq, true_and] at h
    obtain ⟨htag, hencoding, h⟩ := h
    have hlength : ∀ v w : ℤ, (limbs spec.constants.lengthRadix spec.constants.lengthLimbs v).length =
        (limbs spec.constants.lengthRadix spec.constants.lengthLimbs w).length := by
      intro v w
      rw [limbs_length, limbs_length]
    obtain ⟨hcounter, h⟩ := List.append_inj h (hlength _ _)
    obtain ⟨hlogical, h⟩ := List.append_inj h (hlength _ _)
    obtain ⟨hcount, h⟩ := List.append_inj h (hlength _ _)
    have hpayloads : e.payload.length = f.payload.length := by
      have hcast := limbs_injective (Int.natCast_nonneg _) hep (Int.natCast_nonneg _) hfp hcount
      exact_mod_cast hcast
    obtain ⟨hpayload, -⟩ := List.append_inj h hpayloads
    obtain ⟨etag, eencoding, ecounter, elogical, epayload⟩ := e
    obtain ⟨ftag, fencoding, fcounter, flogical, fpayload⟩ := f
    obtain rfl : etag = ftag := hspec.eventTags (by exact_mod_cast htag)
    obtain rfl : eencoding = fencoding := hspec.encodingTags (by exact_mod_cast hencoding)
    obtain rfl : ecounter = fcounter := limbs_injective hec hec' hfc hfc' hcounter
    obtain rfl : elogical = flogical := limbs_injective hel hel' hfl hfl' hlogical
    obtain rfl : epayload = fpayload := hpayload
    rfl

end Frames

/-! ### Blocks -/

section Blocks

variable {spec : Spec} {profile : FieldProfile} {words words' : List ℤ} {blocks blocks' : List Block}
  {index : ℕ} {block : Block}

/-- The words of a block before they are padded. -/
def chunk (rate : ℕ) (words : List ℤ) (index : ℕ) : List ℤ := (words.drop (index * rate)).take rate

/-- What an absorbed block is. -/
structure Absorbs (spec : Spec) (profile : FieldProfile) (words : List ℤ) (index : ℕ) (block : Block) :
    Prop where
  final : block.final = decide (words.length ≤ index * profile.rate + profile.rate)
  occupied : block.occupied = (chunk profile.rate words index).length
  control : block.control = spec.constants.blockControlBase +
    profile.profileId <<< spec.constants.profileShift +
    spec.phases .absorbFrame <<< spec.constants.phaseShift +
    block.final.toNat <<< spec.constants.finalShift +
    block.occupied <<< spec.constants.occupiedShift + index
  canonicalControl : block.control < profile.modulus
  rateWords : block.rateWords = chunk profile.rate words index ++
    List.replicate (profile.rate - (chunk profile.rate words index).length) 0
  canonicalWords : ∀ word ∈ chunk profile.rate words index, 0 ≤ word ∧ word < profile.modulus

theorem absorbBlock_eq_ok (h : spec.absorbBlock profile words index = .ok block) :
    Absorbs spec profile words index block := by
  simp only [Spec.absorbBlock, Spec.blockControl, bind_eq_ok, revertIf_eq_ok, pure_eq_ok] at h
  obtain ⟨control, ⟨-, -, hcontrol⟩, -, hcanonical, rfl⟩ := h
  rw [not_or, not_le] at hcanonical
  refine ⟨rfl, rfl, hcontrol.symm, hcanonical.1, rfl, fun word hword => ?_⟩
  by_contra hbad
  exact hcanonical.2 ⟨word, hword, by omega⟩

theorem absorbBlocks_eq_ok {p : ProfileName} (h : spec.absorbBlocks p words = .ok blocks) :
    blocks.length = (words.length + (spec.fieldProfiles p).rate - 1) / (spec.fieldProfiles p).rate ∧
      ∀ i block, blocks[i]? = some block → Absorbs spec (spec.fieldProfiles p) words i block := by
  obtain ⟨hlength, hblocks⟩ := range_mapM_eq_ok h
  exact ⟨hlength, fun i block hblock => absorbBlock_eq_ok (hblocks i block hblock)⟩

/-- What a block adds to the state: its control word and its rate words, in the field. -/
def Block.lanes (modulus : ℕ) (block : Block) : ZMod modulus × List (ZMod modulus) :=
  (block.control, block.rateWords.map (Int.cast : ℤ → ZMod modulus))

theorem cast_injective {m : ℕ} {v w : ℤ} (hv : 0 ≤ v ∧ v < m) (hw : 0 ≤ w ∧ w < m)
    (h : (v : ZMod m) = w) : v = w := by
  have hmod := (ZMod.intCast_eq_intCast_iff v w m).mp h
  rw [Int.ModEq, Int.emod_eq_of_lt hv.1 hv.2, Int.emod_eq_of_lt hw.1 hw.2] at hmod
  exact hmod

theorem map_cast_injective {m : ℕ} {vs ws : List ℤ} (hv : ∀ v ∈ vs, 0 ≤ v ∧ v < m)
    (hw : ∀ w ∈ ws, 0 ≤ w ∧ w < m)
    (h : vs.map (Int.cast : ℤ → ZMod m) = ws.map Int.cast) : vs = ws := by
  induction vs generalizing ws with
  | nil =>
      rw [List.map_nil, eq_comm, List.map_eq_nil_iff] at h
      exact h.symm
  | cons v vs ih =>
      cases ws with
      | nil => cases h
      | cons w ws =>
          rw [List.map_cons, List.map_cons, List.cons.injEq] at h
          rw [cast_injective (hv v (List.mem_cons_self ..)) (hw w (List.mem_cons_self ..)) h.1,
            ih (fun v' h' => hv v' (List.mem_cons_of_mem _ h'))
              (fun w' h' => hw w' (List.mem_cons_of_mem _ h')) h.2]

/-- The fields of a control word do not overlap, and a block is not empty. -/
structure Spec.Framed (spec : Spec) : Prop where
  layout : spec.constants.occupiedShift + 4 ≤ spec.constants.finalShift
  rate : ∀ p, 0 < (spec.fieldProfiles p).rate ∧ (spec.fieldProfiles p).rate ≤ 15

theorem chunk_length (rate : ℕ) (words : List ℤ) (index : ℕ) :
    (chunk rate words index).length = min rate (words.length - index * rate) := by
  rw [chunk, List.length_take, List.length_drop]

theorem Absorbs.canonicalRateWords (h : Absorbs spec profile words index block) :
    ∀ word ∈ block.rateWords, 0 ≤ word ∧ word < profile.modulus := by
  intro word hword
  rw [h.rateWords] at hword
  rcases List.mem_append.mp hword with hchunk | hzero
  · exact h.canonicalWords word hchunk
  · have hcontrol := h.canonicalControl
    obtain rfl := List.eq_of_mem_replicate hzero
    omega

/-- The flag and the occupation of a block can be read from its control word. -/
theorem control_injective {final final' : Bool} {occupied occupied' low high : ℕ} (ho : occupied < 16)
    (ho' : occupied' < 16) (hlayout : low + 4 ≤ high)
    (h : final.toNat <<< high + occupied <<< low = final'.toNat <<< high + occupied' <<< low) :
    final = final' ∧ occupied = occupied' := by
  obtain ⟨k, rfl⟩ := Nat.exists_eq_add_of_le hlayout
  have hpos : 0 < 2 ^ low := Nat.two_pow_pos low
  have hk : 0 < 2 ^ k := Nat.two_pow_pos k
  rw [Nat.shiftLeft_eq, Nat.shiftLeft_eq, Nat.shiftLeft_eq, Nat.shiftLeft_eq] at h
  have hscaled : final.toNat * (16 * 2 ^ k) + occupied = final'.toNat * (16 * 2 ^ k) + occupied' := by
    apply Nat.eq_of_mul_eq_mul_left hpos
    calc 2 ^ low * (final.toNat * (16 * 2 ^ k) + occupied)
        = final.toNat * 2 ^ (low + 4 + k) + occupied * 2 ^ low := by ring
      _ = final'.toNat * 2 ^ (low + 4 + k) + occupied' * 2 ^ low := h
      _ = 2 ^ low * (final'.toNat * (16 * 2 ^ k) + occupied') := by ring
  cases final <;> cases final' <;> simp only [Bool.toNat_true, Bool.toNat_false] at hscaled
  · exact ⟨rfl, by omega⟩
  · omega
  · omega
  · exact ⟨rfl, by omega⟩

/-- Blocks of one place with the same lanes are the same. -/
theorem Absorbs.of_lanes {block' : Block} (hlayout : spec.constants.occupiedShift + 4 ≤ spec.constants.finalShift)
    (hrate : profile.rate ≤ 15) (h : Absorbs spec profile words index block)
    (h' : Absorbs spec profile words' index block')
    (hlanes : block.lanes profile.modulus = block'.lanes profile.modulus) :
    block.final = block'.final ∧ block.occupied = block'.occupied ∧ block.rateWords = block'.rateWords := by
  obtain ⟨hcontrol, hwords⟩ := Prod.ext_iff.mp hlanes
  have hequal : block.control = block'.control := by
    have hcast := cast_injective (v := block.control) (w := block'.control)
      ⟨Int.natCast_nonneg _, by exact_mod_cast h.canonicalControl⟩
      ⟨Int.natCast_nonneg _, by exact_mod_cast h'.canonicalControl⟩ (by simpa [Block.lanes] using hcontrol)
    exact_mod_cast hcast
  have hocc : block.occupied < 16 := by
    rw [h.occupied, chunk_length]
    omega
  have hocc' : block'.occupied < 16 := by
    rw [h'.occupied, chunk_length]
    omega
  rw [h.control, h'.control] at hequal
  have hfields : block.final.toNat <<< spec.constants.finalShift +
      block.occupied <<< spec.constants.occupiedShift =
        block'.final.toNat <<< spec.constants.finalShift +
          block'.occupied <<< spec.constants.occupiedShift := by
    generalize block.final.toNat <<< spec.constants.finalShift = x at hequal ⊢
    generalize block.occupied <<< spec.constants.occupiedShift = y at hequal ⊢
    omega
  obtain ⟨hfinal, hoccupied⟩ := control_injective hocc hocc' hlayout hfields
  exact ⟨hfinal, hoccupied, map_cast_injective h.canonicalRateWords h'.canonicalRateWords hwords⟩

/-- A word of a frame stands in a block. -/
theorem Absorbs.word (h : Absorbs spec profile words index block) {j : ℕ} (hj : j < block.occupied) :
    block.rateWords[j]? = words[index * profile.rate + j]? := by
  rw [h.occupied] at hj
  rw [h.rateWords, List.getElem?_append_left hj, chunk, List.getElem?_take, List.getElem?_drop, if_pos]
  rw [chunk_length] at hj
  omega

/-- A frame has a last block, which is its only final one. -/
theorem absorbBlocks_final {p : ProfileName} (hspec : spec.Framed) (hwords : words ≠ [])
    (h : spec.absorbBlocks p words = .ok blocks) :
    0 < blocks.length ∧ ∀ i block, blocks[i]? = some block →
      (block.final = true ↔ i + 1 = blocks.length) := by
  obtain ⟨hlength, hblocks⟩ := absorbBlocks_eq_ok h
  obtain ⟨hrate, -⟩ := hspec.rate p
  have hpos : 0 < words.length := List.length_pos_iff.mpr hwords
  have hbounds : ∀ n, (n = (words.length + (spec.fieldProfiles p).rate - 1) / (spec.fieldProfiles p).rate) →
      n * (spec.fieldProfiles p).rate < words.length + (spec.fieldProfiles p).rate ∧
        words.length ≤ n * (spec.fieldProfiles p).rate := by
    rintro n rfl
    have hmod := Nat.div_add_mod (words.length + (spec.fieldProfiles p).rate - 1)
      (spec.fieldProfiles p).rate
    have hlt := Nat.mod_lt (words.length + (spec.fieldProfiles p).rate - 1) hrate
    rw [Nat.mul_comm] at hmod
    omega
  obtain ⟨hupper, hlower⟩ := hbounds _ hlength
  have hcount : 0 < blocks.length := by
    by_contra hzero
    rw [Nat.eq_zero_of_not_pos hzero] at hlower
    omega
  refine ⟨hcount, fun i block hblock => ?_⟩
  obtain ⟨hi, -⟩ := List.getElem?_eq_some_iff.mp hblock
  rw [(hblocks i block hblock).final, decide_eq_true_eq]
  constructor
  · intro hfinal
    by_contra hne
    have hmul := Nat.mul_le_mul_right (spec.fieldProfiles p).rate (show i + 2 ≤ blocks.length by omega)
    rw [Nat.add_mul] at hmul
    omega
  · intro hlast
    rw [← Nat.succ_mul, Nat.succ_eq_add_one, hlast]
    exact hlower

/-- Every word of a frame stands in one of its blocks. -/
theorem absorbBlocks_word {p : ProfileName} (hspec : spec.Framed)
    (h : spec.absorbBlocks p words = .ok blocks) {k : ℕ} (hk : k < words.length) :
    ∃ i j block, blocks[i]? = some block ∧ i * (spec.fieldProfiles p).rate + j = k ∧
      j < block.occupied := by
  obtain ⟨hlength, hblocks⟩ := absorbBlocks_eq_ok h
  obtain ⟨hrate, -⟩ := hspec.rate p
  have hmod := Nat.div_add_mod' k (spec.fieldProfiles p).rate
  have hlt := Nat.mod_lt k hrate
  have hi : k / (spec.fieldProfiles p).rate < blocks.length := by
    rw [hlength, Nat.div_lt_iff_lt_mul hrate]
    have hmod' := Nat.div_add_mod' (words.length + (spec.fieldProfiles p).rate - 1)
      (spec.fieldProfiles p).rate
    have hlt' := Nat.mod_lt (words.length + (spec.fieldProfiles p).rate - 1) hrate
    omega
  refine ⟨_, k % (spec.fieldProfiles p).rate, _, List.getElem?_eq_getElem hi, hmod, ?_⟩
  rw [(hblocks _ _ (List.getElem?_eq_getElem hi)).occupied, chunk_length]
  omega

/-- The lanes of the blocks of a frame, whatever follows them, determine the frame. -/
theorem words_of_lanes {p : ProfileName} (hspec : spec.Framed) (hwords : words ≠ []) (hwords' : words' ≠ [])
    (h : spec.absorbBlocks p words = .ok blocks) (h' : spec.absorbBlocks p words' = .ok blocks')
    {r s : List (ZMod (spec.fieldProfiles p).modulus × List (ZMod (spec.fieldProfiles p).modulus))}
    (heq : blocks.map (Block.lanes (spec.fieldProfiles p).modulus) ++ r =
      blocks'.map (Block.lanes (spec.fieldProfiles p).modulus) ++ s) : words = words' := by
  obtain ⟨hcount, hfinal⟩ := absorbBlocks_final hspec hwords h
  obtain ⟨hcount', hfinal'⟩ := absorbBlocks_final hspec hwords' h'
  obtain ⟨-, hblocks⟩ := absorbBlocks_eq_ok h
  obtain ⟨-, hblocks'⟩ := absorbBlocks_eq_ok h'
  -- blocks at the same place agree
  have hsame : ∀ (i : ℕ) (block block' : Block), blocks[i]? = some block → blocks'[i]? = some block' →
      block.final = block'.final ∧ block.occupied = block'.occupied ∧
        block.rateWords = block'.rateWords := by
    intro i block block' hblock hblock'
    obtain ⟨hi, -⟩ := List.getElem?_eq_some_iff.mp hblock
    obtain ⟨hi', -⟩ := List.getElem?_eq_some_iff.mp hblock'
    have hget := congrArg (fun l => l[i]?) heq
    rw [List.getElem?_append_left (by rwa [List.length_map]),
      List.getElem?_append_left (by rwa [List.length_map]), List.getElem?_map, List.getElem?_map, hblock,
      hblock', Option.map_some, Option.map_some, Option.some.injEq] at hget
    exact (hblocks i block hblock).of_lanes hspec.layout (hspec.rate p).2 (hblocks' i block' hblock') hget
  -- so the final one comes at the same place
  have hlength : blocks.length = blocks'.length := by
    rcases Nat.lt_trichotomy blocks.length blocks'.length with hlt | heq | hlt
    · have hlast := List.getElem?_eq_getElem (l := blocks) (show blocks.length - 1 < blocks.length by omega)
      have hother := List.getElem?_eq_getElem (l := blocks') (show blocks.length - 1 < blocks'.length by omega)
      obtain ⟨hf, -⟩ := hsame _ _ _ hlast hother
      have hother' := (hfinal' _ _ hother).mp (hf ▸ (hfinal _ _ hlast).mpr (by omega))
      omega
    · exact heq
    · have hlast := List.getElem?_eq_getElem (l := blocks')
        (show blocks'.length - 1 < blocks'.length by omega)
      have hother := List.getElem?_eq_getElem (l := blocks) (show blocks'.length - 1 < blocks.length by omega)
      obtain ⟨hf, -⟩ := hsame _ _ _ hother hlast
      have hother' := (hfinal _ _ hother).mp (hf ▸ (hfinal' _ _ hlast).mpr (by omega))
      omega
  -- and every word is that of the other frame
  refine List.ext_getElem? (fun k => ?_)
  by_cases hk : k < words.length
  · obtain ⟨i, j, block, hblock, hat, hj⟩ := absorbBlocks_word hspec h hk
    obtain ⟨hi, -⟩ := List.getElem?_eq_some_iff.mp hblock
    have hblock' := List.getElem?_eq_getElem (l := blocks') (show i < blocks'.length by omega)
    obtain ⟨-, hoccupied, hrateWords⟩ := hsame i _ _ hblock hblock'
    rw [← hat, ← (hblocks i _ hblock).word hj, hrateWords,
      (hblocks' i _ hblock').word (hoccupied ▸ hj)]
  by_cases hk' : k < words'.length
  · obtain ⟨i, j, block', hblock', hat, hj⟩ := absorbBlocks_word hspec h' hk'
    obtain ⟨hi, -⟩ := List.getElem?_eq_some_iff.mp hblock'
    have hblock := List.getElem?_eq_getElem (l := blocks) (show i < blocks.length by omega)
    obtain ⟨-, hoccupied, hrateWords⟩ := hsame i _ _ hblock hblock'
    rw [← hat, ← (hblocks' i _ hblock').word hj, ← hrateWords,
      (hblocks i _ hblock).word (hoccupied ▸ hj)]
  · rw [List.getElem?_eq_none (by omega), List.getElem?_eq_none (by omega)]

end Blocks

/-! ### Collections -/

/-- The collection that a tag begins, or ends. -/
def EventTag.begins : EventTag → Option CollectionKind
  | sliceBegin => some .slice
  | containerBegin => some .container
  | _ => none

def EventTag.ends : EventTag → Option CollectionKind
  | sliceEnd => some .slice
  | containerEnd => some .container
  | _ => none

/-- An event that is a value. -/
def EventTag.isValue : EventTag → Bool
  | baseField | extensionField | digest | commitment => true
  | _ => false

/-- The open collections after one more child of the innermost. -/
def observed : List Collection → List Collection
  | [] => []
  | frame :: outer => { frame with observedChildren := frame.observedChildren + 1 } :: outer

/-- What an event may do to the open collections. -/
inductive StackStep (event : Event) : List Collection → List Collection → Prop
  | init {stack} : event.tag = .protocolInit → StackStep event stack stack
  | value {stack} : event.tag.isValue = true → StackStep event stack (observed stack)
  | squeeze : event.tag.squeezes = true → StackStep event [] []
  | opened {stack kind} : event.tag.begins = some kind →
      StackStep event stack (⟨kind, event.logicalLength, 0⟩ :: observed stack)
  | closed {frame outer} : event.tag.ends = some frame.kind →
      frame.observedChildren = frame.declaredChildren → StackStep event (frame :: outer) outer

/-- What an event that is applied does to the state. -/
structure Applied (event : Event) (before after : State) : Prop where
  first : before.mode = .uninitialized ↔ event.tag = .protocolInit
  counter : event.counter = before.nextCounter
  next : after.nextCounter = before.nextCounter + 1
  mode : after.mode = .absorbing
  stack : StackStep event before.collectionStack after.collectionStack

section Updates

variable {α β : Type} {code : RejectCode} {s : State}

theorem bind_run (m : Updating α) (f : α → Updating β) (s : State) : (m >>= f).run.run s =
    match m.run.run s with
    | (.ok a, s') => (f a).run.run s'
    | (.error code, s') => (.error code, s') := by
  rw [ExceptT.run_bind, StateT.run_bind]
  rcases m.run.run s with ⟨code | a, s'⟩
  · rfl
  · rfl

theorem get_bind_run (f : State → Updating β) (s : State) : (get >>= f).run.run s = (f s).run.run s := rfl

theorem rejectIf_bind_run {p : Prop} [Decidable p] (f : Unit → Updating β) (s : State) :
    (rejectIf p code >>= f).run.run s = if p then (.error code, s) else (f ()).run.run s := by
  by_cases hp : p
  · rw [if_pos hp, rejectIf, if_pos hp]
    rfl
  · rw [if_neg hp, rejectIf, if_neg hp]
    rfl

theorem checkMode_bind_run (event : Event) (f : Unit → Updating β) (s : State) :
    (checkMode event s >>= f).run.run s =
      if ¬ (s.mode = .uninitialized ↔ event.tag = .protocolInit) then
        (.error (if s.mode = .uninitialized then .initRequired else .initRepeated), s)
      else (f ()).run.run s := by
  unfold checkMode
  by_cases hmode : s.mode = .uninitialized
  · rw [if_pos hmode, rejectIf_bind_run]
    simp [hmode]
  · rw [if_neg hmode, rejectIf_bind_run]
    simp [hmode]

end Updates

section Collections

variable {event : Event} {state : State}

theorem observeChild_run (state : State) : observeChild.run.run state =
    (.ok (), { state with collectionStack := observed state.collectionStack }) := by
  obtain ⟨mode, counter, stack, status, permutation⟩ := state
  cases stack <;> rfl

theorem beginCollection_run (kind : CollectionKind) (event : Event) (state : State) :
    (beginCollection kind event).run.run state = (.ok (), { state with
      collectionStack := ⟨kind, event.logicalLength, 0⟩ :: observed state.collectionStack }) := by
  obtain ⟨mode, counter, stack, status, permutation⟩ := state
  cases stack <;> rfl

theorem endCollection_run (kind : CollectionKind) (state : State) :
    (∃ code, (endCollection kind).run.run state = (.error code, state)) ∨
      ∃ frame outer, state.collectionStack = frame :: outer ∧ frame.kind = kind ∧
        frame.observedChildren = frame.declaredChildren ∧
        (endCollection kind).run.run state = (.ok (), { state with collectionStack := outer }) := by
  rw [endCollection, get_bind_run]
  cases hstack : state.collectionStack with
  | nil => exact .inl ⟨.nesting, rfl⟩
  | cons frame outer =>
      simp only [rejectIf_bind_run]
      split
      · exact .inl ⟨.nesting, rfl⟩
      rename_i hkind
      split
      · exact .inl ⟨.childCount, rfl⟩
      rename_i hcount
      exact .inr ⟨frame, outer, rfl, not_ne_iff.mp hkind, not_ne_iff.mp hcount, rfl⟩

/-- The mode after an event. -/
def Mode.after (event : Event) (mode : Mode) : Mode :=
  if event.tag = .protocolInit then .absorbing else mode

theorem Mode.after_eq {mode : Mode} (h : mode = .uninitialized → event.tag = .protocolInit) :
    mode.after event = .absorbing := by
  unfold Mode.after
  split
  · rfl
  · rename_i hinit
    cases mode with
    | uninitialized => exact absurd (h rfl) hinit
    | absorbing => rfl

theorem applyTag_run (event : Event) (state : State)
    (hsqueeze : event.tag.squeezes = true → state.collectionStack = []) :
    (∃ code, (applyTag event).run.run state = (.error code, state)) ∨
      ∃ stack, StackStep event state.collectionStack stack ∧ (applyTag event).run.run state =
        (.ok (), { state with mode := state.mode.after event, collectionStack := stack }) := by
  have hnothing : event.tag.squeezes = true → event.tag ≠ .protocolInit →
      ∃ stack, StackStep event state.collectionStack stack ∧ ((pure () : Updating Unit)).run.run state =
        (.ok (), { state with mode := state.mode.after event, collectionStack := stack }) := by
    intro hsqueezes hinit
    have hstack := hsqueeze hsqueezes
    refine ⟨[], hstack ▸ .squeeze hsqueezes, ?_⟩
    rw [Mode.after, if_neg hinit, ← hstack]
    rfl
  have hvalue : event.tag.isValue = true → event.tag ≠ .protocolInit →
      ∃ stack, StackStep event state.collectionStack stack ∧ observeChild.run.run state =
        (.ok (), { state with mode := state.mode.after event, collectionStack := stack }) := by
    intro hvalue hinit
    refine ⟨_, .value hvalue, ?_⟩
    rw [observeChild_run, Mode.after, if_neg hinit]
  have hbegin : ∀ kind, event.tag.begins = some kind → event.tag ≠ .protocolInit →
      ∃ stack, StackStep event state.collectionStack stack ∧ (beginCollection kind event).run.run state =
        (.ok (), { state with mode := state.mode.after event, collectionStack := stack }) := by
    intro kind hkind hinit
    refine ⟨_, .opened hkind, ?_⟩
    rw [beginCollection_run, Mode.after, if_neg hinit]
  have hend : ∀ kind, event.tag.ends = some kind → event.tag ≠ .protocolInit →
      (∃ code, (endCollection kind).run.run state = (.error code, state)) ∨
        ∃ stack, StackStep event state.collectionStack stack ∧ (endCollection kind).run.run state =
          (.ok (), { state with mode := state.mode.after event, collectionStack := stack }) := by
    intro kind hkind hinit
    rcases endCollection_run kind state with herror | ⟨frame, outer, hstack, rfl, hcount, hrun⟩
    · exact .inl herror
    · refine .inr ⟨outer, hstack ▸ .closed hkind hcount, ?_⟩
      rw [hrun, Mode.after, if_neg hinit]
  unfold applyTag
  split
  case h_1 htag => exact .inr ⟨_, .init htag, by simp [Mode.after, htag]; rfl⟩
  case h_2 htag => exact .inr (hbegin .slice (by rw [htag]; rfl) (by rw [htag]; simp))
  case h_3 htag => exact .inr (hbegin .container (by rw [htag]; rfl) (by rw [htag]; simp))
  case h_4 htag => exact hend .slice (by rw [htag]; rfl) (by rw [htag]; simp)
  case h_5 htag => exact hend .container (by rw [htag]; rfl) (by rw [htag]; simp)
  case h_6 htag => exact .inr (hnothing (by rw [htag]; rfl) (by rw [htag]; simp))
  case h_7 htag => exact .inr (hnothing (by rw [htag]; rfl) (by rw [htag]; simp))
  case h_8 htag => exact .inr (hnothing (by rw [htag]; rfl) (by rw [htag]; simp))
  case h_9 htag => exact .inr (hvalue (by rw [htag]; rfl) (by rw [htag]; simp))
  case h_10 htag => exact .inr (hvalue (by rw [htag]; rfl) (by rw [htag]; simp))
  case h_11 htag => exact .inr (hvalue (by rw [htag]; rfl) (by rw [htag]; simp))
  case h_12 htag => exact .inr (hvalue (by rw [htag]; rfl) (by rw [htag]; simp))

/-- An event is applied, or rejected with the state left as it was. -/
theorem applyEventState_run (event : Event) (state : State) :
    (∃ code, (applyEventState event).run.run state = (.error code, state)) ∨
      ∃ kind after, Applied event state after ∧ (applyEventState event).run.run state = (.ok kind, after) := by
  rw [applyEventState, get_bind_run, checkMode_bind_run]
  split
  · exact .inl ⟨_, rfl⟩
  rename_i hmode
  simp only [rejectIf_bind_run]
  split
  · exact .inl ⟨_, rfl⟩
  rename_i hcounter
  split
  · exact .inl ⟨_, rfl⟩
  rename_i hsqueeze
  rw [bind_run]
  rcases applyTag_run event state (fun h => not_ne_iff.mp (fun hne => hsqueeze ⟨h, hne⟩)) with
    ⟨code, hrun⟩ | ⟨stack, hstack, hrun⟩
  · rw [hrun]
    exact .inl ⟨code, rfl⟩
  · rw [hrun]
    refine .inr ⟨_, _, ?_, rfl⟩
    constructor
    · exact not_not.mp hmode
    · exact not_ne_iff.mp hcounter
    · change (if state.permutationStateStatus = .exact then _ else _ : State).nextCounter = _
      split <;> rfl
    · change (if state.permutationStateStatus = .exact then _ else _ : State).mode = _
      rw [apply_ite State.mode, ite_self]
      exact Mode.after_eq (fun hinit => (not_not.mp hmode).mp hinit)
    · change StackStep event _ (if state.permutationStateStatus = .exact then _ else _ : State).collectionStack
      rw [apply_ite State.collectionStack, ite_self]
      exact hstack

/-! ### Well-nested events -/

/-- The events are so many children, each complete. -/
inductive Children : List Event → ℤ → Prop
  | nil : Children [] 0
  | value {event events n} : event.tag.isValue = true → Children events n →
      Children (event :: events) (n + 1)
  | collection {first last inner events kind n} : first.tag.begins = some kind →
      Children inner first.logicalLength → last.tag.ends = some kind → Children events n →
      Children (first :: (inner ++ last :: events)) (n + 1)

/-- The events are children and squeezes, which are in no collection. -/
inductive TopLevel : List Event → Prop
  | nil : TopLevel []
  | value {event events} : event.tag.isValue = true → TopLevel events → TopLevel (event :: events)
  | squeeze {event events} : event.tag.squeezes = true → TopLevel events → TopLevel (event :: events)
  | collection {first last inner events kind} : first.tag.begins = some kind →
      Children inner first.logicalLength → last.tag.ends = some kind → TopLevel events →
      TopLevel (first :: (inner ++ last :: events))

/-- The events leave no collection open. -/
def Closes : List Collection → List Event → Prop
  | stack, [] => stack = []
  | stack, event :: events => event.tag ≠ .protocolInit ∧
      ∃ stack', StackStep event stack stack' ∧ Closes stack' events

/-- The innermost collection is closed after the children that it lacks. -/
theorem closes_cons {events : List Event} {frame : Collection} {outer : List Collection}
    (h : Closes (frame :: outer) events) : ∃ inner last rest, events = inner ++ last :: rest ∧
      last.tag.ends = some frame.kind ∧
      Children inner (frame.declaredChildren - frame.observedChildren) ∧ Closes outer rest := by
  induction hn : events.length using Nat.strong_induction_on generalizing events frame outer with
  | _ n ih =>
  subst hn
  cases events with
  | nil => cases h
  | cons event events =>
      obtain ⟨hinit, stack, hstep, hrest⟩ := h
      have hlt : events.length < (event :: events).length := Nat.lt_succ_self _
      cases hstep with
      | init htag => exact absurd htag hinit
      | value hvalue =>
          obtain ⟨inner, last, rest, rfl, hlast, hinner, houter⟩ := ih _ hlt hrest rfl
          refine ⟨event :: inner, last, rest, rfl, hlast, ?_, houter⟩
          have hchildren := Children.value hvalue hinner
          simp only at hchildren
          convert hchildren using 1
          ring
      | opened hkind =>
          obtain ⟨inner, last, rest, rfl, hlast, hinner, hrest⟩ := ih _ hlt hrest rfl
          have hlt' : rest.length < (event :: (inner ++ last :: rest)).length := by
            rw [List.length_cons, List.length_append, List.length_cons]
            omega
          obtain ⟨inner', last', rest', rfl, hlast', hinner', houter⟩ := ih _ hlt' hrest rfl
          refine ⟨event :: (inner ++ last :: inner'), last', rest', by simp, hlast', ?_, houter⟩
          rw [Int.sub_zero] at hinner
          have hchildren := Children.collection hkind hinner hlast hinner'
          simp only at hchildren
          convert hchildren using 1
          ring
      | closed hkind hcount =>
          refine ⟨[], event, events, rfl, hkind, ?_, hrest⟩
          rw [hcount, Int.sub_self]
          exact .nil

theorem closes_nil {events : List Event} (h : Closes [] events) : TopLevel events := by
  induction hn : events.length using Nat.strong_induction_on generalizing events with
  | _ n ih =>
  subst hn
  cases events with
  | nil => exact .nil
  | cons event events =>
      obtain ⟨hinit, stack, hstep, hrest⟩ := h
      have hlt : events.length < (event :: events).length := Nat.lt_succ_self _
      cases hstep with
      | init htag => exact absurd htag hinit
      | value hvalue => exact .value hvalue (ih _ hlt hrest rfl)
      | squeeze hsqueeze => exact .squeeze hsqueeze (ih _ hlt hrest rfl)
      | opened hkind =>
          obtain ⟨inner, last, rest, rfl, hlast, hinner, hrest⟩ := closes_cons hrest
          rw [Int.sub_zero] at hinner
          refine .collection hkind hinner hlast (ih _ ?_ hrest rfl)
          rw [List.length_cons, List.length_append, List.length_cons]
          omega

end Collections

/-! ### Runs -/

section Runs

variable {spec : Spec} {p : ProfileName} {event : Event} {events : List Event} {state final : State}
  {step : Step} {steps : List Step} {i : ℕ} {transcript : Transcript}

/-- What the step of an event is. -/
structure StepOf (spec : Spec) (p : ProfileName) (event : Event) (step : Step) : Prop where
  shape : spec.validateEventShape p event = .ok ()
  words : spec.encodeEvent event = .ok step.expectedFrameWords
  blocks : spec.absorbBlocks p step.expectedFrameWords = .ok step.expectedAbsorbBlocks
  continuations : spec.squeezeContinuations p event = .ok step.expectedSqueezeContinuations

theorem runEvent_eq_ok (h : spec.runEvent p i state event = .ok step) :
    StepOf spec p event step ∧ Applied event state step.expectedAfter := by
  obtain ⟨⟨⟩, hshape, h⟩ := bind_eq_ok.mp h
  obtain ⟨words, hwords, h⟩ := bind_eq_ok.mp h
  rcases applyEventState_run event state with ⟨code, hrun⟩ | ⟨kind, after, happlied, hrun⟩
  · rw [hrun] at h
    cases h
  · rw [hrun] at h
    simp only [bind_eq_ok, pure_eq_ok] at h
    obtain ⟨blocks, hblocks, continuations, hcontinuations, rfl⟩ := h
    exact ⟨⟨hshape, hwords, hblocks, hcontinuations⟩, happlied⟩

/-- The events are applied one after the other. -/
def AppliedAll : State → List Event → State → Prop
  | before, [], after => before = after
  | before, event :: events, after => ∃ next, Applied event before next ∧ AppliedAll next events after

theorem runEvents_eq_ok (h : spec.runEvents p i state events = .ok (steps, final)) :
    List.Forall₂ (StepOf spec p) events steps ∧ AppliedAll state events final := by
  induction events generalizing i state steps with
  | nil =>
      cases h
      exact ⟨.nil, rfl⟩
  | cons event events ih =>
      obtain ⟨step, hstep, h⟩ := bind_eq_ok.mp h
      obtain ⟨⟨rest, final'⟩, hrest, h⟩ := bind_eq_ok.mp h
      cases h
      obtain ⟨hof, happlied⟩ := runEvent_eq_ok hstep
      obtain ⟨hall, hrun⟩ := ih hrest
      exact ⟨.cons hof hall, _, happlied, hrun⟩

theorem AppliedAll.counters (h : AppliedAll state events final) :
    events.map Event.counter = (List.range events.length).map (fun k : ℕ => state.nextCounter + k) := by
  induction events generalizing state with
  | nil => rfl
  | cons event events ih =>
      obtain ⟨next, happlied, hrest⟩ := h
      rw [List.map_cons, ih hrest, List.length_cons, List.range_succ_eq_map, List.map_cons, List.map_map,
        happlied.counter, happlied.next]
      congr 1
      · simp
      · refine List.map_congr_left (fun k _ => ?_)
        simp only [Function.comp_apply, Nat.cast_succ]
        ring

theorem AppliedAll.closes (h : AppliedAll state events final) (hmode : state.mode = .absorbing)
    (hfinal : final.collectionStack = []) : Closes state.collectionStack events := by
  induction events generalizing state with
  | nil =>
      obtain rfl := h
      exact hfinal
  | cons event events ih =>
      obtain ⟨next, happlied, hrest⟩ := h
      refine ⟨fun hinit => ?_, _, happlied.stack, ih hrest happlied.mode⟩
      have huninitialized := happlied.first.mpr hinit
      rw [hmode] at huninitialized
      cases huninitialized

theorem runTranscript_eq_ok (h : spec.runTranscript p events = .ok transcript) :
    List.Forall₂ (StepOf spec p) events transcript.expectedSteps ∧
      ∃ final, AppliedAll (spec.initialSnapshot p) events final ∧ final.mode ≠ .uninitialized ∧
        final.collectionStack = [] := by
  obtain ⟨⟨steps, final⟩, hrun, h⟩ := bind_eq_ok.mp h
  simp only [bind_eq_ok, revertIf_eq_ok, pure_eq_ok] at h
  obtain ⟨-, hmode, -, hstack, rfl⟩ := h
  obtain ⟨hsteps, happlied⟩ := runEvents_eq_ok hrun
  exact ⟨hsteps, final, happlied, hmode, not_ne_iff.mp hstack⟩

/-- A transcript is initialized by its first event. -/
theorem runTranscript_cons (h : spec.runTranscript p events = .ok transcript) :
    ∃ first rest, events = first :: rest ∧ first.tag = .protocolInit ∧
      spec.envelopeFieldWords p = .ok first.payload ∧ TopLevel rest := by
  obtain ⟨hsteps, final, happlied, hmode, hstack⟩ := runTranscript_eq_ok h
  cases events with
  | nil =>
      obtain rfl := happlied
      exact absurd rfl hmode
  | cons first rest =>
      obtain ⟨next, hfirst, hrest⟩ := happlied
      have htag := hfirst.first.mp rfl
      generalize transcript.expectedSteps = steps at hsteps
      cases hsteps with
      | cons hstep _ =>
          have hshape := hstep.shape
          rw [Spec.validateEventShape, if_pos htag] at hshape
          simp only [bind_eq_ok, revertIf_eq_ok] at hshape
          obtain ⟨payload, henvelope, hequal⟩ := hshape
          have hpayload : first.payload = payload := by
            by_contra hne
            exact hequal (.inr (.inr (.inr hne)))
          refine ⟨first, rest, rfl, htag, hpayload ▸ henvelope, closes_nil ?_⟩
          have hcloses := hrest.closes hfirst.mode hstack
          have hnext := hfirst.stack
          generalize next.collectionStack = stack at hcloses hnext
          cases hnext with
          | init => exact hcloses
          | value hvalue => simp [htag, EventTag.isValue] at hvalue
          | squeeze => exact hcloses
          | opened hkind => simp [htag, EventTag.begins] at hkind

end Runs

/-! ### The laws -/

section Laws

variable {spec : Spec}

/-- The blocks that an event absorbs, and the continuations of its squeeze. -/
def Spec.absorbed (spec : Spec) (p : ProfileName) (event : Event) : List Block :=
  match spec.encodeEvent event >>= spec.absorbBlocks p with
  | .ok blocks => blocks
  | .error _ => []

def Spec.continued (spec : Spec) (p : ProfileName) (event : Event) : List Block :=
  match spec.squeezeContinuations p event with
  | .ok blocks => blocks
  | .error _ => []

/-- The event has a frame and the frame has blocks. -/
def Spec.Absorbs (spec : Spec) (p : ProfileName) (event : Event) : Prop :=
  ∃ words blocks, spec.encodeEvent event = .ok words ∧ spec.absorbBlocks p words = .ok blocks

/-- The lanes of the blocks that the events absorb. -/
def Transcript.absorbedLanes (modulus : ℕ) (transcript : Transcript) :
    List (ZMod modulus × List (ZMod modulus)) :=
  transcript.expectedSteps.flatMap (fun step => step.expectedAbsorbBlocks.map (Block.lanes modulus))

/-- The lanes of all blocks, those of the continuations among them. -/
def Transcript.transitionLanes (modulus : ℕ) (transcript : Transcript) :
    List (ZMod modulus × List (ZMod modulus)) :=
  transcript.expectedSteps.flatMap (fun step => step.expectedAbsorbBlocks.map (Block.lanes modulus) ++
    step.expectedSqueezeContinuations.map (Block.lanes modulus))

theorem frame_ne_nil {event : Event} {words : List ℤ} (h : spec.encodeEvent event = .ok words) :
    words ≠ [] := by
  obtain ⟨-, rfl⟩ := encodeEvent_eq_ok h
  exact List.cons_ne_nil _ _

theorem absorbed_eq {p : ProfileName} {event : Event} {words : List ℤ} {blocks : List Block}
    (hwords : spec.encodeEvent event = .ok words) (hblocks : spec.absorbBlocks p words = .ok blocks) :
    spec.absorbed p event = blocks := by
  have hrun : (spec.encodeEvent event >>= spec.absorbBlocks p) = .ok blocks :=
    bind_eq_ok.mpr ⟨words, hwords, hblocks⟩
  rw [Spec.absorbed, hrun]

theorem blockCode (htagged : spec.Tagged) (hframed : spec.Framed) (p : ProfileName) :
    PrefixCode (spec.Absorbs p)
      (fun event => (spec.absorbed p event).map (Block.lanes (spec.fieldProfiles p).modulus)) where
  ne_nil event h hnil := by
    obtain ⟨words, blocks, hwords, hblocks⟩ := h
    obtain ⟨hcount, -⟩ := absorbBlocks_final hframed (frame_ne_nil hwords) hblocks
    rw [absorbed_eq hwords hblocks, List.map_eq_nil_iff] at hnil
    rw [hnil] at hcount
    exact absurd hcount (Nat.lt_irrefl 0)
  unique e f he hf r s heq := by
    obtain ⟨words, blocks, hwords, hblocks⟩ := he
    obtain ⟨words', blocks', hwords', hblocks'⟩ := hf
    rw [absorbed_eq hwords hblocks, absorbed_eq hwords' hblocks'] at heq
    obtain rfl := words_of_lanes hframed (frame_ne_nil hwords) (frame_ne_nil hwords') hblocks hblocks' heq
    obtain ⟨hencodes, rfl⟩ := encodeEvent_eq_ok hwords
    obtain ⟨hencodes', hframe⟩ := encodeEvent_eq_ok hwords'
    exact (frameCode htagged).unique e f hencodes hencodes' [] [] (by rw [hframe])

/-- What is collected over the steps is collected over the events. -/
theorem flatMap_steps {β : Type} {p : ProfileName} {events : List Event} {steps : List Step}
    {f : Event → List β} {g : Step → List β} (h : List.Forall₂ (StepOf spec p) events steps)
    (hfg : ∀ event step, StepOf spec p event step → g step = f event) : steps.flatMap g = events.flatMap f := by
  induction h with
  | nil => rfl
  | cons hstep _ ih => rw [List.flatMap_cons, List.flatMap_cons, hfg _ _ hstep, ih]

theorem forall_events {p : ProfileName} {events : List Event} {steps : List Step} {P : Event → Prop}
    (h : List.Forall₂ (StepOf spec p) events steps) (hP : ∀ event step, StepOf spec p event step → P event) :
    ∀ event ∈ events, P event := by
  induction h with
  | nil => exact fun _ hmem => absurd hmem List.not_mem_nil
  | cons hstep _ ih =>
      intro event hmem
      rcases List.mem_cons.mp hmem with rfl | hmem
      · exact hP _ _ hstep
      · exact ih event hmem

/-- The envelopes of the profiles differ. -/
def Spec.Enveloped (spec : Spec) : Prop :=
  ∀ p q words, spec.envelopeFieldWords p = .ok words → spec.envelopeFieldWords q = .ok words → p = q

structure TranscriptLaws (spec : Spec) : Prop where
  stream : ∀ p q es fs t u, spec.runTranscript p es = .ok t → spec.runTranscript q fs = .ok u →
    t.stream = u.stream → p = q ∧ es = fs
  streamPrefix : ∀ p q es fs t u, spec.runTranscript p es = .ok t → spec.runTranscript q fs = .ok u →
    t.stream <+: u.stream → es <+: fs
  frame : ∀ p words words' blocks blocks', words ≠ [] → words' ≠ [] →
    spec.absorbBlocks p words = .ok blocks → spec.absorbBlocks p words' = .ok blocks' →
      blocks.map (Block.lanes (spec.fieldProfiles p).modulus) =
        blocks'.map (Block.lanes (spec.fieldProfiles p).modulus) → words = words'
  absorbed : ∀ p es fs t u, spec.runTranscript p es = .ok t → spec.runTranscript p fs = .ok u →
    t.absorbedLanes (spec.fieldProfiles p).modulus = u.absorbedLanes (spec.fieldProfiles p).modulus → es = fs
  transitions : ∀ p es fs t u, spec.runTranscript p es = .ok t → spec.runTranscript p fs = .ok u →
    t.transitionLanes (spec.fieldProfiles p).modulus = u.transitionLanes (spec.fieldProfiles p).modulus →
      es = fs
  canonical : ∀ p es t, spec.runTranscript p es = .ok t → ∀ step ∈ t.expectedSteps,
    (∀ word ∈ step.expectedFrameWords, 0 ≤ word ∧ word < (spec.fieldProfiles p).modulus) ∧
      ∀ block ∈ step.expectedAbsorbBlocks, block.control < (spec.fieldProfiles p).modulus
  counters : ∀ p es t, spec.runTranscript p es = .ok t →
    es.map Event.counter = (List.range es.length).map (fun k : ℕ => (k : ℤ))
  /-- No squeeze is in a collection, and a collection has the children that it declares. -/
  nested : ∀ p es t, spec.runTranscript p es = .ok t →
    ∃ first rest, es = first :: rest ∧ first.tag = .protocolInit ∧ TopLevel rest
  rejected : ∀ event state code after,
    (applyEventState event).run.run state = (.error code, after) → after = state

/-- Every word of a frame is canonical, because it stands in a block. -/
theorem StepOf.canonical {p : ProfileName} {event : Event} {step : Step} (hframed : spec.Framed)
    (h : StepOf spec p event step) :
    (∀ word ∈ step.expectedFrameWords, 0 ≤ word ∧ word < (spec.fieldProfiles p).modulus) ∧
      ∀ block ∈ step.expectedAbsorbBlocks, block.control < (spec.fieldProfiles p).modulus := by
  obtain ⟨-, hblocks⟩ := absorbBlocks_eq_ok h.blocks
  constructor
  · intro word hword
    obtain ⟨k, hk, rfl⟩ := List.mem_iff_getElem.mp hword
    obtain ⟨i, j, block, hblock, hat, hj⟩ := absorbBlocks_word hframed h.blocks hk
    have hget := (hblocks i block hblock).word hj
    rw [hat, List.getElem?_eq_getElem hk] at hget
    exact (hblocks i block hblock).canonicalRateWords _ (List.mem_of_getElem? hget)
  · intro block hblock
    obtain ⟨i, hi, rfl⟩ := List.mem_iff_getElem.mp hblock
    exact (hblocks i _ (List.getElem?_eq_getElem hi)).canonicalControl

theorem transcriptLaws (htagged : spec.Tagged) (hframed : spec.Framed) (henveloped : spec.Enveloped) :
    TranscriptLaws spec := by
  have hencodes : ∀ {p events transcript}, spec.runTranscript p events = .ok transcript →
      (∀ event ∈ events, spec.Encodes event) ∧ transcript.stream = events.flatMap spec.frame := by
    intro p events transcript h
    obtain ⟨hsteps, -⟩ := runTranscript_eq_ok h
    exact ⟨forall_events hsteps (fun _ _ hstep => (encodeEvent_eq_ok hstep.words).1),
      flatMap_steps hsteps (fun _ _ hstep => (encodeEvent_eq_ok hstep.words).2)⟩
  have habsorbs : ∀ {p events transcript}, spec.runTranscript p events = .ok transcript →
      ∀ event ∈ events, spec.Absorbs p event := by
    intro p events transcript h
    obtain ⟨hsteps, -⟩ := runTranscript_eq_ok h
    exact forall_events hsteps (fun _ _ hstep => ⟨_, _, hstep.words, hstep.blocks⟩)
  constructor
  case stream =>
    intro p q es fs t u ht hu heq
    obtain ⟨hes, hstream⟩ := hencodes ht
    obtain ⟨hfs, hstream'⟩ := hencodes hu
    rw [hstream, hstream'] at heq
    have hevents := (frameCode htagged).eq_of_flatMap_eq hes hfs heq
    obtain ⟨first, rest, rfl, -, henvelope, -⟩ := runTranscript_cons ht
    obtain ⟨first', rest', rfl, -, henvelope', -⟩ := runTranscript_cons hu
    rw [List.cons.injEq] at hevents
    obtain ⟨rfl, rfl⟩ := hevents
    exact ⟨henveloped p q _ henvelope henvelope', rfl⟩
  case streamPrefix =>
    intro p q es fs t u ht hu hp
    obtain ⟨hes, hstream⟩ := hencodes ht
    obtain ⟨hfs, hstream'⟩ := hencodes hu
    rw [hstream, hstream'] at hp
    exact (frameCode htagged).isPrefix_of_flatMap hes hfs hp
  case frame =>
    intro p words words' blocks blocks' hwords hwords' h h' heq
    exact words_of_lanes hframed hwords hwords' h h' (r := []) (s := []) (by rw [heq])
  case absorbed =>
    intro p es fs t u ht hu heq
    have hlanes : ∀ {events transcript}, spec.runTranscript p events = .ok transcript →
        transcript.absorbedLanes (spec.fieldProfiles p).modulus = events.flatMap
          (fun event => (spec.absorbed p event).map (Block.lanes (spec.fieldProfiles p).modulus)) := by
      intro events transcript h
      refine flatMap_steps (runTranscript_eq_ok h).1 (fun event step hstep => ?_)
      rw [absorbed_eq hstep.words hstep.blocks]
    rw [hlanes ht, hlanes hu] at heq
    exact (blockCode htagged hframed p).eq_of_flatMap_eq (habsorbs ht) (habsorbs hu) heq
  case transitions =>
    intro p es fs t u ht hu heq
    have hlanes : ∀ {events transcript}, spec.runTranscript p events = .ok transcript →
        transcript.transitionLanes (spec.fieldProfiles p).modulus = events.flatMap
          (fun event => (spec.absorbed p event).map (Block.lanes (spec.fieldProfiles p).modulus) ++
            (spec.continued p event).map (Block.lanes (spec.fieldProfiles p).modulus)) := by
      intro events transcript h
      refine flatMap_steps (runTranscript_eq_ok h).1 (fun event step hstep => ?_)
      rw [absorbed_eq hstep.words hstep.blocks, Spec.continued, hstep.continuations]
    rw [hlanes ht, hlanes hu] at heq
    exact ((blockCode htagged hframed p).append _).eq_of_flatMap_eq (habsorbs ht) (habsorbs hu) heq
  case canonical =>
    intro p es t h step hmem
    obtain ⟨hsteps, -⟩ := runTranscript_eq_ok h
    obtain ⟨i, hi, rfl⟩ := List.mem_iff_getElem.mp hmem
    have hi' : i < es.length := by rwa [hsteps.length_eq]
    exact ((List.forall₂_iff_get.mp hsteps).2 i hi' hi).canonical hframed
  case counters =>
    intro p es t h
    obtain ⟨-, final, happlied, -⟩ := runTranscript_eq_ok h
    rw [happlied.counters]
    simp [Spec.initialSnapshot]
  case nested =>
    intro p es t h
    obtain ⟨first, rest, hes, htag, -, hrest⟩ := runTranscript_cons h
    exact ⟨first, rest, hes, htag, hrest⟩
  case rejected =>
    intro event state code after h
    rcases applyEventState_run event state with ⟨code', hrun⟩ | ⟨kind, after', -, hrun⟩
    · rw [hrun] at h
      cases h
      rfl
    · rw [hrun] at h
      cases h

end Laws

/-! ### Specifications that pass their validation -/

section Validation

variable {spec : Spec}

theorem mem_eventTagList (tag : EventTag) : tag ∈ Spec.eventTagList := by cases tag <;> decide

theorem mem_encodingTagList (tag : EncodingTag) : tag ∈ Spec.encodingTagList := by cases tag <;> decide

/-- What the validation checks. -/
theorem validateSpecInvariants_eq_ok (h : spec.validateSpecInvariants = .ok ()) :
    (∀ p, spec.fieldProfiles p = Spec.expectedProfiles p) ∧
      spec.versionEnvelope = ⟨16, [80, 52, 50, 84, 84, 86, 49, 0], 2, 0⟩ ∧
      spec.constants.occupiedShift + 4 ≤ spec.constants.finalShift ∧
      (Spec.eventTagList.map spec.eventTags).Nodup ∧ (Spec.encodingTagList.map spec.encodingTags).Nodup := by
  simp only [Spec.validateSpecInvariants, bind_eq_ok, revertIf_eq_ok, not_or, not_not] at h
  obtain ⟨-, ⟨hinner, houter⟩, -, ⟨hlength, hmagic, hwords, hreserved⟩, -, -, -, -, -, -, -, -, -,
    ⟨-, hlayout, -⟩, -, ⟨htags, hencodings, -⟩, -⟩ := h
  refine ⟨fun p => ?_, ?_, hlayout, htags, hencodings⟩
  · cases p with
    | innerKoalabearV1 => exact hinner
    | outerBn254RateKoalabearV1 => exact houter
  · cases henvelope : spec.versionEnvelope with
    | mk length magic words reserved =>
        rw [henvelope] at hlength hmagic hwords hreserved
        rw [← hlength, ← hmagic, ← hwords, ← hreserved]

theorem enveloped (hprofiles : ∀ p, spec.fieldProfiles p = Spec.expectedProfiles p)
    (henvelope : spec.versionEnvelope = ⟨16, [80, 52, 50, 84, 84, 86, 49, 0], 2, 0⟩) : spec.Enveloped := by
  have hwords : ∀ {p words}, spec.envelopeFieldWords p = .ok words →
      words[5]? = some (256 * ((Spec.expectedProfiles p).profileId : ℤ) + (Spec.expectedProfiles p).fieldId) := by
    intro p words h
    simp only [Spec.envelopeFieldWords, Spec.canonicalEnvelopeBytes, bind_eq_ok, revertIf_eq_ok, pure_eq_ok,
      hprofiles, henvelope] at h
    obtain ⟨wire, ⟨-, -, -, -, -, -, rfl⟩, rfl⟩ := h
    simp [Spec.fieldWords, List.range_succ]
  intro p q words hp hq
  have heq := (hwords hp).symm.trans (hwords hq)
  cases p <;> cases q <;> simp [Spec.expectedProfiles] at heq ⊢

theorem typed_transcripts (h : spec.validateSpecInvariants = .ok ()) : TranscriptLaws spec := by
  obtain ⟨hprofiles, henvelope, hlayout, htags, hencodings⟩ := validateSpecInvariants_eq_ok h
  refine transcriptLaws ⟨?_, ?_⟩ ⟨hlayout, ?_⟩ (enveloped hprofiles henvelope)
  · intro tag tag' heq
    exact List.inj_on_of_nodup_map htags (mem_eventTagList tag) (mem_eventTagList tag') heq
  · intro tag tag' heq
    exact List.inj_on_of_nodup_map hencodings (mem_encodingTagList tag) (mem_encodingTagList tag') heq
  · intro p
    rw [hprofiles p]
    cases p <;> decide

namespace TranscriptSample

/-- An envelope, a container of one digest, and a squeeze. -/
def events : List Event :=
  [⟨.protocolInit, .versionEnvelopeU16, 0, 16, [20532, 12884, 21590, 12544, 1, 257, 264, 4096]⟩,
    ⟨.containerBegin, .container, 1, 1, []⟩, ⟨.digest, .koalaBearDigest8, 2, 1, [1, 2, 3, 4, 5, 6, 7, 8]⟩,
    ⟨.containerEnd, .container, 3, 0, []⟩, ⟨.squeezeField, .squeezeRequest, 4, 20, []⟩]

end TranscriptSample

theorem typed_transcripts_v1 : TranscriptLaws .typedTranscriptV1 ∧
    ∃ t, Spec.runTranscript .typedTranscriptV1 .innerKoalabearV1 TranscriptSample.events = .ok t ∧
      t.stream.length = 101 := by
  refine ⟨typed_transcripts rfl, ?_⟩
  have hrun : (Spec.runTranscript .typedTranscriptV1 .innerKoalabearV1
      TranscriptSample.events).toOption.map (fun t => t.stream.length) = some 101 := by decide +kernel
  obtain ⟨t, ht, hlength⟩ := Option.map_eq_some_iff.mp hrun
  exact ⟨t, toOption_eq_some.mp ht, hlength⟩

end Validation

end P42Prizes.TypedTranscript
