import P42Prizes.Generations

/-! # What the hashes of a generation bind

The stream that is hashed of an archive determines its tree: every path is written in full and ends at a
null, so where an entry ends is seen from the path of the next one, which is below it or not.  The text
that is hashed for an id determines the checkpoint, the digest of the archive and the predecessor. -/

namespace P42Prizes.Generations

open JsonText

/-! ### Numbers -/

theorem ofNat_digit {c : Char} (hc : c.isDigit = true) : Char.ofNat (digit c).toNat = c := by
  have hlt : c.toNat < 256 := by
    have hle : c.toNat ≤ 57 := (Char.isDigit_iff_toNat.mp hc).2
    omega
  rw [digit, UInt8.toNat_ofNat_of_lt' hlt, Char.ofNat_toNat]

theorem decimal_chars (n : ℕ) :
    (decimal n).map (fun b => Char.ofNat b.toNat) = Nat.toDigits 10 n := by
  rw [decimal, List.map_map]
  calc (Nat.toDigits 10 n).map _
    _ = (Nat.toDigits 10 n).map id := List.map_congr_left (fun c hc =>
        ofNat_digit (Nat.isDigit_of_mem_toDigits (by decide) (by decide) hc))
    _ = Nat.toDigits 10 n := List.map_id _

theorem decimal_injective : Function.Injective decimal := by
  intro n m h
  have hdigits : Nat.toDigits 10 n = Nat.toDigits 10 m := by
    rw [← decimal_chars, ← decimal_chars, h]
  rw [← Nat.ofDigitChars_ten_toDigits (n := n), hdigits, Nat.ofDigitChars_ten_toDigits]

theorem isDigit_decimal {n : ℕ} {b : UInt8} (hb : b ∈ decimal n) : isDigit b = true := by
  obtain ⟨c, hc, rfl⟩ := List.mem_map.mp hb
  have hdigit := Nat.isDigit_of_mem_toDigits (by decide) (by decide) hc
  obtain ⟨hlow, hhigh⟩ : 48 ≤ c.toNat ∧ c.toNat ≤ 57 := Char.isDigit_iff_toNat.mp hdigit
  have hlt : c.toNat < 256 := by omega
  simp only [isDigit, digit, Bool.and_eq_true, decide_eq_true_eq, UInt8.le_iff_toNat_le,
    UInt8.toNat_ofNat_of_lt' hlt]
  exact ⟨hlow, hhigh⟩

theorem padded_length {n : ℕ} (hn : n < 10 ^ 16) : (padded n).length = 16 := by
  have hle : (decimal n).length ≤ 16 := by
    rw [decimal, List.length_map]
    exact (Nat.length_toDigits_le_iff (by decide) (by decide)).mpr hn
  rw [padded, List.length_append, List.length_replicate]
  omega

theorem isDigit_padded {n : ℕ} {b : UInt8} (hb : b ∈ padded n) : isDigit b = true := by
  rcases List.mem_append.mp hb with hb | hb
  · rw [List.eq_of_mem_replicate hb]
    decide
  · exact isDigit_decimal hb

theorem number_padded (n : ℕ) : number (padded n) = n := by
  rw [number, padded, List.map_append, List.map_replicate, decimal_chars, Nat.ofDigitChars_append,
    show Char.ofNat (UInt8.toNat 48) = '0' from rfl, Nat.ofDigitChars_replicate_zero, Nat.mul_zero,
    Nat.ofDigitChars_ten_toDigits]

/-! ### Archives -/

/-- A text up to a byte that it does not have is seen from what follows. -/
theorem append_cons_inj {x y r s : Bytes} {b : UInt8} (hx : b ∉ x) (hy : b ∉ y)
    (h : x ++ b :: r = y ++ b :: s) : x = y ∧ r = s := by
  induction x generalizing y with
  | nil =>
      cases y with
      | nil => exact ⟨rfl, (List.cons.inj h).2⟩
      | cons c y => exact absurd ((List.cons.inj h).1 ▸ List.mem_cons_self ..) hy
  | cons c x ih =>
      cases y with
      | nil => exact absurd ((List.cons.inj h).1 ▸ List.mem_cons_self ..) hx
      | cons d y =>
          obtain ⟨hcd, hrest⟩ := List.cons.inj h
          obtain ⟨rfl, hrs⟩ := ih (fun hmem => hx (List.mem_cons_of_mem _ hmem))
            (fun hmem => hy (List.mem_cons_of_mem _ hmem)) hrest
          exact ⟨by rw [hcd], hrs⟩

/-- The beginning of what is hashed of the entry at `path`. -/
def Begins (path stream : Bytes) : Prop :=
  ∃ kind ∈ [ascii "file", ascii "directory"], ∃ rest, stream = kind ++ 0 :: (path ++ 0 :: rest)

/-- The paths below the directory at `relative`. -/
def Below (relative path : Bytes) : Prop :=
  ∃ name : Name, ∃ rest, path = joined relative name ++ rest ∧ (rest = [] ∨ rest.head? = some 47)

/-- What follows the entry at `relative` is not below it. -/
def Leaves (relative stream : Bytes) : Prop :=
  ∀ path, 0 ∉ path → Begins path stream → ¬ Below relative path

theorem Begins.unique {path path' stream : Bytes} (hp : 0 ∉ path) (hp' : 0 ∉ path')
    (h : Begins path stream) (h' : Begins path' stream) : path = path' := by
  obtain ⟨kind, hkind, rest, rfl⟩ := h
  obtain ⟨kind', hkind', rest', heq⟩ := h'
  have hnull : ∀ k ∈ [ascii "file", ascii "directory"], (0 : UInt8) ∉ k := by decide
  obtain ⟨-, hpaths⟩ := append_cons_inj (hnull _ hkind) (hnull _ hkind') heq
  exact (append_cons_inj hp hp' hpaths).1

theorem joined_no_null {relative : Bytes} (h : 0 ∉ relative) (name : Name) : 0 ∉ joined relative name := by
  unfold joined
  split
  · exact name.no_null
  · rw [List.mem_append, List.mem_cons]
    rintro (hmem | hmem | hmem)
    · exact h hmem
    · exact absurd hmem (by decide)
    · exact name.no_null hmem

theorem joined_inj {relative : Bytes} {name name' : Name} (h : joined relative name = joined relative name') :
    name = name' := by
  have htext : name.text = name'.text := by
    unfold joined at h
    split at h
    · exact h
    · exact (List.cons.inj (List.append_cancel_left h)).2
  cases name
  cases name'
  cases htext
  rfl

theorem joined_ne_nil (relative : Bytes) (name : Name) : joined relative name ≠ [] := by
  unfold joined
  split
  · exact name.ne_nil
  · exact fun h => List.cons_ne_nil _ _ (List.append_eq_nil_iff.mp h).2

theorem Below.trans {relative path : Bytes} {name : Name} (h : Below (joined relative name) path) :
    Below relative path := by
  obtain ⟨below, rest, rfl, -⟩ := h
  refine ⟨name, 47 :: below.text ++ rest, ?_, .inr rfl⟩
  rw [joined, if_neg (joined_ne_nil relative name), List.append_assoc]

/-- An entry beside `name` is not below it. -/
theorem not_below_joined {relative : Bytes} {name name' : Name} :
    ¬ Below (joined relative name) (joined relative name') := by
  rintro ⟨below, rest, heq, -⟩
  have hjoined : joined (joined relative name) below = joined relative name ++ 47 :: below.text :=
    if_neg (joined_ne_nil relative name)
  rw [hjoined] at heq
  have hslash : (47 : UInt8) ∈ name'.text := by
    unfold joined at heq
    split at heq
    · rw [heq]
      simp
    · rw [List.append_assoc, List.append_assoc, List.append_cancel_left_eq, List.cons_append,
        List.cons.injEq] at heq
      rw [heq.2]
      simp
  exact name'.no_slash hslash

theorem Leaves.joined {relative stream : Bytes} (h : Leaves relative stream) (name : Name) :
    Leaves (joined relative name) stream :=
  fun path hpath hbegins hbelow => h path hpath hbegins hbelow.trans

theorem leaves_of_begins {relative path stream : Bytes} (hpath : 0 ∉ path) (h : Begins path stream)
    (hbelow : ¬ Below relative path) : Leaves relative stream := by
  intro path' hpath' hbegins'
  rwa [← Begins.unique hpath hpath' h hbegins']

theorem visit_begins {relative x : Bytes} {entry : Entry} (h : visit relative entry = .ok x)
    (rest : Bytes) : Begins relative (x ++ rest) := by
  cases entry with
  | file bytes =>
      cases h
      exact ⟨_, List.mem_cons_self .., decimal bytes.length ++ 0 :: bytes ++ rest, by simp⟩
  | directory entries =>
      rw [visit] at h
      cases hbelow : visitAll relative entries with
      | error e =>
          rw [hbelow] at h
          cases h
      | ok below =>
          rw [hbelow] at h
          cases h
          exact ⟨_, List.mem_cons_of_mem _ (List.mem_cons_self ..), below ++ rest, by simp⟩
  | symbolicLink toDirectory => cases h
  | unsupported => cases h

theorem visit_directory_eq_ok {relative x : Bytes} {entries : List (Name × Entry)}
    (h : visit relative (.directory entries) = .ok x) :
    ∃ below, visitAll relative entries = .ok below ∧
      x = ascii "directory" ++ 0 :: (relative ++ 0 :: below) := by
  rw [visit] at h
  cases hbelow : visitAll relative entries with
  | error e =>
      rw [hbelow] at h
      cases h
  | ok below =>
      rw [hbelow] at h
      cases h
      exact ⟨below, rfl, rfl⟩

theorem visitAll_cons_eq_ok {relative x : Bytes} {name : Name} {entry : Entry}
    {rest : List (Name × Entry)} (h : visitAll relative ((name, entry) :: rest) = .ok x) :
    ∃ first others, visit (joined relative name) entry = .ok first ∧ visitAll relative rest = .ok others ∧
      x = first ++ others := by
  rw [visitAll] at h
  cases hfirst : visit (joined relative name) entry with
  | error e =>
      rw [hfirst] at h
      cases h
  | ok first =>
      cases hothers : visitAll relative rest with
      | error e =>
          rw [hfirst, hothers] at h
          cases h
      | ok others =>
          rw [hfirst, hothers] at h
          cases h
          exact ⟨first, others, rfl, rfl, rfl⟩

/-- What is hashed of the other entries leaves the first one. -/
theorem visitAll_leaves {relative x t : Bytes} {name : Name} {rest : List (Name × Entry)}
    (hrel : 0 ∉ relative) (h : visitAll relative rest = .ok x) (ht : Leaves relative t) :
    Leaves (joined relative name) (x ++ t) := by
  cases rest with
  | nil =>
      cases h
      exact ht.joined name
  | cons head rest =>
      obtain ⟨first, others, hfirst, -, rfl⟩ := visitAll_cons_eq_ok h
      rw [List.append_assoc]
      exact leaves_of_begins (joined_no_null hrel _) (visit_begins hfirst _) not_below_joined

theorem nil_of_leaves {relative x t : Bytes} {rest : List (Name × Entry)} (hrel : 0 ∉ relative)
    (h : visitAll relative rest = .ok x) (ht : Leaves relative (x ++ t)) : rest = [] := by
  cases rest with
  | nil => rfl
  | cons head rest =>
      obtain ⟨first, others, hfirst, -, rfl⟩ := visitAll_cons_eq_ok h
      rw [List.append_assoc] at ht
      exact absurd ⟨head.1, [], by rw [List.append_nil], .inl rfl⟩
        (ht _ (joined_no_null hrel _) (visit_begins hfirst _))

mutual

/-- The tree is seen from what is hashed of it. -/
theorem visit_inj (entry entry' : Entry) {relative x x' t t' : Bytes} (hrel : 0 ∉ relative)
    (h : visit relative entry = .ok x) (h' : visit relative entry' = .ok x') (ht : Leaves relative t)
    (ht' : Leaves relative t') (heq : x ++ t = x' ++ t') : entry = entry' ∧ t = t' := by
  match entry, entry' with
  | .file bytes, .file bytes' =>
      cases h
      cases h'
      simp only [List.append_assoc, List.cons_append, List.append_cancel_left_eq, List.cons.injEq,
        true_and] at heq
      have hnull : ∀ n, (0 : UInt8) ∉ decimal n := fun n hmem =>
        absurd (isDigit_decimal hmem) (by decide)
      obtain ⟨hlength, hbytes⟩ := append_cons_inj (hnull _) (hnull _) heq
      obtain ⟨rfl, hrest⟩ := List.append_inj hbytes (decimal_injective hlength)
      exact ⟨rfl, hrest⟩
  | .directory entries, .directory entries' =>
      obtain ⟨below, hbelow, rfl⟩ := visit_directory_eq_ok h
      obtain ⟨below', hbelow', rfl⟩ := visit_directory_eq_ok h'
      simp only [List.append_assoc, List.cons_append, List.append_cancel_left_eq, List.cons.injEq,
        true_and] at heq
      obtain ⟨rfl, hrest⟩ := visitAll_inj entries entries' hrel hbelow hbelow' ht ht' heq
      exact ⟨rfl, hrest⟩
  | .file bytes, .directory entries =>
      cases h
      obtain ⟨below, -, rfl⟩ := visit_directory_eq_ok h'
      exact absurd (List.cons.inj heq).1 (by decide)
  | .directory entries, .file bytes =>
      cases h'
      obtain ⟨below, -, rfl⟩ := visit_directory_eq_ok h
      exact absurd (List.cons.inj heq).1 (by decide)
  | .symbolicLink _, _ => cases h
  | .unsupported, _ => cases h
  | .file _, .symbolicLink _ | .directory _, .symbolicLink _ => cases h'
  | .file _, .unsupported | .directory _, .unsupported => cases h'

theorem visitAll_inj (entries entries' : List (Name × Entry)) {relative x x' t t' : Bytes}
    (hrel : 0 ∉ relative) (h : visitAll relative entries = .ok x)
    (h' : visitAll relative entries' = .ok x') (ht : Leaves relative t) (ht' : Leaves relative t')
    (heq : x ++ t = x' ++ t') : entries = entries' ∧ t = t' := by
  match entries, entries' with
  | [], [] =>
      cases h
      cases h'
      exact ⟨rfl, heq⟩
  | [], head :: rest =>
      cases h
      have hnil := nil_of_leaves (t := t') hrel h' (by rw [← heq]; exact ht)
      cases hnil
  | head :: rest, [] =>
      cases h'
      have hnil := nil_of_leaves (t := t) hrel h (by rw [heq]; exact ht')
      cases hnil
  | (name, entry) :: rest, (name', entry') :: rest' =>
      obtain ⟨first, others, hfirst, hothers, rfl⟩ := visitAll_cons_eq_ok h
      obtain ⟨first', others', hfirst', hothers', rfl⟩ := visitAll_cons_eq_ok h'
      rw [List.append_assoc, List.append_assoc] at heq
      obtain rfl : name = name' := by
        refine joined_inj (Begins.unique (joined_no_null hrel _) (joined_no_null hrel _)
          (visit_begins hfirst (others ++ t)) ?_)
        rw [heq]
        exact visit_begins hfirst' _
      obtain ⟨rfl, hrest⟩ := visit_inj entry entry' (joined_no_null hrel _) hfirst hfirst'
        (visitAll_leaves hrel hothers ht) (visitAll_leaves hrel hothers' ht') heq
      obtain ⟨rfl, htail⟩ := visitAll_inj rest rest' hrel hothers hothers' ht ht' hrest
      exact ⟨rfl, htail⟩

end

theorem archive_eq {archive archive' : Entry} {x : Bytes} (h : visit [] archive = .ok x)
    (h' : visit [] archive' = .ok x) : archive = archive' := by
  have hnil : Leaves [] [] := by
    rintro path - ⟨kind, -, rest, hempty⟩
    exact absurd (List.append_eq_nil_iff.mp hempty.symm).2 (List.cons_ne_nil _ _)
  exact (visit_inj archive archive' List.not_mem_nil h h' hnil hnil rfl).1

mutual

/-- An archive that is hashed matches itself. -/
theorem matching_self (entry : Entry) {relative x : Bytes} (h : visit relative entry = .ok x) :
    assertMatchingGenerationTrees entry entry = .ok () := by
  match entry with
  | .file bytes =>
      rw [assertMatchingGenerationTrees, if_pos rfl]
      rfl
  | .directory entries =>
      obtain ⟨below, hbelow, -⟩ := visit_directory_eq_ok h
      rw [assertMatchingGenerationTrees, matchingEntries_self entries hbelow, Reverting.revertIf,
        if_neg (fun hne => hne rfl)]
      rfl
  | .symbolicLink _ => cases h
  | .unsupported => cases h

theorem matchingEntries_self (entries : List (Name × Entry)) {relative x : Bytes}
    (h : visitAll relative entries = .ok x) : assertMatchingEntries entries entries = .ok () := by
  match entries with
  | [] => rfl
  | (name, entry) :: rest =>
      obtain ⟨first, others, hfirst, hothers, -⟩ := visitAll_cons_eq_ok h
      rw [assertMatchingEntries, matching_self entry hfirst, matchingEntries_self rest hothers]
      rfl

end

/-! ### Ids -/

/-- What the publisher relies on: the digests of the hash are written in lower case, and the block of a
checkpoint that the validator accepts is a safe integer. -/
structure Service.Lawful (svc : Service) : Prop where
  length : ∀ text, (svc.sha256 text).length = 64
  hex : ∀ text, ∀ b ∈ svc.sha256 text, isLowerHex b = true
  block : ∀ checkpoint, svc.validator checkpoint = true →
    ∃ n ≤ 2 ^ 53 - 1, (rangeField "toBlock" checkpoint).bind natural = some n

section Ids

variable {svc : Service} {checkpoint checkpoint' : Json} {digest digest' : Bytes}
  {previous previous' : Option Bytes} {id id' : Bytes} {recovery recovery' : Recovery}

theorem optional_injective : Function.Injective optional := by
  intro x y h
  cases x <;> cases y <;> cases h <;> rfl

theorem identityText_inj
    (h : Service.identityText checkpoint digest previous =
      Service.identityText checkpoint' digest' previous') :
    checkpoint = checkpoint' ∧ digest = digest' ∧ previous = previous' := by
  have hobject := Json.stringify_injective h
  simp only [Members.ofList, Json.object.injEq, Members.cons.injEq, Json.string.injEq, true_and,
    and_true] at hobject
  exact ⟨hobject.2.1, hobject.1, optional_injective hobject.2.2⟩

theorem Condition.text_injective : Function.Injective Condition.text := by
  intro x y h
  cases x <;> cases y <;> first | rfl | exact absurd h (by decide)

theorem recoveryText_inj (h : Service.recoveryText recovery = Service.recoveryText recovery') :
    recovery = recovery' := by
  have hobject := Json.stringify_injective h
  simp only [Members.ofList, Json.object.injEq, Members.cons.injEq, Json.string.injEq, true_and,
    and_true] at hobject
  obtain ⟨hid, hcondition, hprevious, hreplaced⟩ := hobject
  cases recovery with
  | mk id condition previous replaced =>
  cases recovery' with
  | mk id' condition' previous' replaced' =>
      rw [Recovery.mk.injEq]
      exact ⟨hid, Condition.text_injective hcondition, optional_injective hprevious, hreplaced⟩

/-- What ids are written with. -/
theorem Service.Lawful.plain (h : svc.Lawful) {b : UInt8}
    (hb : b ∈ svc.generationId checkpoint digest previous) : isLowerHex b = true ∨ b = 45 := by
  rw [Service.generationId, List.mem_append, List.mem_cons] at hb
  rcases hb with hb | rfl | hb
  · exact .inl (by rw [isLowerHex, isDigit_padded hb, Bool.true_or])
  · exact .inr rfl
  · exact .inl (h.hex _ b hb)

theorem Service.Lawful.notMem (h : svc.Lawful) {b : UInt8} (hb : isLowerHex b = false) (hne : b ≠ 45) :
    b ∉ svc.generationId checkpoint digest previous := by
  intro hmem
  rcases h.plain hmem with hplain | hplain
  · rw [hb] at hplain
    cases hplain
  · exact hne hplain

theorem mem_of_isRecovery {text : Bytes} (h : isRecovery text = true) : 114 ∈ text := by
  obtain ⟨tail, htail, hstart⟩ := List.any_eq_true.mp h
  have hmem : (114 : UInt8) ∈ tail :=
    (List.isPrefixOf_iff_prefix.mp hstart).subset (by decide)
  exact ((List.mem_tails _ _).mp htail).subset hmem

theorem isRecovery_generationId (h : svc.Lawful) :
    isRecovery (svc.generationId checkpoint digest previous) = false := by
  by_contra hrecovery
  rw [Bool.not_eq_false] at hrecovery
  exact h.notMem (by decide) (by decide) (mem_of_isRecovery hrecovery)

theorem isBasename_generationId (h : svc.Lawful) :
    isBasename (svc.generationId checkpoint digest previous) = true := by
  have hslash : 47 ∉ svc.generationId checkpoint digest previous := h.notMem
    (by decide) (by decide)
  simp [isBasename, hslash]

theorem isBasename_append {x y : Bytes} : isBasename (x ++ y) = (isBasename x && isBasename y) := by
  rw [Bool.eq_iff_iff]
  simp [isBasename]

theorem Service.Lawful.isBasename_sha256 (h : svc.Lawful) (text : Bytes) :
    isBasename (svc.sha256 text) = true := by
  have hslash : (47 : UInt8) ∉ svc.sha256 text := by
    intro hmem
    exact absurd (h.hex text 47 hmem) (by decide)
  simp [isBasename, hslash]

theorem isBasename_recoveryStorageId (h : svc.Lawful) (hid : isBasename id = true) :
    isBasename (svc.recoveryStorageId id recovery) = true := by
  rw [Service.recoveryStorageId, isBasename_append, isBasename_append, hid, h.isBasename_sha256]
  decide

variable (svc id recovery) in
theorem isRecovery_recoveryStorageId : isRecovery (svc.recoveryStorageId id recovery) = true := by
  refine List.any_eq_true.mpr ⟨ascii "-recovery-" ++ svc.sha256 (Service.recoveryText recovery), ?_, ?_⟩
  · rw [List.mem_tails, Service.recoveryStorageId, List.append_assoc]
    exact List.suffix_append _ _
  · rw [List.isPrefixOf_iff_prefix]
    exact List.prefix_append _ _

theorem Service.Lawful.toBlock_lt (h : svc.Lawful) (hvalid : svc.validator checkpoint = true) :
    toBlock checkpoint < 10 ^ 16 := by
  obtain ⟨n, hn, hblock⟩ := h.block checkpoint hvalid
  rw [toBlock, hblock, Option.getD_some]
  omega

theorem take_generationId (hblock : toBlock checkpoint < 10 ^ 16) :
    (svc.generationId checkpoint digest previous).take 16 = padded (toBlock checkpoint) := by
  rw [Service.generationId, List.take_left' (padded_length hblock)]

theorem height_generationId (hblock : toBlock checkpoint < 10 ^ 16) :
    number ((svc.generationId checkpoint digest previous).take 16) = toBlock checkpoint := by
  rw [take_generationId hblock, number_padded]

theorem length_generationId (h : svc.Lawful) (hblock : toBlock checkpoint < 10 ^ 16) :
    (svc.generationId checkpoint digest previous).length = 81 := by
  rw [Service.generationId, List.length_append, List.length_cons, padded_length hblock, h.length]

theorem isGenerationId_generationId (h : svc.Lawful) (hblock : toBlock checkpoint < 10 ^ 16) :
    isGenerationId (svc.generationId checkpoint digest previous) = true := by
  have hdrop : (svc.generationId checkpoint digest previous).drop 16 =
      45 :: svc.sha256 (Service.identityText checkpoint digest previous) := by
    rw [Service.generationId, List.drop_left' (padded_length hblock)]
  have hdrop' : (svc.generationId checkpoint digest previous).drop 17 =
      svc.sha256 (Service.identityText checkpoint digest previous) := by
    rw [show 17 = 16 + 1 from rfl, ← List.drop_drop, hdrop]
    rfl
  simp only [isGenerationId, length_generationId h hblock, take_generationId hblock, hdrop, hdrop',
    decide_true, List.head?_cons, Bool.true_and, Bool.and_true, Bool.and_eq_true, List.all_eq_true]
  exact ⟨fun b hb => isDigit_padded hb, h.hex _⟩

/-- The directory of a recovery begins with the id, and is longer than it. -/
theorem take_recoveryStorageId (hid : id.length = 81) :
    (svc.recoveryStorageId id recovery).take 16 = id.take 16 := by
  rw [Service.recoveryStorageId, List.append_assoc, List.take_append_of_le_length (by omega)]

theorem recoveryStorageId_id (hid : id.length = 81) (hid' : id'.length = 81)
    (h : svc.recoveryStorageId id recovery = svc.recoveryStorageId id' recovery') : id = id' := by
  rw [Service.recoveryStorageId, Service.recoveryStorageId, List.append_assoc, List.append_assoc] at h
  exact (List.append_inj h (hid.trans hid'.symm)).1

theorem recoveryStorageId_inj
    (h : svc.recoveryStorageId id recovery = svc.recoveryStorageId id recovery') :
    svc.sha256 (Service.recoveryText recovery) = svc.sha256 (Service.recoveryText recovery') :=
  List.append_cancel_left h

end Ids

end P42Prizes.Generations
