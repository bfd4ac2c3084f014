import P42Prizes.Abi
import P42Prizes.ManagerMoves
import P42Prizes.PrefixCodes

/-! # Commitment preimages are unambiguous

A preimage puts free text between fixed words.  Each text follows its length in decimal digits and a
colon, so it can be read back whatever it contains: the digits end at the first colon, and the length
says where the text ends (`textField_code`).  The hex forms have one length each.  So a preimage
determines its fields, and `reveal` opens a commitment only as the tuple it was made for, unless the
two preimages collide. -/

namespace P42Prizes

open Reverting PrefixCodes

/-! ### Decimal digits -/

/-- The number a decimal text stands for, read after the digits of `n`. -/
def readDigits (n : ℕ) (bs : Bytes) : ℕ := bs.foldl (fun acc b => acc * 10 + (b.toNat - 48)) n

theorem toNat_digit (value : ℕ) : (UInt8.ofNat (48 + value % 10)).toNat = 48 + value % 10 := by
  have hlt : 48 + value % 10 < 2 ^ 8 := by omega
  rw [UInt8.toNat_ofNat', Nat.mod_eq_of_lt hlt]

theorem readDigits_digitsBefore {fuel value : ℕ} (h : value ≤ fuel) (acc : Bytes) :
    readDigits 0 (digitsBefore fuel value acc) = readDigits value acc := by
  induction fuel generalizing value acc with
  | zero =>
      obtain rfl := Nat.le_zero.mp h
      rfl
  | succ fuel ih =>
      rw [digitsBefore]
      split
      · next hzero => rw [hzero]
      · rw [ih (by omega), readDigits, List.foldl_cons, toNat_digit, Nat.add_sub_cancel_left,
          Nat.div_add_mod', readDigits]

theorem readDigits_uintToString (value : ℕ) : readDigits 0 (uintToString value) = value := by
  unfold uintToString
  split
  · next hzero =>
      rw [hzero]
      rfl
  · exact readDigits_digitsBefore le_rfl []

theorem uintToString_injective : Function.Injective uintToString := by
  intro m n h
  rw [← readDigits_uintToString m, h, readDigits_uintToString]

theorem mem_digitsBefore {fuel value : ℕ} {acc : Bytes} {b : UInt8}
    (h : b ∈ digitsBefore fuel value acc) : b ∈ acc ∨ b.toNat < 58 := by
  induction fuel generalizing value acc with
  | zero => exact .inl h
  | succ fuel ih =>
      rw [digitsBefore] at h
      split at h
      · exact .inl h
      · obtain hcons | hlt := ih h
        · obtain rfl | hacc := List.mem_cons.mp hcons
          · refine .inr ?_
            rw [toNat_digit]
            omega
          · exact .inl hacc
        · exact .inr hlt

theorem colon_not_mem_uintToString (value : ℕ) : (58 : UInt8) ∉ uintToString value := by
  intro h
  unfold uintToString at h
  split at h
  · exact absurd h (by decide)
  · obtain hnil | hlt := mem_digitsBefore h
    · cases hnil
    · exact absurd hlt (by decide)

/-! ### Fields -/

/-- A text behind its length, as both preimages write it. -/
def textField (text : Bytes) : Bytes := uintToString text.length ++ ascii ":" ++ text

/-- A text field tells where it ends, whatever its text contains. -/
theorem textField_code : PrefixCode (fun _ => True) textField where
  ne_nil := by
    intro text _ hnil
    have hlength := congrArg List.length hnil
    rw [textField, List.length_append, List.length_append] at hlength
    exact absurd (Nat.add_eq_zero_iff.mp (Nat.add_eq_zero_iff.mp hlength).1).2 (by decide)
  unique := by
    intro text text' _ _ r s h
    simp only [textField, List.append_assoc] at h
    have hcolon : ascii ":" = [58] := by decide
    rw [hcolon, List.singleton_append, List.singleton_append] at h
    obtain ⟨hdigits, hrest⟩ :=
      append_cons_inj (colon_not_mem_uintToString _) (colon_not_mem_uintToString _) h
    exact (List.append_inj hrest (uintToString_injective hdigits)).1

theorem textField_injective {text text' r s : Bytes} (h : textField text ++ r = textField text' ++ s) :
    text = text' ∧ r = s := by
  obtain rfl := textField_code.unique text text' trivial trivial r s h
  exact ⟨rfl, List.append_cancel_left h⟩

theorem hexSymbol_inj {m n : ℕ} (hm : m < 16) (hn : n < 16) (h : hexSymbol m = hexSymbol n) : m = n := by
  have hlt : ∀ k < 16, (hexSymbol k).toNat = if k < 10 then 48 + k else 87 + k := by decide
  have heq := congrArg UInt8.toNat h
  rw [hlt m hm, hlt n hn] at heq
  split at heq <;> split at heq <;> omega

theorem lowerHex_length (data : Bytes) : (lowerHex data).length = 2 + 2 * data.length := by
  have hflat : (data.flatMap fun b => [hexSymbol (b.toNat / 16), hexSymbol (b.toNat % 16)]).length =
      2 * data.length := by
    rw [List.length_flatMap]
    simp [mul_comm]
  rw [lowerHex, List.length_append, hflat]
  rfl

theorem lowerHex_injective : Function.Injective lowerHex := by
  have hpair : Function.Injective
      (fun b : UInt8 => [hexSymbol (b.toNat / 16), hexSymbol (b.toNat % 16)]) := by
    intro b c h
    simp only [List.cons.injEq, and_true] at h
    have hb := b.toNat_lt
    have hc := c.toNat_lt
    have hhigh := hexSymbol_inj (by omega) (by omega) h.1
    have hlow := hexSymbol_inj (by omega) (by omega) h.2
    exact UInt8.toNat_inj.mp (by omega)
  intro data data' h
  have hflat := List.append_cancel_left h
  exact flatMap_injective Nat.two_pos (fun _ => rfl) hpair hflat

theorem addressBytes_length (a : Address) : (addressBytes a).length = 20 := by
  rw [addressBytes, List.length_map, List.length_range]

theorem addressBytes_injective : Function.Injective addressBytes := by
  intro a b h
  exact eq_of_bytes (n := 20) h

theorem addressToLowerHex_inj {a b : Address} {r s : Bytes}
    (h : addressToLowerHex a ++ r = addressToLowerHex b ++ s) : a = b ∧ r = s := by
  obtain ⟨hhead, htail⟩ := List.append_inj h
    (by simp only [addressToLowerHex, lowerHex_length, addressBytes_length])
  exact ⟨addressBytes_injective (lowerHex_injective hhead), htail⟩

theorem bytes32ToLowerHex_inj {v w : Bytes32} {r s : Bytes}
    (h : bytes32ToLowerHex v ++ r = bytes32ToLowerHex w ++ s) : v = w ∧ r = s := by
  obtain ⟨hhead, htail⟩ := List.append_inj h
    (by simp only [bytes32ToLowerHex, lowerHex_length, wordBytes_length])
  exact ⟨wordBytes_injective (lowerHex_injective hhead), htail⟩

/-! ### Preimages -/

theorem commitPreimage_eq (solutionCid : Bytes) (solver : Address) (salt : Bytes) :
    commitPreimage solutionCid solver salt =
      ascii "p42:v0|cid:" ++ (textField solutionCid ++ (ascii "|solver:" ++
        (addressToLowerHex solver ++ (ascii "|salt:" ++ (textField salt ++ []))))) := by
  simp only [commitPreimage, textField, List.append_assoc, List.append_nil]

theorem commitPreimageWithDa_eq (solutionCid : Bytes) (solver : Address) (commitDaHash : Bytes32)
    (salt : Bytes) :
    commitPreimageWithDa solutionCid solver commitDaHash salt =
      ascii "p42:v1|cid:" ++ (textField solutionCid ++ (ascii "|solver:" ++
        (addressToLowerHex solver ++ (ascii "|da:" ++ (bytes32ToLowerHex commitDaHash ++
          (ascii "|salt:" ++ (textField salt ++ []))))))) := by
  simp only [commitPreimageWithDa, textField, List.append_assoc, List.append_nil]

theorem commitPreimage_inj {cid cid' salt salt' : Bytes} {solver solver' : Address}
    (h : commitPreimage cid solver salt = commitPreimage cid' solver' salt') :
    cid = cid' ∧ solver = solver' ∧ salt = salt' := by
  rw [commitPreimage_eq, commitPreimage_eq] at h
  obtain ⟨hcid, h⟩ := textField_injective (List.append_cancel_left h)
  obtain ⟨hsolver, h⟩ := addressToLowerHex_inj (List.append_cancel_left h)
  exact ⟨hcid, hsolver, (textField_injective (List.append_cancel_left h)).1⟩

theorem commitPreimageWithDa_inj {cid cid' salt salt' : Bytes} {solver solver' : Address}
    {da da' : Bytes32}
    (h : commitPreimageWithDa cid solver da salt = commitPreimageWithDa cid' solver' da' salt') :
    cid = cid' ∧ solver = solver' ∧ da = da' ∧ salt = salt' := by
  rw [commitPreimageWithDa_eq, commitPreimageWithDa_eq] at h
  obtain ⟨hcid, h⟩ := textField_injective (List.append_cancel_left h)
  obtain ⟨hsolver, h⟩ := addressToLowerHex_inj (List.append_cancel_left h)
  obtain ⟨hda, h⟩ := bytes32ToLowerHex_inj (List.append_cancel_left h)
  exact ⟨hcid, hsolver, hda, (textField_injective (List.append_cancel_left h)).1⟩

theorem commitPreimageWithDa_ne {cid cid' salt salt' : Bytes} {solver solver' : Address}
    {da : Bytes32} : commitPreimageWithDa cid solver da salt ≠ commitPreimage cid' solver' salt' := by
  intro h
  rw [commitPreimageWithDa_eq, commitPreimage_eq] at h
  exact absurd (List.append_inj h (by decide)).1 (by decide)

/-- What `reveal` checks of the commitment. -/
theorem reveal_opens {d : Deployment} {e : Env} {s s' : SubmissionManager} {id : ℕ}
    {cid salt solution : Bytes} {claimed : ℤ} {improvement : ℕ}
    (h : s.reveal d e id cid claimed improvement salt solution = .ok s') :
    e.sender = (s.submissions id).solver ∧
    d.crypto.keccak256 (commitPreimageWithDa cid e.sender (s.submissions id).commitDaHash salt) =
      (s.submissions id).commitment := by
  obtain ⟨-, -, hsender, -, -, -, hreq, -⟩ := SubmissionManager.reveal_ok h
  simp only [SubmissionManager.requireRevealable, bind_eq_ok, revertIf_eq_ok, Unique.exists_iff,
    ne_eq, not_not] at hreq
  obtain ⟨-, -, -, -, _, -, -, hcommitment, -⟩ := hreq
  exact ⟨hsender, hcommitment⟩

/-- What a preimage says, and what opens a commitment. -/
structure CommitmentLaws (d : Deployment) : Prop where
  withDa : ∀ cid cid' solver solver' da da' salt salt',
    commitPreimageWithDa cid solver da salt = commitPreimageWithDa cid' solver' da' salt' →
    cid = cid' ∧ solver = solver' ∧ da = da' ∧ salt = salt'
  withoutDa : ∀ cid cid' solver solver' salt salt',
    commitPreimage cid solver salt = commitPreimage cid' solver' salt' →
    cid = cid' ∧ solver = solver' ∧ salt = salt'
  apart : ∀ cid cid' solver solver' da salt salt',
    commitPreimageWithDa cid solver da salt ≠ commitPreimage cid' solver' salt'
  opened : ∀ e s s' id cid claimed improvement salt solution cid' solver' da' salt',
    SubmissionManager.reveal d e id cid claimed improvement salt solution s = .ok s' →
    (s.submissions id).commitment =
      d.crypto.keccak256 (commitPreimageWithDa cid' solver' da' salt') →
    Set.InjOn d.crypto.keccak256 {commitPreimageWithDa cid e.sender (s.submissions id).commitDaHash salt,
      commitPreimageWithDa cid' solver' da' salt'} →
    cid = cid' ∧ (s.submissions id).solver = solver' ∧ (s.submissions id).commitDaHash = da' ∧
      salt = salt'

/-- Preimages are unambiguous, so a commitment is opened only as the tuple it was made for. -/
theorem commitmentLaws (d : Deployment) : CommitmentLaws d where
  withDa _ _ _ _ _ _ _ _ h := commitPreimageWithDa_inj h
  withoutDa _ _ _ _ _ _ h := commitPreimage_inj h
  apart _ _ _ _ _ _ _ := commitPreimageWithDa_ne
  opened := by
    intro e s s' id cid claimed improvement salt solution cid' solver' da' salt' hreveal hmade hfree
    obtain ⟨hsender, hopens⟩ := reveal_opens hreveal
    have hsame := hfree (Set.mem_insert _ _) (Set.mem_insert_of_mem _ rfl) (hopens.trans hmade)
    obtain ⟨hcid, hsolver, hda, hsalt⟩ := commitPreimageWithDa_inj hsame
    exact ⟨hcid, hsender ▸ hsolver, hda, hsalt⟩

end P42Prizes
