import P42Prizes.Evm

/-! # Words and their bytes

`abi.encode` of static values is one 32-byte word a value, so the values can be read back from the
bytes: two lists of words with the same encoding are equal (`abiEncode_injective`), and so are two
addresses, or two integers below `2 ^ 256`, with the same word.  A leading string is a dynamic
value: its word is the offset of its length and its bytes, which come after the other words
(`abiEncodeTagged`). -/

namespace P42Prizes

/-- The bytes followed by zeros up to a multiple of 32. -/
def padRight (bs : Bytes) : Bytes := bs ++ List.replicate ((bs.length + 31) / 32 * 32 - bs.length) 0

/-- `abi.encode` of a string and of values of static types. -/
def abiEncodeTagged (tag : Bytes) (words : List Bytes32) : Bytes :=
  wordBytes (uintWord (32 * (1 + words.length))) ++ abiEncode words ++
    wordBytes (uintWord tag.length) ++ padRight tag

theorem wordBytes_length (v : Bytes32) : (wordBytes v).length = 32 := by
  rw [wordBytes, List.length_map, List.length_range]

/-- Two words of `n` bytes with the same bytes, most significant first, are equal. -/
theorem eq_of_bytes {n : ℕ} {v w : BitVec (8 * n)}
    (h : ((List.range n).map fun i => UInt8.ofBitVec (v.extractLsb' (8 * (n - 1 - i)) 8)) =
      (List.range n).map fun i => UInt8.ofBitVec (w.extractLsb' (8 * (n - 1 - i)) 8)) : v = w := by
  have hbyte : ∀ i < n, v.extractLsb' (8 * (n - 1 - i)) 8 = w.extractLsb' (8 * (n - 1 - i)) 8 := by
    intro i hi
    have hget := congrArg (fun bs : Bytes => bs[i]?) h
    simp only [List.getElem?_map, List.getElem?_range hi, Option.map_some, Option.some.injEq] at hget
    exact congrArg UInt8.toBitVec hget
  apply BitVec.eq_of_getLsbD_eq
  intro j hj
  have hbit := congrArg (fun b : BitVec 8 => b.getLsbD (j % 8)) (hbyte (n - 1 - j / 8) (by omega))
  have hlt : j % 8 < 8 := Nat.mod_lt j (by decide)
  have hindex : 8 * (n - 1 - (n - 1 - j / 8)) + j % 8 = j := by omega
  simp only [BitVec.getLsbD_extractLsb', hlt, decide_true, Bool.true_and, hindex] at hbit
  exact hbit

theorem wordBytes_injective : Function.Injective wordBytes := by
  intro v w h
  exact eq_of_bytes (n := 32) h

/-- Codes of one length can be read back from their concatenation. -/
theorem flatMap_injective {α : Type} {f : α → Bytes} {n : ℕ} (hn : 0 < n)
    (hlength : ∀ a, (f a).length = n) (hf : Function.Injective f) :
    Function.Injective (fun xs : List α => xs.flatMap f) := by
  intro xs
  induction xs with
  | nil =>
      intro ys h
      cases ys with
      | nil => rfl
      | cons y ys =>
          have hlen := congrArg List.length h
          simp only [List.flatMap_nil, List.flatMap_cons, List.length_append, hlength,
            List.length_nil] at hlen
          omega
  | cons x xs ih =>
      intro ys h
      cases ys with
      | nil =>
          have hlen := congrArg List.length h
          simp only [List.flatMap_nil, List.flatMap_cons, List.length_append, hlength,
            List.length_nil] at hlen
          omega
      | cons y ys =>
          have happend : f x ++ xs.flatMap f = f y ++ ys.flatMap f := h
          obtain ⟨hhead, htail⟩ := List.append_inj happend ((hlength x).trans (hlength y).symm)
          rw [hf hhead, ih htail]

theorem abiEncode_injective : Function.Injective abiEncode :=
  flatMap_injective (by decide) wordBytes_length wordBytes_injective

theorem Address.word_injective : Function.Injective Address.word := by
  intro a b h
  have htoNat := congrArg BitVec.toNat h
  have hlt : ∀ x : Address, x.toNat < 2 ^ 256 := fun x => x.isLt.trans (by decide)
  simp only [Address.word, BitVec.toNat_setWidth, Nat.mod_eq_of_lt (hlt a),
    Nat.mod_eq_of_lt (hlt b)] at htoNat
  exact BitVec.eq_of_toNat_eq htoNat

theorem uintWord_inj {m n : ℕ} (hm : m < 2 ^ 256) (hn : n < 2 ^ 256)
    (h : uintWord m = uintWord n) : m = n := by
  have htoNat := congrArg BitVec.toNat h
  simp only [uintWord, BitVec.toNat_ofNat, Nat.mod_eq_of_lt hm, Nat.mod_eq_of_lt hn] at htoNat
  exact htoNat

end P42Prizes
