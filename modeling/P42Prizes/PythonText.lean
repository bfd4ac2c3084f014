import Mathlib.Data.Nat.Digits.Lemmas

/-! # Texts in Python

A text is a sequence of code points, surrogates included; only a text without surrogates has a UTF-8
encoding.  What Python takes from the Unicode database about characters beyond ASCII is in `UnicodeData`. -/

namespace PythonText

abbrev Bytes := List UInt8

abbrev CodePoint := Fin 0x110000

instance neZeroCodePoints : NeZero (1114111 + 1) := ⟨Nat.succ_ne_zero _⟩

abbrev Str := List CodePoint

/-- A literal. -/
def str (s : String) : Str := s.toList.map fun c => Fin.ofNat 0x110000 c.toNat

theorem str_injective : Function.Injective str := by
  intro s t h
  refine String.toList_inj.mp (List.map_injective_iff.mpr (fun c d hcd => ?_) h)
  have hlt : ∀ c : Char, c.toNat < 0x110000 := fun c => c.valid.elim (fun h => h.trans (by decide)) And.right
  have hval := congrArg Fin.val hcd
  rw [Fin.val_ofNat, Fin.val_ofNat, Nat.mod_eq_of_lt (hlt c), Nat.mod_eq_of_lt (hlt d)] at hval
  exact Char.toNat_inj.mp hval

@[simp] theorem str_beq (s t : String) : (str s == str t) = (s == t) := by
  by_cases h : s = t
  · rw [h, beq_self_eq_true, beq_self_eq_true]
  · rw [beq_eq_false_iff_ne.mpr h, beq_eq_false_iff_ne.mpr (str_injective.ne h)]

/-- Facts about the characters beyond ASCII. -/
structure UnicodeData where
  isSpace : CodePoint → Bool
  isDigit : CodePoint → Bool
  decimalValue : CodePoint → Option ℕ

/-! ### Encoding -/

def encodeChar (c : CodePoint) : Option Bytes :=
  let n := c.val
  if n < 0x80 then some [UInt8.ofNat n]
  else if n < 0x800 then some [UInt8.ofNat (0xC0 + n / 0x40), UInt8.ofNat (0x80 + n % 0x40)]
  else if 0xD800 ≤ n ∧ n ≤ 0xDFFF then none
  else if n < 0x10000 then
    some [UInt8.ofNat (0xE0 + n / 0x1000), UInt8.ofNat (0x80 + n / 0x40 % 0x40), UInt8.ofNat (0x80 + n % 0x40)]
  else
    some [UInt8.ofNat (0xF0 + n / 0x40000), UInt8.ofNat (0x80 + n / 0x1000 % 0x40),
      UInt8.ofNat (0x80 + n / 0x40 % 0x40), UInt8.ofNat (0x80 + n % 0x40)]

/-- `text.encode("utf-8")` -/
def encode : Str → Option Bytes
  | [] => some []
  | c :: cs => do
      let head ← encodeChar c
      let tail ← encode cs
      pure (head ++ tail)

theorem encode_cons (c : CodePoint) (cs : Str) :
    encode (c :: cs) = (encodeChar c).bind fun head => (encode cs).map fun tail => head ++ tail := by
  rw [encode]
  cases encodeChar c with
  | none => rfl
  | some head => cases encode cs <;> rfl

theorem encode_append (s t : Str) :
    encode (s ++ t) = (encode s).bind fun head => (encode t).map fun tail => head ++ tail := by
  induction s with
  | nil =>
      rw [List.nil_append, encode]
      cases encode t <;> rfl
  | cons c cs ih =>
      rw [List.cons_append, encode_cons, encode_cons, ih]
      cases encodeChar c with
      | none => rfl
      | some head => cases encode cs <;> cases encode t <;> simp

theorem encode_append_eq_some {s t : Str} {bytes : Bytes} : encode (s ++ t) = some bytes ↔
    ∃ head tail, encode s = some head ∧ encode t = some tail ∧ bytes = head ++ tail := by
  rw [encode_append]
  cases encode s <;> cases encode t <;> simp [eq_comm]

/-- `text.rsplit(marker, 1)[1]`: what follows the last occurrence of the marker, if there is one. -/
def afterLast (marker : Str) : Str → Option Str
  | [] => none
  | c :: cs =>
      match afterLast marker cs with
      | some rest => some rest
      | none => if marker <+: c :: cs then some ((c :: cs).drop marker.length) else none

/-- `text.partition(mark)` for a mark of one character: what stands before it and after it. -/
def partition (mark : CodePoint) : Str → Option (Str × Str)
  | [] => none
  | c :: cs => if c = mark then some ([], cs) else (partition mark cs).map fun (before, after) => (c :: before, after)

variable {marker s t rest : Str}

theorem afterLast_suffix (h : afterLast marker s = some rest) : rest <:+ s := by
  induction s with
  | nil => cases h
  | cons c cs ih =>
      rw [afterLast] at h
      split at h <;> rename_i hcs
      · obtain rfl := Option.some.inj h
        exact (ih hcs).trans (List.suffix_cons c cs)
      · split at h
        · obtain rfl := Option.some.inj h
          exact List.drop_suffix _ _
        · cases h

def isAsciiDigit (c : CodePoint) : Bool := 48 ≤ c.val && c.val ≤ 57

/-- `text.isdigit()` -/
def isdigit (u : UnicodeData) (s : Str) : Bool :=
  s ≠ [] && s.all fun c => isAsciiDigit c || (0x80 ≤ c.val && u.isDigit c)

def digitValue (u : UnicodeData) (c : CodePoint) : Option ℕ :=
  if isAsciiDigit c then some (c.val - 48) else if 0x80 ≤ c.val then u.decimalValue c else none

/-- `int(text)` of a text of digits; not every digit has a decimal value. -/
def int (u : UnicodeData) (s : Str) : Option ℕ :=
  (s.mapM (digitValue u)).map fun digits => digits.foldl (fun acc d => acc * 10 + d) 0

theorem digitValue_lt {u : UnicodeData} (hu : ∀ c d, u.decimalValue c = some d → d < 10) {c : CodePoint} {d : ℕ}
    (h : digitValue u c = some d) : d < 10 := by
  unfold digitValue at h
  split at h <;> rename_i hascii
  · obtain rfl := Option.some.inj h
    simp only [isAsciiDigit, Bool.and_eq_true, decide_eq_true_eq] at hascii
    omega
  · split at h
    · exact hu c d h
    · cases h

/-- A text of `n` digits is a number below `10 ^ n`. -/
theorem int_lt {u : UnicodeData} (hu : ∀ c d, u.decimalValue c = some d → d < 10) {n : ℕ}
    (h : int u s = some n) : n < 10 ^ s.length := by
  have hfold : ∀ (s : Str) (digits : List ℕ) (acc : ℕ), s.mapM (digitValue u) = some digits →
      digits.foldl (fun acc d => acc * 10 + d) acc < (acc + 1) * 10 ^ s.length := by
    intro s
    induction s with
    | nil =>
        intro digits acc hdigits
        obtain rfl := Option.some.inj hdigits
        simp
    | cons c cs ih =>
        intro digits acc hdigits
        rw [List.mapM_cons] at hdigits
        obtain ⟨d, hd, hdigits⟩ := Option.bind_eq_some_iff.mp hdigits
        obtain ⟨rest, hrest, hdigits⟩ := Option.bind_eq_some_iff.mp hdigits
        obtain rfl := Option.some.inj hdigits
        have hlt := digitValue_lt hu hd
        rw [List.foldl_cons, List.length_cons, pow_succ', ← mul_assoc]
        exact (ih rest _ hrest).trans_le (Nat.mul_le_mul_right _ (by omega))
  obtain ⟨digits, hdigits, rfl⟩ := Option.map_eq_some_iff.mp h
  exact (hfold s digits 0 hdigits).trans_eq (by rw [zero_add, one_mul])

def digitChar (d : ℕ) : CodePoint := Fin.ofNat 0x110000 (48 + d)

/-- `str(n)` -/
def decimal (n : ℕ) : Str := if n = 0 then [digitChar 0] else (Nat.digits 10 n).reverse.map digitChar

end PythonText
