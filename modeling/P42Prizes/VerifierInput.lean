import P42Prizes.Reverting

/-! # The documents that the verifiers read

Every verifier takes a solution as bytes, refuses it above its size limit, reads it as JSON and goes on
with the object at its root.  A field that it fails on is named in the failure. -/

namespace P42Prizes.Verifier

open Reverting

abbrev Bytes := List UInt8

/-- A value that `strict_json_loads` returns.  A float is its exact value, or infinite. -/
inductive Json
  | null
  | bool (b : Bool)
  | int (n : ℤ)
  | float (q : Option ℚ)
  | str (s : String)
  | list (items : List Json)
  | dict (entries : List (String × Json))

/-- The entries of an object. -/
abbrev Object := List (String × Json)

structure VerifierFailure where
  reason : String
  detail : String
deriving DecidableEq, Repr

/-- `value == n` -/
def Json.equalsInt : Option Json → ℤ → Bool
  | some (.int m), n => m = n
  | some (.bool b), n => (if b then 1 else 0) = n
  | some (.float (some q)), n => q = n
  | _, _ => false

def requireInt (value : Option Json) (label : String) : Except VerifierFailure ℤ :=
  match value with
  | some (.int n) => .ok n
  | _ => .error ⟨"MALFORMED", s!"{label} must be an integer"⟩

/-- The root object of a solution of at most `limit` bytes. -/
def loadObject (loads : Bytes → Except String Json) (limit : ℕ) (raw : Bytes) :
    Except VerifierFailure Object := do
  revertIf (raw.length > limit)
    ⟨"OVERSIZED", s!"solution is {raw.length} bytes; limit is {limit}"⟩
  match loads raw with
  | .error e => .error ⟨"MALFORMED_JSON", e⟩
  | .ok (.dict entries) => .ok entries
  | .ok _ => .error ⟨"MALFORMED", "solution root must be an object"⟩

@[simp] theorem requireInt_eq_ok {value : Option Json} {label : String} {n : ℤ} :
    requireInt value label = .ok n ↔ value = some (.int n) := by
  unfold requireInt
  split
  · simp
  · next hne => exact ⟨nofun, fun h => absurd h (hne n)⟩

theorem loadObject_eq_ok {loads : Bytes → Except String Json} {limit : ℕ} {raw : Bytes} {entries : Object} :
    loadObject loads limit raw = .ok entries ↔ raw.length ≤ limit ∧ loads raw = .ok (.dict entries) := by
  simp only [loadObject, bind_eq_ok, revertIf_eq_ok, exists_and_left, exists_const, gt_iff_lt, not_lt]
  refine and_congr_right fun _ => ?_
  cases loads raw with
  | error e => simp
  | ok value => cases value <;> simp

end P42Prizes.Verifier
