import Mathlib.Computability.RegularExpressions

/-! # Character classes in regular expressions

The usual forms `[abc]`, `P?` and `P+` as regular expressions, and the texts they match. -/

namespace PatternClasses

open RegularExpression

variable {α : Type*}

/-- `[abc]` -/
def oneOf : List α → RegularExpression α
  | [] => 0
  | c :: cs => char c + oneOf cs

/-- `P?` -/
def optional (P : RegularExpression α) : RegularExpression α := 1 + P

/-- `P+` -/
def oneOrMore (P : RegularExpression α) : RegularExpression α := P * P.star

variable [DecidableEq α] {P : RegularExpression α} {cs x : List α}

theorem oneOf_rmatch_iff : (oneOf cs).rmatch x ↔ ∃ c ∈ cs, x = [c] := by
  induction cs with
  | nil =>
      rw [oneOf, zero_rmatch]
      simp
  | cons c cs ih =>
      rw [oneOf, add_rmatch_iff, char_rmatch_iff, ih]
      simp

theorem optional_rmatch_iff : (optional P).rmatch x ↔ x = [] ∨ P.rmatch x := by
  rw [optional, add_rmatch_iff, one_rmatch_iff]

theorem star_oneOf_rmatch_iff : (oneOf cs).star.rmatch x ↔ ∀ c ∈ x, c ∈ cs := by
  rw [star_rmatch_iff]
  constructor
  · rintro ⟨S, rfl, hS⟩ c hc
    obtain ⟨t, ht, hct⟩ := List.mem_flatten.mp hc
    obtain ⟨d, hd, rfl⟩ := oneOf_rmatch_iff.mp (hS t ht).2
    rwa [List.mem_singleton.mp hct]
  · intro h
    refine ⟨x.map fun c => [c], (List.flatMap_singleton' x).symm, ?_⟩
    intro t ht
    obtain ⟨c, hc, rfl⟩ := List.mem_map.mp ht
    exact ⟨List.cons_ne_nil _ _, oneOf_rmatch_iff.mpr ⟨c, h c hc, rfl⟩⟩

theorem oneOrMore_oneOf_rmatch_iff : (oneOrMore (oneOf cs)).rmatch x ↔ x ≠ [] ∧ ∀ c ∈ x, c ∈ cs := by
  rw [oneOrMore, mul_rmatch_iff]
  constructor
  · rintro ⟨t, u, rfl, ht, hu⟩
    obtain ⟨d, hd, rfl⟩ := oneOf_rmatch_iff.mp ht
    exact ⟨List.cons_ne_nil _ _, List.forall_mem_cons.mpr ⟨hd, star_oneOf_rmatch_iff.mp hu⟩⟩
  · rintro ⟨hne, h⟩
    obtain ⟨c, u, rfl⟩ := List.exists_cons_of_ne_nil hne
    obtain ⟨hc, hu⟩ := List.forall_mem_cons.mp h
    exact ⟨[c], u, rfl, oneOf_rmatch_iff.mpr ⟨c, hc, rfl⟩, star_oneOf_rmatch_iff.mpr hu⟩

end PatternClasses
