import Mathlib

/-! # Prefix codes

`encode` is a prefix code on `S` when no encoding of a value in `S` is a prefix of what begins with the
encoding of another.  A list of values can then be read back from the concatenation of their encodings,
and a concatenation is a prefix of another only for a prefix of its values. -/

namespace PrefixCodes

variable {α β : Type}

/-- What stands before the first separator can be read off. -/
theorem append_cons_inj {c : β} {xs ys r s : List β} (hx : c ∉ xs) (hy : c ∉ ys)
    (h : xs ++ c :: r = ys ++ c :: s) : xs = ys ∧ r = s := by
  induction xs generalizing ys with
  | nil =>
      cases ys with
      | nil => exact ⟨rfl, (List.cons.inj h).2⟩
      | cons y ys => exact absurd ((List.cons.inj h).1 ▸ List.mem_cons_self) hy
  | cons x xs ih =>
      cases ys with
      | nil => exact absurd ((List.cons.inj h).1 ▸ List.mem_cons_self) hx
      | cons y ys =>
          obtain ⟨rfl, htail⟩ := List.cons.inj h
          obtain ⟨rfl, hrest⟩ := ih (fun hmem => hx (List.mem_cons_of_mem x hmem))
            (fun hmem => hy (List.mem_cons_of_mem x hmem)) htail
          exact ⟨rfl, hrest⟩

structure PrefixCode (S : α → Prop) (encode : α → List β) : Prop where
  ne_nil : ∀ a, S a → encode a ≠ []
  unique : ∀ a b, S a → S b → ∀ r s, encode a ++ r = encode b ++ s → a = b

namespace PrefixCode

variable {S : α → Prop} {encode : α → List β}

theorem isPrefix_of_flatMap (h : PrefixCode S encode) {as bs : List α} (ha : ∀ a ∈ as, S a)
    (hb : ∀ b ∈ bs, S b) (hp : as.flatMap encode <+: bs.flatMap encode) : as <+: bs := by
  induction as generalizing bs with
  | nil => exact List.nil_prefix
  | cons a as ih =>
      cases bs with
      | nil =>
          rw [List.flatMap_nil, List.prefix_nil, List.flatMap_cons, List.append_eq_nil_iff] at hp
          exact absurd hp.1 (h.ne_nil a (ha a (List.mem_cons_self ..)))
      | cons b bs =>
          obtain ⟨r, hr⟩ := hp
          rw [List.flatMap_cons, List.flatMap_cons, List.append_assoc] at hr
          obtain rfl := h.unique a b (ha a (List.mem_cons_self ..)) (hb b (List.mem_cons_self ..)) _ _ hr
          have hrest := List.append_cancel_left hr
          rw [List.prefix_cons_inj]
          exact ih (fun a' h' => ha a' (List.mem_cons_of_mem _ h'))
            (fun b' h' => hb b' (List.mem_cons_of_mem _ h')) ⟨r, hrest⟩

theorem eq_of_flatMap_eq (h : PrefixCode S encode) {as bs : List α} (ha : ∀ a ∈ as, S a)
    (hb : ∀ b ∈ bs, S b) (heq : as.flatMap encode = bs.flatMap encode) : as = bs := by
  have hab := h.isPrefix_of_flatMap ha hb (heq ▸ List.prefix_rfl)
  have hba := h.isPrefix_of_flatMap hb ha (heq ▸ List.prefix_rfl)
  exact hab.eq_of_length_le hba.length_le

/-- What is sent after each encoding, and depends on its value only, keeps a prefix code. -/
theorem append (h : PrefixCode S encode) (tail : α → List β) :
    PrefixCode S (fun a => encode a ++ tail a) where
  ne_nil a ha hnil := h.ne_nil a ha (List.append_eq_nil_iff.mp hnil).1
  unique a b ha hb r s heq := by
    rw [List.append_assoc, List.append_assoc] at heq
    exact h.unique a b ha hb _ _ heq

end PrefixCode
end PrefixCodes
