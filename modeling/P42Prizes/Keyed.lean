import Mathlib

/-! # Association lists

A list of pairs with distinct keys is a finite map; `lookup d k l` reads it, `d` being the value of a
key that is absent.  `Updated d k b b' l l'` says that `l'` is `l` with the value `b` of `k` replaced by
`b'`, in whatever order the entries stand: this is what an assignment does when the order of the keys is
of no interest.  Whatever is collected over the entries (`Updated.flatMap`) then changes by the share of
one entry only. -/

namespace Keyed

variable {κ β γ : Type}

abbrev keys (l : List (κ × β)) : List κ := l.map Prod.fst

variable {d b b' : β} {k : κ} {l l' l'' : List (κ × β)}

/-- `l'` is `l` with the value `b` of `k` replaced by `b'`. -/
def Updated (d : β) (k : κ) (b b' : β) (l l' : List (κ × β)) : Prop :=
  ∃ rest, k ∉ keys rest ∧ (l.Perm ((k, b) :: rest) ∨ b = d ∧ l.Perm rest) ∧
    l'.Perm ((k, b') :: rest)

namespace Updated

theorem perm_right (h : Updated d k b b' l l') (hp : l'.Perm l'') : Updated d k b b' l l'' := by
  obtain ⟨rest, hk, hl, hl'⟩ := h
  exact ⟨rest, hk, hl, hp.symm.trans hl'⟩

theorem rest_nodup {rest : List (κ × β)} (hn : (keys l).Nodup)
    (hl : l.Perm ((k, b) :: rest) ∨ b = d ∧ l.Perm rest) : (keys rest).Nodup := by
  rcases hl with hl | ⟨-, hl⟩
  · exact ((hl.map Prod.fst).nodup_iff.mp hn).of_cons
  · exact (hl.map Prod.fst).nodup_iff.mp hn

theorem nodup (h : Updated d k b b' l l') (hn : (keys l).Nodup) : (keys l').Nodup := by
  obtain ⟨rest, hk, hl, hl'⟩ := h
  exact (hl'.map Prod.fst).nodup_iff.mpr (List.nodup_cons.mpr ⟨hk, rest_nodup hn hl⟩)

/-- What is collected over the entries changes by the share of one entry. -/
theorem flatMap (h : Updated d k b b' l l') (f : β → List γ) (hd : f d = []) :
    ∃ others, (l.flatMap (fun entry => f entry.2)).Perm (f b ++ others) ∧
      (l'.flatMap (fun entry => f entry.2)).Perm (f b' ++ others) := by
  obtain ⟨rest, -, hl, hl'⟩ := h
  refine ⟨rest.flatMap (fun entry => f entry.2), ?_, hl'.flatMap_right _⟩
  rcases hl with hl | ⟨rfl, hl⟩
  · exact hl.flatMap_right _
  · rw [hd, List.nil_append]
    exact hl.flatMap_right _

theorem mem (h : Updated d k b b' l l') {entry : κ × β} (he : entry ∈ l') :
    entry = (k, b') ∨ entry ∈ l := by
  obtain ⟨rest, -, hl, hl'⟩ := h
  rcases List.mem_cons.mp (hl'.mem_iff.mp he) with rfl | hrest
  · exact .inl rfl
  · rcases hl with hl | ⟨-, hl⟩
    · exact .inr (hl.mem_iff.mpr (List.mem_cons_of_mem _ hrest))
    · exact .inr (hl.mem_iff.mpr hrest)

/-- Replacing the value of one entry in place. -/
theorem of_append {pre post : List (κ × β)} (hn : (keys (pre ++ (k, b) :: post)).Nodup) :
    Updated d k b b' (pre ++ (k, b) :: post) (pre ++ (k, b') :: post) := by
  refine ⟨pre ++ post, ?_, .inl List.perm_middle, List.perm_middle⟩
  have hperm : (keys (pre ++ (k, b) :: post)).Perm (k :: keys (pre ++ post)) :=
    List.perm_middle.map Prod.fst
  exact (List.nodup_cons.mp (hperm.nodup_iff.mp hn)).1

theorem of_head (hn : (keys ((k, b) :: l)).Nodup) : Updated d k b b' ((k, b) :: l) ((k, b') :: l) :=
  ⟨l, (List.nodup_cons.mp hn).1, .inl (.refl _), .refl _⟩

/-- Adding an entry under a new key. -/
theorem of_absent (hk : k ∉ keys l) : Updated d k d b' l (l ++ [(k, b')]) :=
  ⟨l, hk, .inr ⟨rfl, .refl _⟩, List.perm_append_singleton ..⟩

end Updated

/-! ### Lookups -/

variable [DecidableEq κ]

/-- The value of `k` in `l`. -/
def lookup (d : β) (k : κ) (l : List (κ × β)) : β :=
  match l.find? (fun entry => entry.1 = k) with
  | some entry => entry.2
  | none => d

theorem lookup_eq_default (h : k ∉ keys l) : lookup d k l = d := by
  have hnone : l.find? (fun entry => entry.1 = k) = none := by
    rw [List.find?_eq_none]
    intro entry he hk
    exact h (List.mem_map.mpr ⟨entry, he, by simpa using hk⟩)
  rw [lookup, hnone]

theorem lookup_eq_of_mem (hn : (keys l).Nodup) (h : (k, b) ∈ l) : lookup d k l = b := by
  unfold lookup
  cases hfind : l.find? (fun entry => entry.1 = k) with
  | none =>
      have hk := List.find?_eq_none.mp hfind (k, b) h
      simp at hk
  | some entry =>
      have hk : entry.1 = k := by simpa using List.find?_some hfind
      have heq : entry = (k, b) :=
        List.inj_on_of_nodup_map hn (List.mem_of_find?_eq_some hfind) h hk
      rw [heq]

theorem lookup_perm (hn : (keys l).Nodup) (h : l.Perm l') : lookup d k l' = lookup d k l := by
  have hn' : (keys l').Nodup := (h.map Prod.fst).nodup_iff.mp hn
  by_cases hk : k ∈ keys l
  · obtain ⟨⟨k, b⟩, hb, rfl⟩ := List.mem_map.mp hk
    rw [lookup_eq_of_mem hn hb, lookup_eq_of_mem hn' (h.mem_iff.mp hb)]
  · have hk' : k ∉ keys l' := fun hmem => hk ((h.map Prod.fst).mem_iff.mpr hmem)
    rw [lookup_eq_default hk, lookup_eq_default hk']

namespace Updated

theorem lookup_self (h : Updated d k b b' l l') (hn : (keys l).Nodup) : lookup d k l' = b' := by
  have hn' := h.nodup hn
  obtain ⟨rest, -, -, hl'⟩ := h
  exact lookup_eq_of_mem hn' (hl'.mem_iff.mpr (List.mem_cons_self ..))

theorem lookup_before (h : Updated d k b b' l l') (hn : (keys l).Nodup) : lookup d k l = b := by
  obtain ⟨rest, hk, hl | ⟨rfl, hl⟩, -⟩ := h
  · exact lookup_eq_of_mem hn (hl.mem_iff.mpr (List.mem_cons_self ..))
  · exact lookup_eq_default (fun hmem => hk ((hl.map Prod.fst).mem_iff.mp hmem))

theorem lookup_cons_ne {rest : List (κ × β)} {k' : κ} (h : k' ≠ k) :
    lookup d k' ((k, b) :: rest) = lookup d k' rest := by
  unfold lookup
  rw [List.find?_cons_of_neg (by simpa using h.symm)]

/-- Every other key keeps its value. -/
theorem lookup_ne {k' : κ} (h : Updated d k b b' l l') (hn : (keys l).Nodup) (hne : k' ≠ k) :
    lookup d k' l' = lookup d k' l := by
  have hn' := h.nodup hn
  obtain ⟨rest, -, hl, hl'⟩ := h
  have hrest : lookup d k' l' = lookup d k' rest := by
    rw [← lookup_perm hn' hl', lookup_cons_ne hne]
  rcases hl with hl | ⟨-, hl⟩
  · rw [hrest, ← lookup_perm hn hl, lookup_cons_ne hne]
  · rw [hrest, ← lookup_perm hn hl]

end Updated
end Keyed
