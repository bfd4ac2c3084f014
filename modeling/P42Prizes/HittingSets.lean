import Mathlib

/-! # Hitting sets by branching

A set of vertices hits a hypergraph when it meets every edge.  `Coverable edges P b` says that a
partial choice `P` can be completed to a hitting set by at most `b` further vertices.  A hitting set
that contains `P` meets the first edge `P` misses outside `P`, so branching over the vertices of that
edge loses nothing (`coverable_succ_iff`).

`tryEach` is the loop of such a search over one shared stack: push a vertex, search, and pop it when
the search has failed.  `tryEach_spec` is its loop rule. -/

namespace HittingSets

/-! ### Completing a choice -/

section cover

variable {ν : Type*} [DecidableEq ν]

/-- `S` meets every edge. -/
def Hits (edges : List (List ν)) (S : Finset ν) : Prop := ∀ e ∈ edges, ∃ v ∈ e, v ∈ S

/-- At most `b` vertices complete the choice `P` to a hitting set. -/
def Coverable (edges : List (List ν)) (P : Finset ν) (b : ℕ) : Prop :=
  ∃ S : Finset ν, S.card ≤ b ∧ Hits edges (P ∪ S)

variable {edges : List (List ν)} {P : Finset ν} {target : List ν} {b : ℕ} {v : ν}

theorem Hits.coverable (h : Hits edges P) : Coverable edges P b :=
  ⟨∅, by rw [Finset.card_empty]; exact Nat.zero_le b, by rw [Finset.union_empty]; exact h⟩

theorem coverable_empty_iff : Coverable edges ∅ b ↔ ∃ S : Finset ν, S.card ≤ b ∧ Hits edges S := by
  unfold Coverable
  simp only [Finset.empty_union]

theorem not_coverable_zero (htarget : target ∈ edges) (hmiss : ∀ v ∈ target, v ∉ P) :
    ¬ Coverable edges P 0 := by
  rintro ⟨S, hcard, hhits⟩
  obtain ⟨v, hv, hmem⟩ := hhits target htarget
  rw [Finset.card_eq_zero.mp (Nat.le_zero.mp hcard), Finset.union_empty] at hmem
  exact hmiss v hv hmem

theorem Coverable.of_insert (h : Coverable edges (insert v P) b) : Coverable edges P (b + 1) := by
  obtain ⟨S, hcard, hhits⟩ := h
  refine ⟨insert v S, (Finset.card_insert_le v S).trans (Nat.succ_le_succ hcard), ?_⟩
  rwa [Finset.union_insert, ← Finset.insert_union]

/-- A hitting set that contains `P` has a vertex of an edge that `P` misses, and it is not in `P`. -/
theorem Coverable.exists_insert (h : Coverable edges P (b + 1)) (htarget : target ∈ edges)
    (hmiss : ∀ v ∈ target, v ∉ P) : ∃ v ∈ target, Coverable edges (insert v P) b := by
  obtain ⟨S, hcard, hhits⟩ := h
  obtain ⟨v, hv, hmem⟩ := hhits target htarget
  have hS : v ∈ S := (Finset.mem_union.mp hmem).resolve_left (hmiss v hv)
  refine ⟨v, hv, S.erase v, ?_, ?_⟩
  · rw [Finset.card_erase_of_mem hS]
    omega
  · rwa [Finset.insert_union, ← Finset.union_insert, Finset.insert_erase hS]

/-- Branching over an edge that the choice misses is complete. -/
theorem coverable_succ_iff (htarget : target ∈ edges) (hmiss : ∀ v ∈ target, v ∉ P) :
    Coverable edges P (b + 1) ↔ ∃ v ∈ target, Coverable edges (insert v P) b := by
  constructor
  · intro h
    exact h.exists_insert htarget hmiss
  · rintro ⟨v, -, h⟩
    exact h.of_insert

end cover

/-! ### The loop over a shared stack -/

section loop

variable {ν σ ρ : Type*} (push : ν → σ → σ) (pop : σ → σ) (found : ρ → Bool) (fail : ρ)
  (search : ν → σ → ρ × σ)

/-- Search below each vertex in turn, until one search finds something. -/
def tryEach : List ν → σ → ρ × σ
  | [], s => (fail, s)
  | v :: vs, s =>
    let (r, t) := search v (push v s)
    if found r then (r, t) else tryEach vs (pop t)

/-- `Entry` holds before each round, and again after a search that has failed and a pop; the loop
ends with `Good` where a search has found something, and with `Bad` of every vertex otherwise. -/
theorem tryEach_spec (Entry : σ → Prop) (Good : ρ → σ → Prop) (Bad : ν → Prop) {vs : List ν}
    (hfail : found fail = false)
    (hsearch : ∀ v ∈ vs, ∀ s, Entry s →
      (found (search v (push v s)).1 = true ∧ Good (search v (push v s)).1 (search v (push v s)).2) ∨
      (found (search v (push v s)).1 = false ∧ Bad v ∧ Entry (pop (search v (push v s)).2)))
    {s : σ} (hs : Entry s) :
    (found (tryEach push pop found fail search vs s).1 = true ∧
      Good (tryEach push pop found fail search vs s).1 (tryEach push pop found fail search vs s).2) ∨
    (found (tryEach push pop found fail search vs s).1 = false ∧
      (∀ v ∈ vs, Bad v) ∧ Entry (tryEach push pop found fail search vs s).2) := by
  induction vs generalizing s with
  | nil => exact .inr ⟨hfail, nofun, hs⟩
  | cons v vs ih =>
      simp only [tryEach]
      obtain ⟨hfound, hgood⟩ | ⟨hmissed, hbad, hentry⟩ := hsearch v List.mem_cons_self s hs
      · rw [if_pos hfound]
        exact .inl ⟨hfound, hgood⟩
      · rw [if_neg (by rw [hmissed]; exact Bool.false_ne_true)]
        obtain h | ⟨hnone, hall, hlast⟩ :=
          ih (fun w hw => hsearch w (List.mem_cons_of_mem v hw)) hentry
        · exact .inl h
        · exact .inr ⟨hnone, List.forall_mem_cons.mpr ⟨hbad, hall⟩, hlast⟩

end loop

/-- One branching step: where the searches below the vertices of a missed edge decide whether the
choices they start from can be completed, the loop over them decides it for the choice itself. -/
theorem branch_spec {ν σ ρ : Type*} [DecidableEq ν] {push : ν → σ → σ} {pop : σ → σ}
    (found : ρ → Bool) {fail : ρ} {search : ν → σ → ρ × σ} (Entry : σ → Prop) (Good : ρ → Prop)
    {edges : List (List ν)} {target : List ν} {P : Finset ν} {budget : ℕ} {s : σ}
    (htarget : target ∈ edges) (hmiss : ∀ v ∈ target, v ∉ P) (hfail : found fail = false)
    (hsearch : ∀ v ∈ target, ∀ s, Entry s →
      (found (search v (push v s)).1 = true ∧ Coverable edges (insert v P) budget ∧
        Good (search v (push v s)).1) ∨
      (found (search v (push v s)).1 = false ∧ ¬ Coverable edges (insert v P) budget ∧
        Entry (pop (search v (push v s)).2)))
    (hs : Entry s) :
    (found (tryEach push pop found fail search target s).1 = true ∧ Coverable edges P (budget + 1) ∧
      Good (tryEach push pop found fail search target s).1) ∨
    (found (tryEach push pop found fail search target s).1 = false ∧
      ¬ Coverable edges P (budget + 1) ∧ Entry (tryEach push pop found fail search target s).2) := by
  have hiff := coverable_succ_iff (b := budget) htarget hmiss
  have hround : ∀ v ∈ target, ∀ s, Entry s →
      (found (search v (push v s)).1 = true ∧
        (Coverable edges P (budget + 1) ∧ Good (search v (push v s)).1)) ∨
      (found (search v (push v s)).1 = false ∧ ¬ Coverable edges (insert v P) budget ∧
        Entry (pop (search v (push v s)).2)) := by
    intro v hv t ht
    obtain ⟨hfound, hcover, hgood⟩ | h := hsearch v hv t ht
    · exact .inl ⟨hfound, hiff.mpr ⟨v, hv, hcover⟩, hgood⟩
    · exact .inr h
  obtain h | ⟨hfound, hall, hentry⟩ := tryEach_spec push pop found fail search Entry
    (fun r _ => Coverable edges P (budget + 1) ∧ Good r)
    (fun v => ¬ Coverable edges (insert v P) budget) hfail hround hs
  · exact .inl h
  · refine .inr ⟨hfound, ?_, hentry⟩
    intro hcover
    obtain ⟨v, hv, h⟩ := hiff.mp hcover
    exact hall v hv h

end HittingSets
