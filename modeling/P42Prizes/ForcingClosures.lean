import Mathlib.Data.Finset.Card
import Mathlib.Order.Bounds.Basic

/-! # The closure of a set under forcing

A set of vertices grows by forcing: a vertex can be added when a condition on the present set holds, and a
condition that holds of a set holds of every larger one.  However the vertices are added, one after the
other or all that can be in rounds, the set that nothing can be added to is the least closed one
(`Forces.isLeast`), so it does not depend on the order; and it grows with the set and the condition
(`isLeast_mono`). -/

namespace Forcing

variable {α : Type*} [DecidableEq α]

/-- Nothing can be forced of the vertices `U` outside `T`. -/
def Closed (U : Finset α) (force : Finset α → α → Prop) (T : Finset α) : Prop :=
  ∀ v ∈ U, force T v → v ∈ T

/-- The closed sets that contain `S`. -/
def closedAbove (U : Finset α) (force : Finset α → α → Prop) (S : Finset α) : Set (Finset α) :=
  {T | S ⊆ T ∧ Closed U force T}

def Monotonic (force : Finset α → α → Prop) : Prop :=
  ∀ ⦃S T : Finset α⦄, S ⊆ T → ∀ v, force S v → force T v

/-- Vertices are forced one after the other, from `S` to `T`. -/
inductive Forces (U : Finset α) (force : Finset α → α → Prop) : Finset α → Finset α → Prop
  | refl (S : Finset α) : Forces U force S S
  | step {S T : Finset α} {v : α} : v ∈ U → force S v → Forces U force (insert v S) T → Forces U force S T

variable {U S S' T T' : Finset α} {force force' : Finset α → α → Prop} {v : α}

namespace Forces

theorem subset (h : Forces U force S T) : S ⊆ T := by
  induction h with
  | refl S => exact Finset.Subset.refl S
  | step _ _ _ ih => exact (Finset.subset_insert _ _).trans ih

theorem trans (h : Forces U force S S') (h' : Forces U force S' T) : Forces U force S T := by
  induction h with
  | refl S => exact h'
  | step hv hforce _ ih => exact .step hv hforce (ih h')

theorem subset_of_closed (hmono : Monotonic force) (h : Forces U force S T)
    (hT : T' ∈ closedAbove U force S) : T ⊆ T' := by
  induction h with
  | refl S => exact hT.1
  | @step S T v hv hforce _ ih =>
      have hmem : v ∈ T' := hT.2 v hv (hmono hT.1 v hforce)
      exact ih ⟨Finset.insert_subset hmem hT.1, hT.2⟩

/-- Forcing that has come to an end has reached the least closed set. -/
theorem isLeast (hmono : Monotonic force) (h : Forces U force S T) (hclosed : Closed U force T) :
    IsLeast (closedAbove U force S) T :=
  ⟨⟨h.subset, hclosed⟩, fun _ hT => h.subset_of_closed hmono hT⟩

/-- Vertices that can all be forced can be forced one after the other. -/
theorem of_list {vertices : List α} (hmono : Monotonic force) (hU : ∀ v ∈ vertices, v ∈ U)
    (hforce : ∀ v ∈ vertices, force S v) : Forces U force S (S ∪ vertices.toFinset) := by
  induction vertices generalizing S with
  | nil =>
      rw [List.toFinset_nil, Finset.union_empty]
      exact .refl S
  | cons v vertices ih =>
      rw [List.toFinset_cons, Finset.union_insert, ← Finset.insert_union]
      refine .step (hU v List.mem_cons_self) (hforce v List.mem_cons_self) ?_
      exact ih (fun u hu => hU u (List.mem_cons_of_mem _ hu))
        (fun u hu => hmono (Finset.subset_insert v S) u (hforce u (List.mem_cons_of_mem _ hu)))

end Forces

omit [DecidableEq α] in
/-- A larger set and a weaker condition have a larger closure. -/
theorem isLeast_mono (hT : IsLeast (closedAbove U force S) T) (hT' : IsLeast (closedAbove U force' S') T')
    (hS : S ⊆ S') (hforce : ∀ R v, force R v → force' R v) : T ⊆ T' :=
  hT.2 ⟨hS.trans hT'.1.1, fun v hv hf => hT'.1.2 v hv (hforce T' v hf)⟩

/-! ### Rounds -/

section

variable (vertices : List α) (canForce : Finset α → α → Bool)

/-- The vertices of the next round. -/
def newlyForced (S : Finset α) : List α := vertices.filter fun v => decide (v ∉ S) && canForce S v

theorem card_lt_of_newlyForced {S : Finset α} (h : newlyForced vertices canForce S ≠ []) :
    S.card < (S ∪ (newlyForced vertices canForce S).toFinset).card := by
  obtain ⟨v, hv⟩ := List.exists_mem_of_ne_nil _ h
  have hnot : v ∉ S := by
    have hv' := (List.mem_filter.mp hv).2
    rw [Bool.and_eq_true, decide_eq_true_eq] at hv'
    exact hv'.1
  refine Finset.card_lt_card ⟨Finset.subset_union_left, fun hsub => hnot (hsub ?_)⟩
  exact Finset.mem_union_right _ (List.mem_toFinset.mpr hv)

/-- All vertices that can be forced are forced, in rounds, until none can be or all are: the rounds and
the set. -/
def forceRounds (S : Finset α) : List (List α) × Finset α :=
  if S.card < vertices.length then
    if _hnone : newlyForced vertices canForce S = [] then ([], S)
    else
      let rest := forceRounds (S ∪ (newlyForced vertices canForce S).toFinset)
      (newlyForced vertices canForce S :: rest.1, rest.2)
  else ([], S)
termination_by vertices.length - S.card
decreasing_by
  have hlt := card_lt_of_newlyForced vertices canForce _hnone
  omega

variable {vertices canForce}

theorem forceRounds_spec (hnodup : vertices.Nodup)
    (hmono : Monotonic fun S v => canForce S v = true) (hS : S ⊆ vertices.toFinset) :
    Forces vertices.toFinset (fun S v => canForce S v = true) S (forceRounds vertices canForce S).2 ∧
      Closed vertices.toFinset (fun S v => canForce S v = true) (forceRounds vertices canForce S).2 ∧
      (forceRounds vertices canForce S).1.length ≤ vertices.length - S.card := by
  induction S using forceRounds.induct vertices canForce with
  | case1 S hlt hnone =>
      rw [forceRounds, if_pos hlt, dif_pos hnone]
      refine ⟨.refl S, ?_, Nat.zero_le _⟩
      intro v hv hforce
      by_contra hnot
      refine absurd (List.filter_eq_nil_iff.mp hnone v (List.mem_toFinset.mp hv)) (not_not.mpr ?_)
      rw [Bool.and_eq_true, decide_eq_true_eq]
      exact ⟨hnot, hforce⟩
  | case2 S hlt hsome ih =>
      rw [forceRounds, if_pos hlt, dif_neg hsome]
      have hmem : ∀ v ∈ newlyForced vertices canForce S, v ∈ vertices.toFinset ∧ canForce S v = true := by
        intro v hv
        obtain ⟨hin, hv⟩ := List.mem_filter.mp hv
        rw [Bool.and_eq_true] at hv
        exact ⟨List.mem_toFinset.mpr hin, hv.2⟩
      have hsub : S ∪ (newlyForced vertices canForce S).toFinset ⊆ vertices.toFinset :=
        Finset.union_subset hS (fun v hv => (hmem v (List.mem_toFinset.mp hv)).1)
      obtain ⟨hforces, hclosed, hlength⟩ := ih hsub
      have hround : Forces vertices.toFinset (fun S v => canForce S v = true) S
          (S ∪ (newlyForced vertices canForce S).toFinset) :=
        .of_list hmono (fun v hv => (hmem v hv).1) (fun v hv => (hmem v hv).2)
      refine ⟨hround.trans hforces, hclosed, ?_⟩
      have hcard := card_lt_of_newlyForced vertices canForce hsome
      rw [List.length_cons]
      omega
  | case3 S hge =>
      rw [forceRounds, if_neg hge]
      refine ⟨.refl S, ?_, Nat.zero_le _⟩
      have hall : S = vertices.toFinset := by
        refine Finset.eq_of_subset_of_card_le hS ?_
        rw [List.toFinset_card_of_nodup hnodup]
        exact not_lt.mp hge
      intro v hv _
      rw [hall]
      exact hv

end

end Forcing
