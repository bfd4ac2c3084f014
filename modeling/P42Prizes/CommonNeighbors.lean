import Mathlib.Algebra.Order.BigOperators.Group.Finset
import Mathlib.Combinatorics.SimpleGraph.CycleGraph
import Mathlib.Combinatorics.SimpleGraph.Finite
import Mathlib.Combinatorics.SimpleGraph.Copy
import Mathlib.Data.Fin.VecNotation
import Mathlib.Tactic.FinCases
import Mathlib.Tactic.Ring

/-! # Graphs in which two vertices have at most one common neighbour

They are the graphs without a 4-cycle.  The neighbours of the neighbours of a vertex are counted once
there, which bounds the minimum degree by about the square root of the order. -/

namespace CommonNeighbors

open Finset SimpleGraph

variable {V : Type*} {G : SimpleGraph V}

/-- Two different vertices have at most one common neighbour. -/
def AtMostOne (G : SimpleGraph V) : Prop :=
  ∀ u v, u ≠ v → ∀ w x, G.Adj u w → G.Adj v w → G.Adj u x → G.Adj v x → w = x

/-- Four vertices around which a 4-cycle goes. -/
theorem cycle_copy {f : Fin 4 → V} (hf : Function.Injective f) (h : ∀ i, G.Adj (f i) (f (i + 1))) :
    (cycleGraph 4).IsContained G := by
  refine ⟨⟨⟨f, ?_⟩, hf⟩⟩
  intro i j hij
  rcases cycleGraph_adj.mp hij with hstep | hstep
  · rw [sub_eq_iff_eq_add'.mp hstep]
    exact (h j).symm
  · rw [sub_eq_iff_eq_add'.mp hstep]
    exact h i

theorem free_iff_atMostOne : (cycleGraph 4).Free G ↔ AtMostOne G := by
  constructor
  · intro hfree u v huv w x huw hvw hux hvx
    by_contra hwx
    refine hfree (cycle_copy (f := ![u, w, v, x]) ?_ ?_)
    · have huw' := huw.ne
      have hvw' := hvw.ne
      have hux' := hux.ne
      have hvx' := hvx.ne
      intro i j hij
      fin_cases i <;> fin_cases j <;> simp_all [eq_comm]
    · intro i
      fin_cases i
      · exact huw
      · exact hvw.symm
      · exact hvx
      · exact hux.symm
  · rintro hone ⟨f⟩
    have hadj : ∀ i j : Fin 4, (cycleGraph 4).Adj i j → G.Adj (f i) (f j) := fun i j => f.toHom.map_adj
    have hne : ∀ i j : Fin 4, i ≠ j → f i ≠ f j := fun i j hij heq => hij (f.injective heq)
    exact hne 1 3 (by decide) (hone (f 0) (f 2) (hne 0 2 (by decide)) (f 1) (f 3)
      (hadj 0 1 (by decide)) (hadj 2 1 (by decide)) (hadj 0 3 (by decide)) (hadj 2 3 (by decide)))

variable [Fintype V] [DecidableEq V] [DecidableRel G.Adj]

theorem atMostOne_iff_card : AtMostOne G ↔
    ∀ u v, u ≠ v → (G.neighborFinset u ∩ G.neighborFinset v).card ≤ 1 := by
  refine forall_congr' fun u => forall_congr' fun v => imp_congr_right fun _ => ?_
  rw [card_le_one]
  simp only [mem_inter, mem_neighborFinset]
  exact ⟨fun h w hw x hx => h w x hw.1 hw.2 hx.1 hx.2, fun h w x huw hvw hux hvx =>
    h w ⟨huw, hvw⟩ x ⟨hux, hvx⟩⟩

/-- The neighbours of the neighbours of a vertex, without the vertex, are different vertices. -/
theorem sum_degree_sub_one_le (hone : AtMostOne G) (v : V) :
    ∑ w ∈ G.neighborFinset v, (G.degree w - 1) ≤ Fintype.card V - 1 := by
  have hdisjoint : (G.neighborFinset v : Set V).PairwiseDisjoint fun w => (G.neighborFinset w).erase v := by
    intro w hw x hx hwx
    refine disjoint_left.mpr fun y hyw hyx => hwx ?_
    rw [mem_coe, mem_neighborFinset] at hw hx
    rw [mem_erase, mem_neighborFinset] at hyw hyx
    exact hone v y hyw.1.symm w x hw hyw.2.symm hx hyx.2.symm
  have hcard : ∀ w ∈ G.neighborFinset v, ((G.neighborFinset w).erase v).card = G.degree w - 1 := by
    intro w hw
    have hv : v ∈ G.neighborFinset w := by
      rw [mem_neighborFinset] at hw ⊢
      exact hw.symm
    rw [card_erase_of_mem hv, card_neighborFinset_eq_degree]
  rw [← sum_congr rfl hcard, ← card_biUnion hdisjoint, ← card_univ, ← card_erase_of_mem (mem_univ v)]
  refine card_le_card fun y hy => ?_
  obtain ⟨w, -, hyw⟩ := mem_biUnion.mp hy
  exact mem_erase.mpr ⟨(mem_erase.mp hyw).1, mem_univ y⟩

theorem degree_mul_pred_le (hone : AtMostOne G) {d : ℕ} (hd : ∀ v, d ≤ G.degree v) [Nonempty V] :
    d * (d - 1) ≤ Fintype.card V - 1 := by
  obtain ⟨v⟩ := ‹Nonempty V›
  calc d * (d - 1)
    _ ≤ G.degree v * (d - 1) := Nat.mul_le_mul_right _ (hd v)
    _ = ∑ w ∈ G.neighborFinset v, (d - 1) := by
        rw [sum_const, card_neighborFinset_eq_degree, smul_eq_mul]
    _ ≤ ∑ w ∈ G.neighborFinset v, (G.degree w - 1) := sum_le_sum fun w _ => Nat.sub_le_sub_right (hd w) 1
    _ ≤ Fintype.card V - 1 := sum_degree_sub_one_le hone v

end CommonNeighbors
