import Mathlib.Algebra.BigOperators.Ring.Finset
import Mathlib.Algebra.BigOperators.Ring.List
import Mathlib.Algebra.Order.BigOperators.Group.Finset
import Mathlib.Algebra.Order.Field.Basic
import Mathlib.Tactic.Linarith
import Mathlib.Tactic.Ring

/-! # Weak duality for a linear program with boxes

The variables lie in a box, and every row bounds a linear form of them.  Nonnegative multipliers of the
rows bound the objective: by the multiplied bounds, and by the size of the box times what the multiplied
rows leave of the objective. -/

open Finset

namespace WeakDuality

variable {ι κ K : Type*} [Field K]

/-- The multiplied rows, summed at one variable. -/
def combined (rows : List κ) (y : κ → K) (a : κ → ι → K) (i : ι) : K := (rows.map fun r => y r * a r i).sum

/-- The multiplied rows, summed at a point. -/
theorem sum_mul_combined (s : Finset ι) (rows : List κ) (y : κ → K) (a : κ → ι → K) (f : ι → K) :
    ∑ i ∈ s, f i * combined rows y a i = (rows.map fun r => y r * ∑ i ∈ s, f i * a r i).sum := by
  induction rows with
  | nil => simp [combined]
  | cons r rows ih =>
      have hcons : ∀ i, combined (r :: rows) y a i = y r * a r i + combined rows y a i := fun i => rfl
      rw [List.map_cons, List.sum_cons, ← ih, mul_sum, ← sum_add_distrib]
      refine sum_congr rfl fun i _ => ?_
      rw [hcons]
      ring

variable [LinearOrder K] [IsStrictOrderedRing K]

theorem sum_rows_le {rows : List κ} {y z : κ → K} {τ : K} (hy : ∀ r ∈ rows, 0 ≤ y r) (hz : ∀ r ∈ rows, z r ≤ τ) :
    (rows.map fun r => y r * z r).sum ≤ τ * (rows.map y).sum := by
  rw [← List.sum_map_mul_left]
  refine List.sum_le_sum fun r hr => ?_
  rw [mul_comm τ]
  exact mul_le_mul_of_nonneg_left (hz r hr) (hy r hr)

theorem weak_duality {s : Finset ι} {rows : List κ} {y : κ → K} {a : κ → ι → K} {c f : ι → K} {cap τ : K}
    (hy : ∀ r ∈ rows, 0 ≤ y r) (hbox : ∀ i ∈ s, |f i| ≤ cap) (hrow : ∀ r ∈ rows, ∑ i ∈ s, f i * a r i ≤ τ) :
    ∑ i ∈ s, f i * c i ≤ τ * (rows.map y).sum + cap * ∑ i ∈ s, |c i - combined rows y a i| := by
  have hsplit : ∑ i ∈ s, f i * c i =
      ∑ i ∈ s, f i * combined rows y a i + ∑ i ∈ s, f i * (c i - combined rows y a i) := by
    rw [← sum_add_distrib]
    exact sum_congr rfl fun i _ => by ring
  have hleft : ∑ i ∈ s, f i * (c i - combined rows y a i) ≤ cap * ∑ i ∈ s, |c i - combined rows y a i| := by
    rw [mul_sum]
    refine sum_le_sum fun i hi => ?_
    calc f i * (c i - combined rows y a i) ≤ |f i * (c i - combined rows y a i)| := le_abs_self _
      _ = |f i| * |c i - combined rows y a i| := abs_mul _ _
      _ ≤ cap * |c i - combined rows y a i| := mul_le_mul_of_nonneg_right (hbox i hi) (abs_nonneg _)
  have hrows : ∑ i ∈ s, f i * combined rows y a i ≤ τ * (rows.map y).sum := by
    rw [sum_mul_combined]
    exact sum_rows_le hy hrow
  linarith

end WeakDuality
