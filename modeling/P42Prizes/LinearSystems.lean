import Mathlib.Algebra.BigOperators.Field
import Mathlib.Algebra.BigOperators.Pi

/-! # Elimination of the unknowns of a linear system

Over a field, an equation whose coefficient of one unknown is not zero can be solved for that unknown
whatever the others are.  A system is solvable iff it is after the unknown has been eliminated from its
other equations (`solvable_cons_iff`); when every coefficient is zero, iff the right hand sides are
(`solvable_iff_of_zero`).  With these, eliminating the unknowns one after the other decides a system, and
no back substitution is needed to tell whether there is a solution. -/

namespace LinearSystem

variable {ι K : Type*} [Fintype ι] [Field K]

/-- `coeff · x = rhs` -/
structure Equation (ι K : Type*) where
  coeff : ι → K
  rhs : K

def Solves (x : ι → K) (e : Equation ι K) : Prop := ∑ i, e.coeff i * x i = e.rhs

def Solvable (es : List (Equation ι K)) : Prop := ∃ x, ∀ e ∈ es, Solves x e

/-- The equation `e` without the unknown `k`, for which `p` is solved. -/
def eliminate (k : ι) (p e : Equation ι K) : Equation ι K where
  coeff i := e.coeff i - e.coeff k / p.coeff k * p.coeff i
  rhs := e.rhs - e.coeff k / p.coeff k * p.rhs

variable {k : ι} {p e : Equation ι K} {es es' : List (Equation ι K)} {x : ι → K}

omit [Fintype ι] in
theorem eliminate_coeff_self (hp : p.coeff k ≠ 0) : (eliminate k p e).coeff k = 0 := by
  show e.coeff k - e.coeff k / p.coeff k * p.coeff k = 0
  rw [div_mul_cancel₀ _ hp, sub_self]

omit [Fintype ι] in
/-- An unknown that neither equation has does not come back. -/
theorem eliminate_coeff_of_zero {i : ι} (hp : p.coeff i = 0) (he : e.coeff i = 0) :
    (eliminate k p e).coeff i = 0 := by
  show e.coeff i - e.coeff k / p.coeff k * p.coeff i = 0
  rw [hp, he, mul_zero, sub_zero]

theorem solves_eliminate (hp : Solves x p) : Solves x (eliminate k p e) ↔ Solves x e := by
  have hsum : ∑ i, (eliminate k p e).coeff i * x i =
      (∑ i, e.coeff i * x i) - e.coeff k / p.coeff k * p.rhs := by
    rw [← hp, Finset.mul_sum, ← Finset.sum_sub_distrib]
    refine Finset.sum_congr rfl (fun i _ => ?_)
    show (e.coeff i - e.coeff k / p.coeff k * p.coeff i) * x i = _
    rw [sub_mul, mul_assoc]
  unfold Solves
  rw [hsum]
  exact sub_left_inj

section

variable [DecidableEq ι]

/-- The value of an unknown that an equation does not have is of no matter. -/
theorem solves_update (he : e.coeff k = 0) (v : K) : Solves (Function.update x k v) e ↔ Solves x e := by
  have hsum : ∑ i, e.coeff i * Function.update x k v i = ∑ i, e.coeff i * x i := by
    refine Finset.sum_congr rfl (fun i _ => ?_)
    by_cases hi : i = k
    · subst hi
      rw [he, zero_mul, zero_mul]
    · rw [Function.update_of_ne hi]
  unfold Solves
  rw [hsum]

theorem exists_solves_update (hp : p.coeff k ≠ 0) (x : ι → K) :
    ∃ v, Solves (Function.update x k v) p := by
  refine ⟨(p.rhs - ∑ i ∈ Finset.univ.erase k, p.coeff i * x i) / p.coeff k, ?_⟩
  unfold Solves
  rw [← Finset.add_sum_erase _ _ (Finset.mem_univ k), Function.update_self, mul_div_cancel₀ _ hp]
  have hrest : ∀ v, ∑ i ∈ Finset.univ.erase k, p.coeff i * Function.update x k v i =
      ∑ i ∈ Finset.univ.erase k, p.coeff i * x i := by
    intro v
    refine Finset.sum_congr rfl (fun i hi => ?_)
    rw [Function.update_of_ne (Finset.ne_of_mem_erase hi)]
  rw [hrest, sub_add_cancel]

/-- An equation that can be solved for an unknown may be left out after the elimination of it. -/
theorem solvable_cons_iff (hp : p.coeff k ≠ 0) :
    Solvable (p :: es) ↔ Solvable (es.map (eliminate k p)) := by
  constructor
  · rintro ⟨x, hx⟩
    refine ⟨x, fun e' he' => ?_⟩
    obtain ⟨e, he, rfl⟩ := List.mem_map.mp he'
    exact (solves_eliminate (hx p List.mem_cons_self)).mpr (hx e (List.mem_cons_of_mem _ he))
  · rintro ⟨x, hx⟩
    obtain ⟨v, hv⟩ := exists_solves_update hp x
    refine ⟨Function.update x k v, fun e he => ?_⟩
    obtain rfl | he := List.mem_cons.mp he
    · exact hv
    · have hsolves := hx (eliminate k p e) (List.mem_map_of_mem he)
      exact (solves_eliminate hv).mp ((solves_update (eliminate_coeff_self hp) v).mpr hsolves)

end

theorem Solvable.perm (h : es.Perm es') : Solvable es ↔ Solvable es' := by
  unfold Solvable
  simp only [h.mem_iff]

/-- A system without unknowns. -/
theorem solvable_iff_of_zero (h : ∀ e ∈ es, ∀ i, e.coeff i = 0) :
    Solvable es ↔ ∀ e ∈ es, e.rhs = 0 := by
  have hsum : ∀ e ∈ es, ∀ x : ι → K, ∑ i, e.coeff i * x i = 0 := by
    intro e he x
    refine Finset.sum_eq_zero (fun i _ => ?_)
    rw [h e he i, zero_mul]
  constructor
  · rintro ⟨x, hx⟩ e he
    rw [← hx e he, hsum e he]
  · intro hzero
    refine ⟨0, fun e he => ?_⟩
    unfold Solves
    rw [hsum e he, hzero e he]

end LinearSystem
