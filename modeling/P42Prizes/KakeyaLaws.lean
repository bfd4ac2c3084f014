import P42Prizes.ArithmeticKakeya
import P42Prizes.LinearSystems
import Mathlib.Data.Fin.VecNotation
import Mathlib.Data.List.GetD
import Mathlib.Data.Option.Basic
import Mathlib.Tactic.FinCases

/-! # What the Kakeya evaluation forces

Elimination that goes forward only decides a system: an equation that has a pivot can be solved for it
after all later ones, so a contradiction shows in an equation without coefficients.  A vertex is forced
when a combination of the generators exists, more of them exist when more vertices are free or there are
more generators, and the rounds end in the least set that nothing can be added to. -/

open Finset

namespace P42Prizes.Kakeya

open LinearSystem Forcing

/-! ### Elimination -/

section

variable {K : Type} [Field K] {n : ℕ} {rows : List (List K)} {x : Fin n → K}

/-- The equation of a row: `n` coefficients and the right hand side. -/
def equation (n : ℕ) (row : List K) : Equation (Fin n) K where
  coeff i := row.getD i 0
  rhs := row.getD n 0

/-- A row that is not there is solved by everything. -/
theorem solves_nil (x : Fin n → K) : Solves x (equation n []) := by
  unfold Solves equation
  simp

/-- The solutions of all rows. -/
def SolvesRows (x : Fin n → K) (rows : List (List K)) : Prop := ∀ i, Solves x (equation n (rows.getD i []))

theorem solvesRows_iff : SolvesRows x rows ↔ ∀ row ∈ rows, Solves x (equation n row) := by
  constructor
  · intro h row hrow
    obtain ⟨i, hi, rfl⟩ := List.mem_iff_getElem.mp hrow
    have hsolves := h i
    rwa [List.getD_eq_getElem _ _ hi] at hsolves
  · intro h i
    rcases Nat.lt_or_ge i rows.length with hi | hi
    · rw [List.getD_eq_getElem _ _ hi]
      exact h _ (List.getElem_mem hi)
    · rw [List.getD_eq_default _ _ hi]
      exact solves_nil x

/-- The rows after the columns below `c`: those from `r` on have no coefficient there, and each one before
has a pivot, a coefficient that no later row has. -/
structure Eliminated (n : ℕ) (original rows : List (List K)) (r c : ℕ) : Prop where
  width : ∀ row ∈ rows, row.length = n + 1
  le : r ≤ rows.length
  solutions : ∀ x : Fin n → K, SolvesRows x rows ↔ SolvesRows x original
  pivots : ∀ j < r, ∃ k < n, (rows.getD j []).getD k 0 ≠ 0 ∧ ∀ i, j < i → (rows.getD i []).getD k 0 = 0
  zeros : ∀ i, r ≤ i → ∀ k < c, (rows.getD i []).getD k 0 = 0

omit [Field K] in
theorem getD_swapRows {i j : ℕ} (hi : i < rows.length) (hj : j < rows.length) (m : ℕ) :
    (swapRows rows i j).getD m [] =
      if m = j then rows.getD i [] else if m = i then rows.getD j [] else rows.getD m [] := by
  unfold swapRows
  by_cases hmj : m = j
  · subst hmj
    rw [if_pos rfl, List.getD_eq_getElem?_getD, List.getElem?_set_self (by rwa [List.length_set]),
      Option.getD_some]
  · rw [if_neg hmj, List.getD_eq_getElem?_getD, List.getElem?_set_ne (Ne.symm hmj)]
    by_cases hmi : m = i
    · subst hmi
      rw [if_pos rfl, List.getElem?_set_self hi, Option.getD_some]
    · rw [if_neg hmi, List.getElem?_set_ne (Ne.symm hmi), List.getD_eq_getElem?_getD]

variable {original : List (List K)} {r c : ℕ}

theorem Eliminated.getD_width (h : Eliminated n original rows r c) (i : ℕ) :
    rows.getD i [] = [] ∨ (rows.getD i []).length = n + 1 := by
  rcases Nat.lt_or_ge i rows.length with hi | hi
  · rw [List.getD_eq_getElem _ _ hi]
    exact Or.inr (h.width _ (List.getElem_mem hi))
  · exact Or.inl (List.getD_eq_default _ _ hi)

theorem Eliminated.swap (h : Eliminated n original rows r c) {m : ℕ} (hrm : r ≤ m) (hm : m < rows.length) :
    Eliminated n original (swapRows rows r m) r c := by
  have hr : r < rows.length := hrm.trans_lt hm
  have hget := getD_swapRows hr hm
  have hlength : (swapRows rows r m).length = rows.length := by
    rw [swapRows, List.length_set, List.length_set]
  refine ⟨?_, by rw [hlength]; exact h.le, fun x => ?_, fun j hj => ?_, fun i hi k hk => ?_⟩
  · intro row hrow
    obtain ⟨i, hi, rfl⟩ := List.mem_iff_getElem.mp hrow
    rw [← List.getD_eq_getElem _ [] hi, hget]
    rw [hlength] at hi
    split
    · rw [List.getD_eq_getElem _ _ hr]
      exact h.width _ (List.getElem_mem hr)
    · split
      · rw [List.getD_eq_getElem _ _ hm]
        exact h.width _ (List.getElem_mem hm)
      · rw [List.getD_eq_getElem _ _ hi]
        exact h.width _ (List.getElem_mem hi)
  · rw [← h.solutions]
    constructor
    · intro hx i
      have hi := hx (if i = r then m else if i = m then r else i)
      rw [hget] at hi
      grind
    · intro hx i
      rw [hget]
      split
      · exact hx r
      · split
        · exact hx m
        · exact hx i
  · obtain ⟨k, hk, hne, hlater⟩ := h.pivots j hj
    refine ⟨k, hk, ?_, fun i hi => ?_⟩
    · rw [hget, if_neg (by omega), if_neg (by omega)]
      exact hne
    · rw [hget]
      split
      · exact hlater r hj
      · split
        · exact hlater m (hj.trans_le hrm)
        · exact hlater i hi
  · rw [hget]
    split
    · exact h.zeros r le_rfl k hk
    · split
      · exact h.zeros m hrm k hk
      · exact h.zeros i hi k hk

/-- Equations with pivots are solved from the last one to the first. -/
theorem Eliminated.solvable (h : Eliminated n original rows r c) {j : ℕ} (hj : j ≤ r)
    (hx : ∃ x : Fin n → K, ∀ i, r ≤ i → Solves x (equation n (rows.getD i []))) :
    ∃ x : Fin n → K, ∀ i, j ≤ i → Solves x (equation n (rows.getD i [])) := by
  induction hj using Nat.decreasingInduction with
  | self => exact hx
  | of_succ j hj ih =>
      obtain ⟨x, hx⟩ := ih
      obtain ⟨k, hk, hne, hlater⟩ := h.pivots j hj
      have hcoeff : (equation n (rows.getD j [])).coeff ⟨k, hk⟩ ≠ 0 := hne
      obtain ⟨v, hv⟩ := exists_solves_update hcoeff x
      refine ⟨Function.update x ⟨k, hk⟩ v, fun i hi => ?_⟩
      rcases Nat.lt_or_eq_of_le hi with hlt | rfl
      · have hzero : (equation n (rows.getD i [])).coeff ⟨k, hk⟩ = 0 := hlater i hlt
        exact (solves_update hzero v).mpr (hx i hlt)
      · exact hv

variable [DecidableEq K]

/-- Subtracting a multiple of the pivot row eliminates the unknown of its column. -/
theorem equation_eliminateRow {c : ℕ} (hc : c < n) {p row : List K} (hp : p.length = n + 1)
    (hrow : row = [] ∨ row.length = n + 1) (hpz : ∀ k < c, p.getD k 0 = 0) (hrz : ∀ k < c, row.getD k 0 = 0) :
    equation n (eliminateRow c p row) = eliminate ⟨c, hc⟩ (equation n p) (equation n row) := by
  have hentry : ∀ i, i ≤ n → (eliminateRow c p row).getD i 0 =
      row.getD i 0 - row.getD c 0 / p.getD c 0 * p.getD i 0 := by
    intro i hi
    unfold eliminateRow
    split <;> rename_i hzero
    · rw [hzero, zero_div, zero_mul, sub_zero]
    · have hlength : row.length = n + 1 := by
        rcases hrow with rfl | hrow
        · exact absurd (List.getD_nil ..) hzero
        · exact hrow
      have hin : i < row.length := by omega
      rw [List.getD_eq_getElem _ _ (by rwa [List.length_mapIdx]), List.getElem_mapIdx,
        ← List.getD_eq_getElem _ 0 hin]
      split <;> rename_i hci
      · rfl
      · rw [hpz i (not_le.mp hci), mul_zero, sub_zero]
  have hcoeff : (equation n (eliminateRow c p row)).coeff =
      (eliminate ⟨c, hc⟩ (equation n p) (equation n row)).coeff :=
    funext fun i => hentry i i.isLt.le
  have hrhs : (equation n (eliminateRow c p row)).rhs =
      (eliminate ⟨c, hc⟩ (equation n p) (equation n row)).rhs := hentry n le_rfl
  unfold equation eliminate at hcoeff hrhs ⊢
  rw [Equation.mk.injEq]
  exact ⟨hcoeff, hrhs⟩

theorem eliminateRow_length (c : ℕ) (p row : List K) : (eliminateRow c p row).length = row.length := by
  unfold eliminateRow
  split
  · rfl
  · rw [List.length_mapIdx]

/-- The rows after the pivot row has been used. -/
theorem getD_eliminated (c r : ℕ) (rows : List (List K)) (i : ℕ) :
    (rows.mapIdx fun i row => if r < i then eliminateRow c (rows.getD r []) row else row).getD i [] =
      if r < i then eliminateRow c (rows.getD r []) (rows.getD i []) else rows.getD i [] := by
  rcases Nat.lt_or_ge i rows.length with hi | hi
  · rw [List.getD_eq_getElem _ _ (by rwa [List.length_mapIdx]), List.getElem_mapIdx,
      ← List.getD_eq_getElem _ [] hi]
  · have hnil : eliminateRow c (rows.getD r []) ([] : List K) = [] :=
      List.length_eq_zero_iff.mp (eliminateRow_length ..)
    rw [List.getD_eq_default _ _ (by rwa [List.length_mapIdx]), List.getD_eq_default _ _ hi, hnil, ite_self]

/-- One column. -/
theorem Eliminated.step (h : Eliminated n original rows r c) (hc : c < n) :
    Eliminated n original (eliminateColumn (rows, r) c).1 (eliminateColumn (rows, r) c).2 (c + 1) := by
  unfold eliminateColumn
  simp only []
  split <;> rename_i hfind
  · -- no row from `r` on has a coefficient in the column
    refine ⟨h.width, h.le, h.solutions, h.pivots, fun i hi k hk => ?_⟩
    rcases Nat.lt_or_eq_of_le (Nat.lt_succ_iff.mp hk) with hlt | rfl
    · exact h.zeros i hi k hlt
    · rcases Nat.lt_or_ge i rows.length with hin | hin
      · have hnone := List.find?_eq_none.mp hfind i (List.mem_range'_1.mpr ⟨hi, by omega⟩)
        simpa using hnone
      · rw [List.getD_eq_default _ _ hin, List.getD_nil]
  · rename_i m
    have hmem := List.mem_range'_1.mp (List.mem_of_find?_eq_some hfind)
    have hne : (rows.getD m []).getD c 0 ≠ 0 := by simpa using List.find?_some hfind
    have hm : m < rows.length := by omega
    have hswap := h.swap hmem.1 hm
    have hpivot : ((swapRows rows r m).getD r []).getD c 0 ≠ 0 := by
      rw [getD_swapRows (hmem.1.trans_lt hm) hm]
      split
      · rename_i heq
        rwa [heq]
      · rwa [if_pos rfl]
    generalize swapRows rows r m = rows' at hswap hpivot
    have hr : r < rows'.length := by
      by_contra hge
      rw [List.getD_eq_default _ _ (not_lt.mp hge), List.getD_nil] at hpivot
      exact hpivot rfl
    have hwidth : (rows'.getD r []).length = n + 1 := by
      rw [List.getD_eq_getElem _ _ hr]
      exact hswap.width _ (List.getElem_mem hr)
    have hequation : ∀ i, r < i → equation n (eliminateRow c (rows'.getD r []) (rows'.getD i [])) =
        eliminate ⟨c, hc⟩ (equation n (rows'.getD r [])) (equation n (rows'.getD i [])) := fun i hi =>
      equation_eliminateRow hc hwidth (hswap.getD_width i) (hswap.zeros r le_rfl) (hswap.zeros i hi.le)
    have hget := getD_eliminated c r rows'
    refine ⟨?_, by rw [List.length_mapIdx]; omega, fun x => ?_, fun j hj => ?_, fun i hi k hk => ?_⟩
    · intro row hrow
      obtain ⟨i, hi, rfl⟩ := List.mem_iff_getElem.mp hrow
      rw [List.length_mapIdx] at hi
      rw [List.getElem_mapIdx]
      split
      · rw [eliminateRow_length]
        exact hswap.width _ (List.getElem_mem hi)
      · exact hswap.width _ (List.getElem_mem hi)
    · rw [← hswap.solutions]
      have hsame : ∀ i, Solves x (equation n (rows'.getD r [])) →
          (Solves x (equation n ((rows'.mapIdx fun i row =>
            if r < i then eliminateRow c (rows'.getD r []) row else row).getD i [])) ↔
              Solves x (equation n (rows'.getD i []))) := by
        intro i hx
        rw [hget]
        split <;> rename_i hi
        · rw [hequation i hi]
          exact solves_eliminate hx
        · rfl
      constructor
      · intro hx i
        have hxr := hx r
        rw [hget, if_neg (lt_irrefl r)] at hxr
        exact (hsame i hxr).mp (hx i)
      · intro hx i
        exact (hsame i (hx r)).mpr (hx i)
    · rcases Nat.lt_or_eq_of_le (Nat.lt_succ_iff.mp hj) with hlt | rfl
      · obtain ⟨k, hk, hne', hlater⟩ := hswap.pivots j hlt
        refine ⟨k, hk, by rw [hget, if_neg (by omega)]; exact hne', fun i hi => ?_⟩
        rw [hget]
        split <;> rename_i hri
        · have hcoeff := congrArg (fun e => e.coeff ⟨k, hk⟩) (hequation i hri)
          exact hcoeff.trans (eliminate_coeff_of_zero (hlater r hlt) (hlater i hi))
        · exact hlater i hi
      · refine ⟨c, hc, by rw [hget, if_neg (lt_irrefl j)]; exact hpivot, fun i hi => ?_⟩
        rw [hget, if_pos hi]
        have hcoeff := congrArg (fun e => e.coeff ⟨c, hc⟩) (hequation i hi)
        exact hcoeff.trans (eliminate_coeff_self hpivot)
    · rw [hget, if_pos (by omega)]
      have hcoeff := congrArg (fun e => e.coeff ⟨k, by omega⟩) (hequation i (by omega))
      refine hcoeff.trans ?_
      rcases Nat.lt_or_eq_of_le (Nat.lt_succ_iff.mp hk) with hlt | rfl
      · exact eliminate_coeff_of_zero (hswap.zeros r le_rfl k hlt) (hswap.zeros i (by omega) k hlt)
      · exact eliminate_coeff_self hpivot

theorem eliminated_foldl (hwidth : ∀ row ∈ rows, row.length = n + 1) (hc : c ≤ n) :
    Eliminated n rows ((List.range c).foldl eliminateColumn (rows, 0)).1
      ((List.range c).foldl eliminateColumn (rows, 0)).2 c := by
  induction c with
  | zero => exact ⟨hwidth, Nat.zero_le _, fun _ => Iff.rfl, nofun, nofun⟩
  | succ c ih =>
      rw [List.range_succ, List.foldl_append, List.foldl_cons, List.foldl_nil]
      exact (ih (Nat.le_of_succ_le hc)).step hc

theorem coefficients_zero {row : List K} (hrow : row.length = n + 1) :
    (row.take n).all (· = 0) = true ↔ ∀ k < n, row.getD k 0 = 0 := by
  rw [List.all_eq_true]
  constructor
  · intro h k hk
    have hin : k < (row.take n).length := by
      rw [List.length_take]
      omega
    have hzero := h _ (List.getElem_mem hin)
    rw [List.getElem_take] at hzero
    rw [List.getD_eq_getElem _ _ (by omega)]
    exact of_decide_eq_true hzero
  · intro h value hvalue
    obtain ⟨k, hk, rfl⟩ := List.mem_iff_getElem.mp hvalue
    rw [List.length_take] at hk
    have hzero := h k (by omega)
    rw [List.getD_eq_getElem _ _ (by omega)] at hzero
    rw [List.getElem_take]
    exact decide_eq_true hzero

/-- `is_consistent` decides whether the rows have a solution. -/
theorem isConsistent_iff (hwidth : ∀ row ∈ rows, row.length = n + 1) :
    isConsistent rows = true ↔ Solvable (rows.map (equation n)) := by
  have hsolvable : Solvable (rows.map (equation n)) ↔ ∃ x : Fin n → K, SolvesRows x rows := by
    unfold Solvable
    simp only [List.forall_mem_map, solvesRows_iff]
  rw [hsolvable]
  cases rows with
  | nil => exact ⟨fun _ => ⟨0, fun i => solves_nil 0⟩, fun _ => rfl⟩
  | cons first rest =>
      have helim := eliminated_foldl hwidth le_rfl
      have hcolumns : first.length - 1 = n := by
        rw [hwidth first List.mem_cons_self, Nat.add_sub_cancel]
      unfold isConsistent
      simp only [hcolumns]
      generalize (List.range n).foldl eliminateColumn (first :: rest, 0) = final at helim
      obtain ⟨final, r⟩ := final
      rw [List.all_eq_true]
      constructor
      · intro hall
        have hrest : ∃ x : Fin n → K, ∀ i, r ≤ i → Solves x (equation n (final.getD i [])) := by
          refine ⟨0, fun i hi => ?_⟩
          rcases Nat.lt_or_ge i final.length with hin | hin
          · have hmem : final.getD i [] ∈ final := by
              rw [List.getD_eq_getElem _ _ hin]
              exact List.getElem_mem hin
            have hzero := helim.zeros i hi
            have hcheck := hall _ hmem
            rw [(coefficients_zero (helim.width _ hmem)).mpr hzero, Bool.not_true, Bool.false_or,
              decide_eq_true_eq] at hcheck
            unfold Solves
            rw [Finset.sum_eq_zero fun k _ => by rw [Pi.zero_apply, mul_zero]]
            exact hcheck.symm
          · rw [List.getD_eq_default _ _ hin]
            exact solves_nil 0
        obtain ⟨x, hx⟩ := helim.solvable (Nat.zero_le r) hrest
        exact ⟨x, (helim.solutions x).mp fun i => hx i (Nat.zero_le i)⟩
      · rintro ⟨x, hx⟩ row hrow
        have hsolves := solvesRows_iff.mp ((helim.solutions x).mpr hx) row hrow
        by_cases hzero : (row.take n).all (· = 0) = true
        · have hcoeff := (coefficients_zero (helim.width _ hrow)).mp hzero
          unfold Solves at hsolves
          rw [Finset.sum_eq_zero fun k _ => by
            rw [show (equation n row).coeff k = 0 from hcoeff k k.isLt, zero_mul]] at hsolves
          rw [hzero, Bool.not_true, Bool.false_or, decide_eq_true_eq]
          exact hsolves.symm
        · rw [Bool.not_eq_true] at hzero
          rw [hzero]
          rfl

end

/-! ### Combinations of the generators -/

/-- A coordinate of a combination of the generators, at a vertex. -/
def combination (generators : List Generator) (x : Fin generators.length → ℚ) (vertex : IntPair)
    (component : Fin 2) : ℚ :=
  ∑ g, x g * (generators.get g (coordinate vertex component) : ℚ)

/-- Some combination is `(1, -1)` at the target and vanishes at every other vertex that is not known. -/
def Combines (generators : List Generator) (known : Finset IntPair) (target : IntPair) : Prop :=
  ∃ x, ∀ vertex ∈ vertexSet, vertex = target ∨ vertex ∉ known → ∀ component,
    combination generators x vertex component = if vertex = target then targetValue component else 0

variable {generators generators' : List Generator} {known : Finset IntPair} {target : IntPair}

theorem equationRow_length (generators : List Generator) (vertex : IntPair) (component : Fin 2) (rhs : ℚ) :
    (equationRow generators vertex component rhs).length = generators.length + 1 := by
  rw [equationRow, List.length_append, List.length_map, List.length_singleton]

theorem solves_equationRow {x : Fin generators.length → ℚ} {vertex : IntPair} {component : Fin 2} {rhs : ℚ} :
    Solves x (equation generators.length (equationRow generators vertex component rhs)) ↔
      combination generators x vertex component = rhs := by
  have hcoeff : ∀ i : Fin generators.length, (equationRow generators vertex component rhs).getD i 0 =
      (generators.get i (coordinate vertex component) : ℚ) := by
    intro i
    rw [equationRow, List.getD_append _ _ _ _ (by rw [List.length_map]; exact i.isLt),
      List.getD_eq_getElem _ _ (by rw [List.length_map]; exact i.isLt), List.getElem_map]
    rfl
  have hrhs : (equationRow generators vertex component rhs).getD generators.length 0 = rhs := by
    rw [equationRow, List.getD_append_right _ _ _ _ (by rw [List.length_map]), List.length_map, Nat.sub_self]
    rfl
  have hsum : ∑ i, (equation generators.length (equationRow generators vertex component rhs)).coeff i * x i =
      combination generators x vertex component := by
    refine sum_congr rfl fun i _ => ?_
    rw [mul_comm]
    exact congrArg (x i * ·) (hcoeff i)
  unfold Solves
  rw [hsum]
  exact Eq.congr_right hrhs

/-- `can_force` finds out whether there is such a combination. -/
theorem canForce_iff : canForce target known generators = true ↔ Combines generators known target := by
  unfold canForce
  rw [isConsistent_iff (n := generators.length)]
  · unfold Solvable Combines
    refine exists_congr fun x => ?_
    rw [List.forall_mem_map]
    simp only [List.mem_flatMap, forall_exists_index, and_imp]
    constructor
    · intro h vertex hvertex hcond component
      refine solves_equationRow.mp (h _ vertex hvertex ?_)
      rw [if_pos hcond]
      refine List.mem_map.mpr ⟨component, ?_, rfl⟩
      fin_cases component <;> decide
    · intro h row vertex hvertex hrow
      split at hrow <;> rename_i hcond
      · obtain ⟨component, -, rfl⟩ := List.mem_map.mp hrow
        exact solves_equationRow.mpr (h vertex hvertex hcond component)
      · exact absurd hrow List.not_mem_nil
  · intro row hrow
    obtain ⟨vertex, -, hrow⟩ := List.mem_flatMap.mp hrow
    split at hrow
    · obtain ⟨component, -, rfl⟩ := List.mem_map.mp hrow
      exact equationRow_length ..
    · exact absurd hrow List.not_mem_nil

/-- More known vertices leave fewer conditions. -/
theorem combines_monotonic (generators : List Generator) : Monotonic (Combines generators) := by
  rintro S T hST target ⟨x, hx⟩
  refine ⟨x, fun vertex hvertex hcond => hx vertex hvertex (hcond.imp_right fun hnot hmem => hnot (hST hmem))⟩

/-- More generators have more combinations. -/
theorem Combines.more (h : Combines generators known target) (hsub : generators ⊆ generators') :
    Combines generators' known target := by
  obtain ⟨x, hx⟩ := h
  have hindex : ∀ g : Fin generators.length, ∃ g' : Fin generators'.length, generators'.get g' = generators.get g :=
    fun g => List.get_of_mem (hsub (List.get_mem generators g))
  choose f hf using hindex
  refine ⟨fun g' => ∑ g with f g = g', x g, fun vertex hvertex hcond component => ?_⟩
  rw [← hx vertex hvertex hcond component]
  have hfiber : ∀ g', (∑ g with f g = g', x g) *
      (generators'.get g' (coordinate vertex component) : ℚ) =
        ∑ g with f g = g', x g * (generators.get g (coordinate vertex component) : ℚ) := by
    intro g'
    rw [sum_mul]
    refine sum_congr rfl fun g hg => ?_
    rw [← hf g, (mem_filter.mp hg).2]
  unfold combination
  rw [sum_congr rfl fun g' _ => hfiber g', sum_fiberwise]

/-! ### The generators of a solution -/

theorem mem_of_mapM {α β : Type} {f : α → Option β} {l : List α} {ys : List β} (h : l.mapM f = some ys) (y : β) :
    y ∈ ys ↔ ∃ x ∈ l, f x = some y := by
  induction l generalizing ys with
  | nil =>
      obtain rfl := Option.some.inj h
      simp
  | cons a l ih =>
      rw [List.mapM_cons] at h
      obtain ⟨b, hb, h⟩ := Option.bind_eq_some_iff.mp h
      obtain ⟨rest, hrest, h⟩ := Option.bind_eq_some_iff.mp h
      obtain rfl := Option.some.inj h
      rw [List.mem_cons, ih hrest]
      rw [List.exists_mem_cons_iff, hb, Option.some_inj]
      exact or_congr_left eq_comm

variable {parsed parsed' : ParsedSolution}

theorem mem_generators (h : buildGenerators parsed = some generators) (g : Generator) : g ∈ generators ↔
    (∃ relation ∈ parsed.relations, relationGenerator relation = some g) ∨
    (∃ label ∈ parsed.edgeLabels.1, ∃ gs, firstAxisGenerators label = some gs ∧ g ∈ gs) ∨
    ∃ label ∈ parsed.edgeLabels.2, secondAxisGenerator label = some g := by
  unfold buildGenerators at h
  obtain ⟨relations, hrelations, h⟩ := Option.bind_eq_some_iff.mp h
  obtain ⟨firstAxis, hfirst, h⟩ := Option.bind_eq_some_iff.mp h
  obtain ⟨secondAxis, hsecond, h⟩ := Option.bind_eq_some_iff.mp h
  obtain rfl := Option.some.inj h
  rw [List.mem_append, List.mem_append, mem_of_mapM hrelations, mem_of_mapM hsecond, List.mem_flatten, or_assoc]
  simp only [mem_of_mapM hfirst]
  refine or_congr_right (or_congr_left ⟨?_, ?_⟩)
  · rintro ⟨gs, ⟨label, hlabel, hgs⟩, hg⟩
    exact ⟨label, hlabel, gs, hgs, hg⟩
  · rintro ⟨label, hlabel, gs, hgs, hg⟩
    exact ⟨gs, ⟨label, hlabel, hgs⟩, hg⟩

theorem generators_subset (h : buildGenerators parsed = some generators)
    (h' : buildGenerators parsed' = some generators') (hrelations : parsed.relations ⊆ parsed'.relations)
    (hfirst : parsed.edgeLabels.1 ⊆ parsed'.edgeLabels.1) (hsecond : parsed.edgeLabels.2 ⊆ parsed'.edgeLabels.2) :
    generators ⊆ generators' := by
  intro g hg
  rw [mem_generators h'] at *
  rw [mem_generators h] at hg
  rcases hg with ⟨relation, hrelation, heq⟩ | ⟨label, hlabel, gs, hgs, hmem⟩ | ⟨label, hlabel, heq⟩
  · exact Or.inl ⟨relation, hrelations hrelation, heq⟩
  · exact Or.inr (Or.inl ⟨label, hfirst hlabel, gs, hgs, hmem⟩)
  · exact Or.inr (Or.inr ⟨label, hsecond hlabel, heq⟩)

/-! ### The closure -/

/-- The vertices that are known in the end. -/
def closure (parsed : ParsedSolution) (generators : List Generator) : Finset IntPair :=
  (forcedVertices parsed.free generators).2

theorem forcedVertices_spec (parsed : ParsedSolution) (generators : List Generator) :
    Forces vertexSet.toFinset (Combines generators) parsed.free.toFinset (closure parsed generators) ∧
      Closed vertexSet.toFinset (Combines generators) (closure parsed generators) ∧
      (forcedVertices parsed.free generators).1.length ≤ 4 := by
  have hforce : (fun known target => canForce target known generators = true) = Combines generators := by
    funext known target
    exact propext canForce_iff
  have hmono : Monotonic fun known target => canForce target known generators = true := by
    rw [hforce]
    exact combines_monotonic generators
  have hfree : parsed.free.toFinset ⊆ vertexSet.toFinset := fun vertex hvertex =>
    List.mem_toFinset.mpr (parsed.free_mem vertex (List.mem_toFinset.mp hvertex))
  obtain ⟨hforces, hclosed, hlength⟩ := forceRounds_spec (by decide : vertexSet.Nodup) hmono hfree
  rw [hforce] at hforces hclosed
  exact ⟨hforces, hclosed, hlength.trans (Nat.sub_le 4 _)⟩

theorem closure_isLeast (parsed : ParsedSolution) (generators : List Generator) :
    IsLeast (closedAbove vertexSet.toFinset (Combines generators) parsed.free.toFinset)
      (closure parsed generators) := by
  obtain ⟨hforces, hclosed, -⟩ := forcedVertices_spec parsed generators
  exact hforces.isLeast (combines_monotonic generators) hclosed

theorem evaluate_isSome (h : buildGenerators parsed = some generators) :
    (evaluate parsed).isSome = true ↔
      closure parsed generators = vertexSet.toFinset ∧ parsed.free.length < 4 := by
  have hsub : closure parsed generators ⊆ vertexSet.toFinset := by
    have hfree : parsed.free.toFinset ⊆ vertexSet.toFinset := fun vertex hvertex =>
      List.mem_toFinset.mpr (parsed.free_mem vertex (List.mem_toFinset.mp hvertex))
    exact (closure_isLeast parsed generators).2 ⟨hfree, fun v hv _ => hv⟩
  have hcard : (closure parsed generators).card = vertexSet.length ↔
      closure parsed generators = vertexSet.toFinset := by
    constructor
    · intro hcard
      exact eq_of_subset_of_card_le hsub (by rw [hcard]; decide)
    · intro heq
      rw [heq]
      decide
  rw [← hcard, Option.isSome_iff_exists]
  unfold evaluate
  simp only [h, Option.bind_eq_bind, Option.bind_some, Option.bind_eq_some_iff, Option.guard_eq_some']
  constructor
  · rintro ⟨score, _, hall, _, hfree, -⟩
    exact ⟨hall, hfree⟩
  · rintro ⟨hall, hfree⟩
    exact ⟨_, (), hall, (), hfree, rfl⟩

/-- The evaluation of an admitted solution, whatever the order of the forcing and of the generators. -/
structure KakeyaLaws (parsed : ParsedSolution) (generators : List Generator) : Prop where
  elimination : ∀ (n : ℕ) (rows : List (List ℚ)), (∀ row ∈ rows, row.length = n + 1) →
    (isConsistent rows = true ↔ Solvable (rows.map (equation n)))
  least : IsLeast (closedAbove vertexSet.toFinset (Combines generators) parsed.free.toFinset)
    (closure parsed generators)
  rounds : (forcedVertices parsed.free generators).1.length ≤ 4
  anyOrder : ∀ T, Forces vertexSet.toFinset (Combines generators) parsed.free.toFinset T →
    Closed vertexSet.toFinset (Combines generators) T → T = closure parsed generators
  monotone : ∀ parsed' generators', buildGenerators parsed' = some generators' → parsed.free ⊆ parsed'.free →
    parsed.relations ⊆ parsed'.relations → parsed.edgeLabels.1 ⊆ parsed'.edgeLabels.1 →
    parsed.edgeLabels.2 ⊆ parsed'.edgeLabels.2 → closure parsed generators ⊆ closure parsed' generators'
  succeeds : (evaluate parsed).isSome = true ↔
    closure parsed generators = vertexSet.toFinset ∧ parsed.free.length < 4

theorem kakeyaLaws (h : buildGenerators parsed = some generators) : KakeyaLaws parsed generators where
  elimination _ _ hwidth := isConsistent_iff hwidth
  least := closure_isLeast parsed generators
  rounds := (forcedVertices_spec parsed generators).2.2
  anyOrder _ hforces hclosed :=
    (hforces.isLeast (combines_monotonic generators) hclosed).unique (closure_isLeast parsed generators)
  monotone parsed' generators' h' hfree hrelations hfirst hsecond :=
    isLeast_mono (closure_isLeast parsed generators) (closure_isLeast parsed' generators')
      (fun _ hv => List.mem_toFinset.mpr (hfree (List.mem_toFinset.mp hv)))
      fun _ _ hcombines => hcombines.more (generators_subset h h' hrelations hfirst hsecond)
  succeeds := evaluate_isSome h

/-! ### A sample -/

/-- Three free vertices, and two relations that force the fourth. -/
def sample : ParsedSolution where
  edgeLabels := ([], [])
  free := [(1, 1), (1, 2), (2, 1)]
  relations := [((2, 2), (1, 0)), ((2, 2), (0, 1))]
  free_nodup := by decide
  free_mem := by decide
  relations_mem := by decide

def sampleGenerators : List Generator := [![0, 0, 0, 0, 0, 0, 1, 0], ![0, 0, 0, 0, 0, 0, 0, 1]]

theorem kakeyaLaws_sample : KakeyaLaws sample sampleGenerators := kakeyaLaws (by decide)

end P42Prizes.Kakeya
