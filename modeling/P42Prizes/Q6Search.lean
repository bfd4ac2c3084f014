import P42Prizes.HittingSets

/-! # The hitting-set search of the hypergraph problem

A solution of `q6-intersecting-hypergraph` must have no hitting set of at most five vertices.  The
guest and the verifier both look for one by branching over the first edge the current choice misses,
on one vector of chosen vertices.  The guest tests an edge by its members, the verifier by the edge's
bit mask, which is the sum of its bits and so stands for the edge only while its vertices are
distinct; `parse_solution` admits no other edge. -/

namespace P42Prizes.Q6

open HittingSets

/-- What `parse_solution` admits as an edge, whatever its size. -/
structure Edge where
  vertices : List ℕ
  nodup : vertices.Nodup
  ne_nil : vertices ≠ []

/-! ### The guest -/

/-- `!edge.iter().any(|vertex| chosen.contains(vertex))` -/
def isMissed (chosen edge : List ℕ) : Bool := !edge.any (fun vertex => chosen.contains vertex)

def push (vertex : ℕ) (chosen : List ℕ) : List ℕ := chosen ++ [vertex]

/-- `q6_has_hitting_set`, with the vector it leaves. -/
def q6HasHittingSet (edges : List (List ℕ)) : ℕ → List ℕ → Bool × List ℕ
  | budget, chosen =>
    match edges.find? (isMissed chosen) with
    | none => (true, chosen)
    | some target =>
      match budget with
      | 0 => (false, chosen)
      | budget + 1 =>
        tryEach push List.dropLast id false (fun _ chosen => q6HasHittingSet edges budget chosen)
          target chosen

/-! ### The verifier -/

/-- `sum(1 << vertex for vertex in edge)` -/
def mask (edge : List ℕ) : ℕ := (edge.map (2 ^ ·)).sum

/-- What `find_hitting_set` keeps besides its arguments. -/
structure Search where
  chosen : List ℕ
  nodes : ℕ

def Search.push (s : Search) (vertex : ℕ) : Search := { s with chosen := s.chosen ++ [vertex] }

def Search.pop (s : Search) : Search := { s with chosen := s.chosen.dropLast }

def Search.visit (s : Search) : Search := { s with nodes := s.nodes + 1 }

def dfs (edges : List (List ℕ)) : ℕ → ℕ → Search → Option (List ℕ) × Search
  | budget, chosenMask, s =>
    match edges.find? (fun edge => mask edge &&& chosenMask == 0) with
    | none => (some (s.chosen.insertionSort (· ≤ ·)), s.visit)
    | some target =>
      match budget with
      | 0 => (none, s.visit)
      | budget + 1 =>
        tryEach (fun vertex s => s.push vertex) Search.pop Option.isSome none
          (fun vertex s => dfs edges budget (chosenMask ||| 1 <<< vertex) s) target s.visit

/-- `find_hitting_set` with the bound as an argument. -/
def findHittingSet (edges : List (List ℕ)) (budget : ℕ) : Option (List ℕ) × ℕ :=
  let (result, s) := dfs edges budget 0 ⟨[], 0⟩
  (result, s.nodes)

/-! ### The search of the guest -/

variable {edges : List (List ℕ)} {chosen target : List ℕ} {budget : ℕ}

theorem isMissed_iff : isMissed chosen target = true ↔ ∀ v ∈ target, v ∉ chosen.toFinset := by
  simp [isMissed]

theorem hits_of_find_none (h : edges.find? (isMissed chosen) = none) : Hits edges chosen.toFinset := by
  intro e he
  have hnot := List.find?_eq_none.mp h e he
  rw [isMissed_iff] at hnot
  push Not at hnot
  exact hnot

theorem toFinset_push (v : ℕ) : (push v chosen).toFinset = insert v chosen.toFinset := by
  ext w
  simp [push]

/-- The search finds something exactly when the choice can be completed within the budget, and
leaves the vector as it was when it finds nothing. -/
theorem q6HasHittingSet_spec (edges : List (List ℕ)) (budget : ℕ) (chosen : List ℕ) :
    ((q6HasHittingSet edges budget chosen).1 = true ∧ Coverable edges chosen.toFinset budget) ∨
    ((q6HasHittingSet edges budget chosen).1 = false ∧ ¬ Coverable edges chosen.toFinset budget ∧
      (q6HasHittingSet edges budget chosen).2 = chosen) := by
  induction budget generalizing chosen with
  | zero =>
      rw [q6HasHittingSet]
      cases hfind : edges.find? (isMissed chosen) with
      | none => exact .inl ⟨rfl, (hits_of_find_none hfind).coverable⟩
      | some target =>
          have hmiss := isMissed_iff.mp (List.find?_some hfind)
          exact .inr ⟨rfl, not_coverable_zero (List.mem_of_find?_eq_some hfind) hmiss, rfl⟩
  | succ budget ih =>
      rw [q6HasHittingSet]
      cases hfind : edges.find? (isMissed chosen) with
      | none => exact .inl ⟨rfl, (hits_of_find_none hfind).coverable⟩
      | some target =>
          have hmiss := isMissed_iff.mp (List.find?_some hfind)
          have hsearch : ∀ v ∈ target, ∀ c, c = chosen →
              ((q6HasHittingSet edges budget (push v c)).1 = true ∧
                Coverable edges (insert v chosen.toFinset) budget ∧ True) ∨
              ((q6HasHittingSet edges budget (push v c)).1 = false ∧
                ¬ Coverable edges (insert v chosen.toFinset) budget ∧
                (q6HasHittingSet edges budget (push v c)).2.dropLast = chosen) := by
            rintro v hv c rfl
            rw [← toFinset_push v]
            obtain ⟨hfound, hcover⟩ | ⟨hfound, hcover, hrest⟩ := ih (push v c)
            · exact .inl ⟨hfound, hcover, trivial⟩
            · refine .inr ⟨hfound, hcover, ?_⟩
              rw [hrest, push, List.dropLast_concat]
          obtain ⟨hfound, hcover, -⟩ | h :=
            branch_spec id (· = chosen) (fun _ => True)
              (List.mem_of_find?_eq_some hfind) hmiss rfl hsearch rfl
          · exact .inl ⟨hfound, hcover⟩
          · exact .inr h

/-! ### The search of the verifier -/

/-- The bits of the mask of an edge are its vertices, as these are distinct. -/
theorem testBit_mask {edge : List ℕ} (h : edge.Nodup) (v : ℕ) : (mask edge).testBit v = true ↔ v ∈ edge := by
  have hperm := List.perm_insertionSort (· ≤ ·) edge
  have hsorted := List.SortedLE.sortedLT_of_nodup List.sortedLE_insertionSort
    (hperm.nodup_iff.mpr h)
  rw [mask, ← (hperm.map (2 ^ ·)).sum_eq, ← Nat.mem_bitIndices,
    Nat.bitIndices_sum_map_two_pow hsorted, hperm.mem_iff]

/-- The mask holds the bits of the chosen vertices. -/
def Masks (chosenMask : ℕ) (chosen : List ℕ) : Prop :=
  ∀ v, chosenMask.testBit v = true ↔ v ∈ chosen

theorem masks_zero : Masks 0 [] := by
  intro v
  rw [Nat.zero_testBit]
  exact iff_of_false Bool.false_ne_true List.not_mem_nil

theorem Masks.push {m v : ℕ} (h : Masks m chosen) : Masks (m ||| 1 <<< v) (chosen ++ [v]) := by
  intro w
  rw [Nat.testBit_or, Bool.or_eq_true, h w, Nat.one_shiftLeft, Nat.testBit_two_pow,
    decide_eq_true_iff, List.mem_append, List.mem_singleton, eq_comm]

theorem isMissed_mask {m : ℕ} {edge : List ℕ} (hm : Masks m chosen) (h : edge.Nodup) :
    (mask edge &&& m == 0) = isMissed chosen edge := by
  rw [Bool.eq_iff_iff, beq_iff_eq, isMissed_iff]
  constructor
  · intro hzero v hv hmem
    have hbit := congrArg (·.testBit v) hzero
    simp only [Nat.testBit_and, Nat.zero_testBit, (testBit_mask h v).mpr hv,
      (hm v).mpr (List.mem_toFinset.mp hmem), Bool.and_self, Bool.true_eq_false] at hbit
  · intro hmiss
    apply Nat.zero_of_testBit_eq_false
    intro v
    rw [Nat.testBit_and, Bool.and_eq_false_iff]
    by_cases hv : v ∈ edge
    · refine .inr (Bool.eq_false_iff.mpr fun hbit => hmiss v hv ?_)
      exact List.mem_toFinset.mpr ((hm v).mp hbit)
    · exact .inl (Bool.eq_false_iff.mpr fun hbit => hv ((testBit_mask h v).mp hbit))

/-- What `dfs` returns: a list of at most `n` vertices that meets every edge. -/
def Returns (edges : List (List ℕ)) (n : ℕ) (result : Option (List ℕ)) : Prop :=
  ∀ H, result = some H → H.length ≤ n ∧ Hits edges H.toFinset

theorem find_mask {m : ℕ} (hm : Masks m chosen) (hedges : ∀ e ∈ edges, e.Nodup) :
    edges.find? (fun edge => mask edge &&& m == 0) = edges.find? (isMissed chosen) := by
  apply List.find?_congr
  intro e he
  exact isMissed_mask hm (hedges e he)

theorem returns_sorted {n : ℕ} (h : edges.find? (isMissed chosen) = none) (hn : chosen.length ≤ n) :
    Returns edges n (some (chosen.insertionSort (· ≤ ·))) := by
  rintro H hH
  obtain rfl := Option.some.inj hH
  have hperm := List.perm_insertionSort (· ≤ ·) chosen
  refine ⟨hperm.length_eq.le.trans hn, ?_⟩
  rw [List.toFinset_eq_of_perm _ _ hperm]
  exact hits_of_find_none h

/-- The verifier's search does what the guest's does, and what it finds is a hitting set within the
budget. -/
theorem dfs_spec (hedges : ∀ e ∈ edges, e.Nodup) {chosenMask : ℕ} {s : Search} (budget : ℕ)
    (hm : Masks chosenMask s.chosen) :
    ((dfs edges budget chosenMask s).1.isSome = true ∧ Coverable edges s.chosen.toFinset budget ∧
      Returns edges (s.chosen.length + budget) (dfs edges budget chosenMask s).1) ∨
    ((dfs edges budget chosenMask s).1.isSome = false ∧
      ¬ Coverable edges s.chosen.toFinset budget ∧
      (dfs edges budget chosenMask s).2.chosen = s.chosen) := by
  induction budget generalizing chosenMask s with
  | zero =>
      rw [dfs, find_mask hm hedges]
      cases hfind : edges.find? (isMissed s.chosen) with
      | none => exact .inl ⟨rfl, (hits_of_find_none hfind).coverable, returns_sorted hfind le_rfl⟩
      | some target =>
          have hmiss := isMissed_iff.mp (List.find?_some hfind)
          exact .inr ⟨rfl, not_coverable_zero (List.mem_of_find?_eq_some hfind) hmiss, rfl⟩
  | succ budget ih =>
      rw [dfs, find_mask hm hedges]
      cases hfind : edges.find? (isMissed s.chosen) with
      | none =>
          exact .inl ⟨rfl, (hits_of_find_none hfind).coverable,
            returns_sorted hfind (Nat.le_add_right _ _)⟩
      | some target =>
          have hmiss := isMissed_iff.mp (List.find?_some hfind)
          have hsearch : ∀ v ∈ target, ∀ t : Search, t.chosen = s.chosen →
              ((dfs edges budget (chosenMask ||| 1 <<< v) (t.push v)).1.isSome = true ∧
                Coverable edges (insert v s.chosen.toFinset) budget ∧
                Returns edges (s.chosen.length + (budget + 1))
                  (dfs edges budget (chosenMask ||| 1 <<< v) (t.push v)).1) ∨
              ((dfs edges budget (chosenMask ||| 1 <<< v) (t.push v)).1.isSome = false ∧
                ¬ Coverable edges (insert v s.chosen.toFinset) budget ∧
                (dfs edges budget (chosenMask ||| 1 <<< v) (t.push v)).2.pop.chosen = s.chosen) := by
            intro v hv t ht
            have hpush : (t.push v).chosen = push v s.chosen := by rw [Search.push, push, ht]
            have hlength : (push v s.chosen).length + budget = s.chosen.length + (budget + 1) := by
              rw [push, List.length_append, List.length_singleton]
              omega
            rw [← toFinset_push v, ← hpush, ← hlength, ← hpush]
            obtain h | ⟨hfound, hcover, hrest⟩ := ih (s := t.push v) (by rw [hpush]; exact hm.push)
            · exact .inl h
            · refine .inr ⟨hfound, hcover, ?_⟩
              rw [Search.pop, hrest, hpush, push, List.dropLast_concat]
          exact branch_spec Option.isSome (fun t : Search => t.chosen = s.chosen)
            (Returns edges (s.chosen.length + (budget + 1))) (List.mem_of_find?_eq_some hfind) hmiss
            rfl hsearch rfl

/-! ### Both searches -/

theorem vertices_nodup {edges : List Edge} : ∀ e ∈ edges.map Edge.vertices, e.Nodup := by
  intro e he
  obtain ⟨edge, -, rfl⟩ := List.mem_map.mp he
  exact edge.nodup

/-- What the two searches decide, return and leave behind. -/
structure SearchLaws (edges : List (List ℕ)) (b : ℕ) : Prop where
  guest : (q6HasHittingSet edges b []).1 = true ↔ ∃ S : Finset ℕ, S.card ≤ b ∧ Hits edges S
  verifier : (dfs edges b 0 ⟨[], 0⟩).1.isSome = true ↔ ∃ S : Finset ℕ, S.card ≤ b ∧ Hits edges S
  returned : ∀ H, (dfs edges b 0 ⟨[], 0⟩).1 = some H → H.length ≤ b ∧ Hits edges H.toFinset
  restored : ∀ budget chosen, (q6HasHittingSet edges budget chosen).1 = false →
    (q6HasHittingSet edges budget chosen).2 = chosen
  restored_dfs : ∀ budget chosenMask s, Masks chosenMask s.chosen →
    (dfs edges budget chosenMask s).1 = none → (dfs edges budget chosenMask s).2.chosen = s.chosen

/-- Both searches are complete and sound for every hypergraph and every budget. -/
theorem searchLaws (edges : List Edge) (b : ℕ) : SearchLaws (edges.map Edge.vertices) b where
  guest := by
    rw [← coverable_empty_iff]
    obtain ⟨hfound, hcover⟩ | ⟨hfound, hcover, -⟩ :=
      q6HasHittingSet_spec (edges.map Edge.vertices) b []
    · exact iff_of_true hfound hcover
    · exact iff_of_false (by rw [hfound]; exact Bool.false_ne_true) hcover
  verifier := by
    rw [← coverable_empty_iff]
    obtain ⟨hfound, hcover, -⟩ | ⟨hfound, hcover, -⟩ := dfs_spec vertices_nodup (s := ⟨[], 0⟩) b masks_zero
    · exact iff_of_true hfound hcover
    · exact iff_of_false (by rw [hfound]; exact Bool.false_ne_true) hcover
  returned := by
    intro H hH
    obtain ⟨-, -, hreturns⟩ | ⟨hfound, -⟩ := dfs_spec vertices_nodup (s := ⟨[], 0⟩) b masks_zero
    · have hlaw := hreturns H hH
      rwa [List.length_nil, Nat.zero_add] at hlaw
    · rw [hH] at hfound
      cases hfound
  restored := by
    intro budget chosen hnone
    obtain ⟨hfound, -⟩ | ⟨-, -, hrest⟩ :=
      q6HasHittingSet_spec (edges.map Edge.vertices) budget chosen
    · rw [hfound] at hnone
      cases hnone
    · exact hrest
  restored_dfs := by
    intro budget chosenMask s hm hnone
    obtain ⟨hfound, -⟩ | ⟨-, -, hrest⟩ := dfs_spec vertices_nodup budget hm
    · rw [hnone] at hfound
      cases hfound
    · exact hrest

example : (findHittingSet [[0, 1], [1, 2], [2, 3]] 1).1 = none := by decide

example : (findHittingSet [[0, 1], [1, 2], [2, 3]] 2).1 = some [0, 2] := by decide

end P42Prizes.Q6
