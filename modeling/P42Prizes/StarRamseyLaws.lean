import P42Prizes.CommonNeighbors
import P42Prizes.StarRamsey

/-! # The C4-star-Ramsey verifier is exact

`checkGraph` accepts just the edge lists of the graphs without a 4-cycle whose complement has no vertex
of degree 17.  Such a graph has a minimum degree `d` of at least `m - 17` with `d * (d - 1) ≤ m - 1`, so it
has at most 22 vertices, and the cap of the parser excludes none. -/

namespace P42Prizes.StarRamsey

open Reverting Verifier SimpleGraph CommonNeighbors

variable {m : ℕ} {edges : List Edge} {G : SimpleGraph (Fin m)}

/-- The edges of a graph, each listed once with the smaller vertex first. -/
structure Lists (edges : List Edge) (G : SimpleGraph (Fin m)) : Prop where
  bounds : ∀ e ∈ edges, e.1 < e.2 ∧ e.2 < m
  nodup : edges.Nodup
  adj : ∀ u v : Fin m, G.Adj u v ↔ ((u : ℕ), (v : ℕ)) ∈ edges ∨ ((v : ℕ), (u : ℕ)) ∈ edges

/-! ### Neighbours -/

theorem mem_getD_modify {l : List (Finset ℕ)} {u v a b : ℕ} (hu : u < l.length) :
    v ∈ (l.modify a (insert b)).getD u ∅ ↔ v ∈ l.getD u ∅ ∨ (a = u ∧ v = b) := by
  rw [List.getD_eq_getElem?_getD, List.getD_eq_getElem?_getD, List.getElem?_modify,
    List.getElem?_eq_getElem hu]
  by_cases ha : a = u
  · simp [ha, or_comm]
  · simp [ha]

theorem mem_foldl_adjacency {l : List (Finset ℕ)} {u v : ℕ} (hu : u < l.length) :
    v ∈ (edges.foldl (fun adjacency edge =>
        (adjacency.modify edge.1 (insert edge.2)).modify edge.2 (insert edge.1)) l).getD u ∅ ↔
      v ∈ l.getD u ∅ ∨ (u, v) ∈ edges ∨ (v, u) ∈ edges := by
  induction edges generalizing l with
  | nil => simp
  | cons e edges ih =>
      have hlength : u < ((l.modify e.1 (insert e.2)).modify e.2 (insert e.1)).length := by
        rw [List.length_modify, List.length_modify]
        exact hu
      have hmodify : u < (l.modify e.1 (insert e.2)).length := by
        rw [List.length_modify]
        exact hu
      rw [List.foldl_cons, ih hlength, mem_getD_modify hmodify, mem_getD_modify hu]
      simp only [List.mem_cons, Prod.ext_iff]
      grind

theorem length_adjacency : (adjacency m edges).length = m := by
  have hfold : ∀ l : List (Finset ℕ), (edges.foldl (fun adjacency edge =>
      (adjacency.modify edge.1 (insert edge.2)).modify edge.2 (insert edge.1)) l).length = l.length := by
    induction edges with
    | nil => exact fun l => rfl
    | cons e edges ih =>
        intro l
        rw [List.foldl_cons, ih, List.length_modify, List.length_modify]
  rw [adjacency, hfold, List.length_replicate]

theorem mem_adjacency {u v : ℕ} (hu : u < m) :
    v ∈ (adjacency m edges).getD u ∅ ↔ (u, v) ∈ edges ∨ (v, u) ∈ edges := by
  have hempty : (List.replicate m (∅ : Finset ℕ)).getD u ∅ = ∅ := by
    rw [List.getD_eq_getElem?_getD, List.getElem?_replicate]
    split <;> rfl
  rw [adjacency, mem_foldl_adjacency (by rwa [List.length_replicate]), hempty]
  simp

theorem Lists.adjacency_eq [DecidableRel G.Adj] (h : Lists edges G) (u : Fin m) :
    (adjacency m edges).getD u ∅ = (G.neighborFinset u).map Fin.valEmbedding := by
  ext v
  rw [mem_adjacency u.isLt, Finset.mem_map]
  constructor
  · intro hv
    have hlt : v < m := by
      rcases hv with hv | hv
      · exact (h.bounds _ hv).2
      · exact (h.bounds _ hv).1.trans (h.bounds _ hv).2
    exact ⟨⟨v, hlt⟩, (mem_neighborFinset _ _ _).mpr ((h.adj u ⟨v, hlt⟩).mpr hv), rfl⟩
  · rintro ⟨w, hw, rfl⟩
    exact (h.adj u w).mp ((mem_neighborFinset _ _ _).mp hw)

/-! ### The two tests -/

theorem listMin_le {l : List ℕ} {x : ℕ} (hx : x ∈ l) : listMin l ≤ x := by
  cases l with
  | nil => exact absurd hx List.not_mem_nil
  | cons a l =>
      have hfold : ∀ (l : List ℕ) (a : ℕ), l.foldl min a ≤ a ∧ ∀ x ∈ l, l.foldl min a ≤ x := by
        intro l
        induction l with
        | nil => exact fun a => ⟨le_rfl, fun x hx => absurd hx List.not_mem_nil⟩
        | cons b l ih =>
            intro a
            obtain ⟨hmin, hall⟩ := ih (min a b)
            refine ⟨hmin.trans (min_le_left a b), fun x hx => ?_⟩
            obtain rfl | hx := List.mem_cons.mp hx
            · exact hmin.trans (min_le_right a x)
            · exact hall x hx
      obtain rfl | hx := List.mem_cons.mp hx
      · exact (hfold l x).1
      · exact (hfold l a).2 x hx

theorem listMin_mem {l : List ℕ} (hl : l ≠ []) : listMin l ∈ l := by
  cases l with
  | nil => exact absurd rfl hl
  | cons a l =>
      have hfold : ∀ (l : List ℕ) (a : ℕ), l.foldl min a ∈ a :: l := by
        intro l
        induction l with
        | nil => exact fun a => List.mem_cons_self
        | cons b l ih =>
            intro a
            rcases List.mem_cons.mp (ih (min a b)) with heq | hmem
            · rw [List.foldl_cons, heq]
              rcases min_choice a b with h | h
              · rw [h]
                exact List.mem_cons_self
              · rw [h]
                exact List.mem_cons_of_mem _ List.mem_cons_self
            · exact List.mem_cons_of_mem _ (List.mem_cons_of_mem _ hmem)
      exact hfold l a

theorem Lists.minimumDegree_iff [DecidableRel G.Adj] (h : Lists edges G) (hm : 1 ≤ m) (r : ℤ) :
    r ≤ (listMin ((adjacency m edges).map Finset.card) : ℕ) ↔ ∀ v, r ≤ G.degree v := by
  have hcard : ∀ v : Fin m, ((adjacency m edges).getD v ∅).card = G.degree v := by
    intro v
    rw [h.adjacency_eq, Finset.card_map, card_neighborFinset_eq_degree]
  have hget : ∀ v (hv : v < (adjacency m edges).length), (adjacency m edges)[v] = (adjacency m edges).getD v ∅ :=
    fun v hv => (List.getD_eq_getElem _ _ hv).symm
  constructor
  · intro hr v
    have hv : (v : ℕ) < (adjacency m edges).length := by
      rw [length_adjacency]
      exact v.isLt
    have hmem : ((adjacency m edges).getD v ∅).card ∈ (adjacency m edges).map Finset.card := by
      rw [← hget v hv]
      exact List.mem_map_of_mem (List.getElem_mem hv)
    have hle := listMin_le hmem
    rw [hcard] at hle
    omega
  · intro hr
    have hne : (adjacency m edges).map Finset.card ≠ [] := by
      intro hnil
      have hlength := congrArg List.length hnil
      rw [List.length_map, length_adjacency, List.length_nil] at hlength
      omega
    obtain ⟨set, hset, heq⟩ := List.mem_map.mp (listMin_mem hne)
    obtain ⟨v, hv, rfl⟩ := List.mem_iff_getElem.mp hset
    have hlt : v < m := by rwa [length_adjacency] at hv
    rw [← heq, hget v hv]
    have hdegree := hr ⟨v, hlt⟩
    rwa [← hcard] at hdegree

theorem mem_pairs {u v : ℕ} : (u, v) ∈ pairs m ↔ u < v ∧ v < m := by
  simp only [pairs, List.mem_flatMap, List.mem_range, List.mem_map, List.mem_range'_1, Prod.mk.injEq]
  constructor
  · rintro ⟨a, ha, b, hb, rfl, rfl⟩
    omega
  · intro h
    exact ⟨u, by omega, v, by omega, rfl, rfl⟩

theorem checkPairs_ok_iff {neighbors : List (Finset ℕ)} {l : List (ℕ × ℕ)} {sums : ℕ × ℕ} :
    (∃ sums', checkPairs neighbors l sums = .ok sums') ↔
      ∀ p ∈ l, (neighbors.getD p.1 ∅ ∩ neighbors.getD p.2 ∅).card ≤ 1 := by
  induction l generalizing sums with
  | nil => simp [checkPairs]
  | cons p l ih =>
      obtain ⟨u, v⟩ := p
      simp only [checkPairs, bind_eq_ok, revertIf_eq_ok, exists_const, exists_and_left, ih, gt_iff_lt, not_lt,
        List.forall_mem_cons]

theorem Lists.checkPairs_iff [DecidableRel G.Adj] (h : Lists edges G) :
    (∃ sums, checkPairs (adjacency m edges) (pairs m) (0, 0) = .ok sums) ↔ (cycleGraph 4).Free G := by
  have hcodegree : ∀ u v : Fin m, ((adjacency m edges).getD u ∅ ∩ (adjacency m edges).getD v ∅).card =
      (G.neighborFinset u ∩ G.neighborFinset v).card := by
    intro u v
    rw [h.adjacency_eq, h.adjacency_eq, ← Finset.map_inter, Finset.card_map]
  rw [checkPairs_ok_iff, free_iff_atMostOne, atMostOne_iff_card]
  constructor
  · intro hpairs u v huv
    rw [← hcodegree]
    rcases lt_or_gt_of_ne huv with hlt | hlt
    · exact hpairs (u, v) (mem_pairs.mpr ⟨hlt, v.isLt⟩)
    · rw [Finset.inter_comm]
      exact hpairs (v, u) (mem_pairs.mpr ⟨hlt, u.isLt⟩)
  · rintro hcard ⟨u, v⟩ hp
    obtain ⟨hlt, hv⟩ := mem_pairs.mp hp
    have hone := hcard ⟨u, hlt.trans hv⟩ ⟨v, hv⟩ (Fin.ne_of_lt hlt)
    rwa [← hcodegree] at hone

/-- What the two tests say of the graph. -/
theorem Lists.checkGraph_iff [DecidableRel G.Adj] (h : Lists edges G) (hm : 1 ≤ m) :
    (∃ details, checkGraph m edges = .ok details) ↔
      (∀ v, m ≤ G.degree v + N) ∧ (cycleGraph 4).Free G := by
  have hdegree : (∀ v, (m : ℤ) - N ≤ G.degree v) ↔ ∀ v, m ≤ G.degree v + N :=
    forall_congr' fun v => by omega
  rw [← hdegree, ← h.minimumDegree_iff hm, ← h.checkPairs_iff, checkGraph]
  simp only [bind_eq_ok, revertIf_eq_ok, pure_eq_ok, exists_const, exists_and_left, not_lt]
  constructor
  · rintro ⟨hmin, _, sums, hsums, -⟩
    exact ⟨hmin, sums, hsums⟩
  · rintro ⟨hmin, sums, hsums⟩
    exact ⟨hmin, _, sums, hsums, rfl⟩

/-! ### Witnesses of any size -/

theorem degree_compl_lt_iff [DecidableRel G.Adj] (v : Fin m) :
    Gᶜ.degree v < N ↔ m ≤ G.degree v + N := by
  have hlt := G.degree_lt_card_verts v
  rw [degree_compl, Fintype.card_fin]
  rw [Fintype.card_fin] at hlt
  have hpos : 0 < N := by decide
  omega

/-- No graph with more vertices than the cap passes. -/
theorem order_le [DecidableRel G.Adj] (hdegree : ∀ v, m ≤ G.degree v + N)
    (hfree : (cycleGraph 4).Free G) : m ≤ maxVertices := by
  by_contra hlt
  have hlarge : 23 ≤ m := not_le.mp hlt
  have hnonempty : Nonempty (Fin m) := ⟨⟨0, by omega⟩⟩
  have hd : ∀ v, m - N ≤ G.degree v := fun v => Nat.sub_le_iff_le_add.mpr (hdegree v)
  have hle := degree_mul_pred_le (free_iff_atMostOne.mp hfree) hd
  rw [Fintype.card_fin] at hle
  obtain ⟨k, rfl⟩ : ∃ k, m = k + 23 := ⟨m - 23, by omega⟩
  have hsquare : (k + 6) * (k + 5) ≤ k + 22 := hle
  nlinarith

/-- The edges of any graph, from all pairs of vertices. -/
theorem exists_lists (G : SimpleGraph (Fin m)) [DecidableRel G.Adj] : ∃ edges, Lists edges G := by
  refine ⟨(pairs m).filter fun p => ∃ (hu : p.1 < m) (hv : p.2 < m), G.Adj ⟨p.1, hu⟩ ⟨p.2, hv⟩, ?_, ?_, ?_⟩
  · intro e he
    exact mem_pairs.mp (List.mem_filter.mp he).1
  · refine List.Nodup.filter _ ?_
    rw [pairs, List.nodup_flatMap]
    refine ⟨fun u _ => List.Nodup.map (fun a b h => (Prod.mk.inj h).2) List.nodup_range', ?_⟩
    refine List.nodup_range.imp fun hne => ?_
    intro p hp hq
    obtain ⟨a, -, rfl⟩ := List.mem_map.mp hp
    obtain ⟨b, -, heq⟩ := List.mem_map.mp hq
    exact hne (Prod.mk.inj heq).1.symm
  · intro u v
    simp only [List.mem_filter, mem_pairs, decide_eq_true_eq, Fin.is_lt, exists_true_left, Fin.eta,
      and_true, Fin.val_fin_lt]
    constructor
    · intro hadj
      rcases lt_or_gt_of_ne hadj.ne with hlt | hlt
      · exact .inl ⟨hlt, hadj⟩
      · exact .inr ⟨hlt, hadj.symm⟩
    · rintro (⟨-, hadj⟩ | ⟨-, hadj⟩)
      · exact hadj
      · exact hadj.symm

/-! ### Parsed witnesses -/

theorem parseEdge_ok {vertices : ℤ} {index : ℕ} {seen : List Edge} {rawEdge : Json} {edge : Edge}
    (h : parseEdge vertices index seen rawEdge = .ok edge) :
    edge.1 < edge.2 ∧ (edge.2 : ℤ) < vertices ∧ edge ∉ seen := by
  unfold parseEdge at h
  split at h
  · simp only [bind_eq_ok, revertIf_eq_ok, pure_eq_ok, exists_const] at h
    obtain ⟨u, -, v, -, hrange, hne, hnew, rfl⟩ := h
    rw [not_or, not_not, not_not] at hrange
    unfold InRange at hrange
    dsimp only
    refine ⟨?_, ?_, hnew⟩
    · omega
    · omega
  · cases h

theorem parseEdges_ok {vertices : ℤ} {index : ℕ} {seen : List Edge} {rawEdges : List Json} {all : List Edge}
    (h : parseEdges vertices index seen rawEdges = .ok all) (hnodup : seen.Nodup)
    (hseen : ∀ e ∈ seen, e.1 < e.2 ∧ (e.2 : ℤ) < vertices) :
    all.Nodup ∧ ∀ e ∈ all, e.1 < e.2 ∧ (e.2 : ℤ) < vertices := by
  induction rawEdges generalizing index seen with
  | nil =>
      obtain rfl := Except.ok.inj h
      exact ⟨hnodup, hseen⟩
  | cons rawEdge rawEdges ih =>
      simp only [parseEdges, bind_eq_ok] at h
      obtain ⟨edge, hedge, hrest⟩ := h
      obtain ⟨hlt, hv, hnew⟩ := parseEdge_ok hedge
      refine ih hrest ?_ ?_
      · exact List.nodup_append.mpr ⟨hnodup, List.nodup_singleton edge, fun a ha b hb =>
          ne_of_mem_of_not_mem ha (List.mem_singleton.mp hb ▸ hnew)⟩
      · intro e he
        rcases List.mem_append.mp he with he | he
        · exact hseen e he
        · rw [List.mem_singleton.mp he]
          exact ⟨hlt, hv⟩

/-- The graph with the listed edges. -/
def graphOf (m : ℕ) (edges : List Edge) : SimpleGraph (Fin m) :=
  SimpleGraph.fromRel fun u v => ((u : ℕ), (v : ℕ)) ∈ edges

theorem lists_graphOf (hnodup : edges.Nodup) (hbounds : ∀ e ∈ edges, e.1 < e.2 ∧ e.2 < m) :
    Lists edges (graphOf m edges) := by
  refine ⟨hbounds, hnodup, fun u v => ?_⟩
  rw [graphOf, fromRel_adj]
  refine ⟨fun h => h.2, fun h => ⟨?_, h⟩⟩
  rintro rfl
  rcases h with h | h
  · exact (hbounds _ h).1.ne rfl
  · exact (hbounds _ h).1.ne rfl

theorem parseSolution_ok {loads : Bytes → Except String Json} {raw : Bytes}
    (h : parseSolution loads raw = .ok (m, edges)) :
    1 ≤ m ∧ m ≤ maxVertices ∧ Lists edges (graphOf m edges) := by
  unfold parseSolution at h
  simp only [bind_eq_ok] at h
  obtain ⟨data, -, h⟩ := h
  split at h
  · cases h
  · simp only [bind_eq_ok, revertIf_eq_ok, exists_const] at h
    obtain ⟨vertices, -, hcount, h⟩ := h
    split at h
    · simp only [bind_eq_ok, revertIf_eq_ok, pure_eq_ok, exists_const, Prod.mk.injEq] at h
      obtain ⟨-, all, hall, rfl, rfl⟩ := h
      obtain ⟨hnodup, hbounds⟩ := parseEdges_ok hall List.nodup_nil fun e he => absurd he List.not_mem_nil
      have hmin : minVertices = 1 := rfl
      have hmax : maxVertices = 22 := rfl
      refine ⟨by omega, by omega, lists_graphOf hnodup fun e he => ?_⟩
      have hlt := hbounds e he
      omega
    · cases h

/-- The verifier accepts just the graphs without a 4-cycle whose complement has no vertex of degree 17, and
none of them has more vertices than it admits. -/
theorem starRamsey_exact :
    (∀ (m : ℕ) (G : SimpleGraph (Fin m)) [DecidableRel G.Adj], 1 ≤ m →
      (∃ edges, Lists edges G) ∧ ∀ edges, Lists edges G →
        ((∃ details, checkGraph m edges = .ok details) ↔
          (cycleGraph 4).Free G ∧ ∀ v, Gᶜ.degree v < 17)) ∧
    (∀ (m : ℕ) (G : SimpleGraph (Fin m)) (edges : List Edge), 23 ≤ m → Lists edges G →
      ∀ details, checkGraph m edges ≠ .ok details) ∧
    ∀ (loads : Bytes → Except String Json) (raw : Bytes) (m : ℕ) (edges : List Edge),
      parseSolution loads raw = .ok (m, edges) →
        1 ≤ m ∧ m ≤ maxVertices ∧ Lists edges (graphOf m edges) := by
  refine ⟨?_, ?_, fun loads raw m edges => parseSolution_ok⟩
  · intro m G _ hm
    refine ⟨exists_lists G, fun edges h => (h.checkGraph_iff hm).trans ?_⟩
    rw [and_comm]
    exact and_congr_right fun _ => forall_congr' fun v => (degree_compl_lt_iff v).symm
  · intro m G edges hm h details hok
    classical
    obtain ⟨hdegree, hfree⟩ := (h.checkGraph_iff (by omega)).mp ⟨details, hok⟩
    have hle := order_le hdegree hfree
    have hmax : maxVertices = 22 := rfl
    omega

/-- A path on three vertices, and the empty graph on 23. -/
theorem starRamsey_exact_path :
    ((∃ details, checkGraph 3 [(0, 1), (1, 2)] = .ok details) ↔
      (cycleGraph 4).Free (graphOf 3 [(0, 1), (1, 2)])) ∧
    (∀ details, checkGraph 23 [] ≠ .ok details) ∧
    Lists [(0, 1)] (graphOf 2 [(0, 1)]) := by
  classical
  have hpath : Lists [(0, 1), (1, 2)] (graphOf 3 [(0, 1), (1, 2)]) := lists_graphOf (by decide) (by decide)
  have hempty : Lists [] (graphOf 23 []) := lists_graphOf List.nodup_nil nofun
  have hdegree : ∀ v, (graphOf 3 [(0, 1), (1, 2)])ᶜ.degree v < 17 := fun v =>
    (degree_lt_card_verts v).trans (by decide)
  refine ⟨?_, starRamsey_exact.2.1 23 _ [] le_rfl hempty, ?_⟩
  · exact ((starRamsey_exact.1 3 _ (by decide)).2 _ hpath).trans (and_iff_left hdegree)
  · let edge : Json := .list [.int 1, .int 0]
    exact (starRamsey_exact.2.2 (fun _ => .ok (.dict [("vertices", .int 2), ("edges", .list [edge])])) [] 2
      [(0, 1)] (by rfl)).2.2

end P42Prizes.StarRamsey
