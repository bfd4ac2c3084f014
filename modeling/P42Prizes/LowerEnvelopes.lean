import Mathlib.Data.List.Induction
import Mathlib.Data.List.Sort
import Mathlib.Data.Prod.Lex

/-! # The lowest points of a list

The lower envelope of a list of points has, for every first coordinate that occurs, the point with the
least second coordinate, in increasing order (`IsEnvelope`); it is unique (`IsEnvelope.unique`).  Two ways
to compute it: to sort the points and to keep the first with each first coordinate (`keepFirst_spec`), and
to collect the least second coordinates in a dictionary and to sort it (`collect_spec`). -/

namespace LowerEnvelope

variable {α β : Type*} [LinearOrder α] [LinearOrder β]

/-- The points of `L` are those of `S` with the least second coordinates, in increasing order. -/
structure IsEnvelope (S L : List (α × β)) : Prop where
  increasing : L.Pairwise (fun p q => p.1 < q.1)
  sub : ∀ p ∈ L, p ∈ S
  least : ∀ p ∈ S, ∃ q ∈ L, q.1 = p.1 ∧ q.2 ≤ p.2

variable {S L L' : List (α × β)} {p q : α × β}

omit [LinearOrder β] in
theorem eq_of_increasing (h : L.Pairwise (fun p q => p.1 < q.1)) (hp : p ∈ L) (hq : q ∈ L)
    (hfst : p.1 = q.1) : p = q := by
  have hnodup : (L.map Prod.fst).Nodup := List.pairwise_map.mpr (h.imp ne_of_lt)
  exact List.inj_on_of_nodup_map hnodup hp hq hfst

namespace IsEnvelope

theorem mem_of_mem (h : IsEnvelope S L) (h' : IsEnvelope S L') (hp : p ∈ L) : p ∈ L' := by
  obtain ⟨q, hq, hfst, hle⟩ := h'.least p (h.sub p hp)
  obtain ⟨r, hr, hfst', hle'⟩ := h.least q (h'.sub q hq)
  obtain rfl := eq_of_increasing h.increasing hr hp (hfst'.trans hfst)
  rwa [← Prod.ext hfst (le_antisymm hle hle')]

theorem unique (h : IsEnvelope S L) (h' : IsEnvelope S L') : L = L' := by
  have hnodup : L.Nodup := h.increasing.imp (fun hlt heq => hlt.ne (congrArg Prod.fst heq))
  have hnodup' : L'.Nodup := h'.increasing.imp (fun hlt heq => hlt.ne (congrArg Prod.fst heq))
  have hperm : L.Perm L' := (List.perm_ext_iff_of_nodup hnodup hnodup').mpr
    (fun p => ⟨h.mem_of_mem h', h'.mem_of_mem h⟩)
  have hasymm : ∀ p q : α × β, p ∈ L → q ∈ L' → p.1 < q.1 → q.1 < p.1 → p = q :=
    fun p q _ _ hlt hgt => absurd hgt hlt.asymm
  exact hperm.eq_of_pairwise hasymm h.increasing h'.increasing

/-- The order of the points does not matter. -/
theorem of_mem_iff {S' : List (α × β)} (h : IsEnvelope S L) (hmem : ∀ p, p ∈ S ↔ p ∈ S') :
    IsEnvelope S' L :=
  ⟨h.increasing, fun p hp => (hmem p).mp (h.sub p hp), fun p hp => h.least p ((hmem p).mpr hp)⟩

/-- Both coordinates can be rescaled. -/
theorem map {γ δ : Type*} [LinearOrder γ] [LinearOrder δ] {f : α → γ} {g : β → δ} (h : IsEnvelope S L)
    (hf : StrictMono f) (hg : Monotone g) : IsEnvelope (S.map (Prod.map f g)) (L.map (Prod.map f g)) where
  increasing := List.pairwise_map.mpr (h.increasing.imp (fun hlt => hf hlt))
  sub p hp := by
    obtain ⟨q, hq, rfl⟩ := List.mem_map.mp hp
    exact List.mem_map_of_mem (h.sub q hq)
  least p hp := by
    obtain ⟨q, hq, rfl⟩ := List.mem_map.mp hp
    obtain ⟨r, hr, hfst, hle⟩ := h.least q hq
    exact ⟨Prod.map f g r, List.mem_map_of_mem hr, congrArg f hfst, hg hle⟩

end IsEnvelope

/-! ### Sorting, and keeping the first of each -/

/-- Points in the order of their coordinates. -/
def LexLe (p q : α × β) : Prop := p.1 < q.1 ∨ p.1 = q.1 ∧ p.2 ≤ q.2

instance : DecidableRel (LexLe (α := α) (β := β)) :=
  fun _ _ => inferInstanceAs (Decidable (_ ∨ _))

theorem lexLe_iff : LexLe p q ↔ toLex p ≤ toLex q := Prod.Lex.toLex_le_toLex.symm

instance total_lexLe : Std.Total (LexLe (α := α) (β := β)) where
  total p q := by
    rw [lexLe_iff, lexLe_iff]
    exact le_total _ _

instance trans_lexLe : IsTrans (α × β) LexLe where
  trans p q r := by
    rw [lexLe_iff, lexLe_iff, lexLe_iff]
    exact le_trans

theorem LexLe.fst_le (h : LexLe p q) : p.1 ≤ q.1 := by
  obtain hlt | ⟨heq, -⟩ := h
  · exact hlt.le
  · exact heq.le

/-- A point is kept unless the last one that was kept has its first coordinate. -/
def push (L : List (α × β)) (p : α × β) : List (α × β) :=
  if L.getLast?.map Prod.fst = some p.1 then L else L ++ [p]

def keepFirst (S : List (α × β)) : List (α × β) := S.foldl push []

theorem IsEnvelope.push (h : IsEnvelope S L) (hle : ∀ q ∈ S, LexLe q p) :
    IsEnvelope (S ++ [p]) (push L p) := by
  unfold LowerEnvelope.push
  split
  · next hlast =>
      obtain ⟨q, hq, hfst⟩ := Option.map_eq_some_iff.mp hlast
      have hmem := List.mem_of_getLast? hq
      refine ⟨h.increasing, fun r hr => List.mem_append_left _ (h.sub r hr), ?_⟩
      intro r hr
      obtain hr | hr := List.mem_append.mp hr
      · exact h.least r hr
      · obtain rfl := List.mem_singleton.mp hr
        refine ⟨q, hmem, hfst, ?_⟩
        obtain hlt | ⟨-, hsnd⟩ := hle q (h.sub q hmem)
        · exact absurd hfst hlt.ne
        · exact hsnd
  · next hlast =>
      have hlt : ∀ q ∈ L, q.1 < p.1 := by
        intro q hq
        refine lt_of_le_of_ne (hle q (h.sub q hq)).fst_le (fun hfst => hlast ?_)
        -- the last point is not before `q`, and not after `p`
        obtain ⟨l, r, rfl⟩ : ∃ l r, L = l ++ [r] :=
          ⟨L.dropLast, L.getLast (List.ne_nil_of_mem hq), (List.dropLast_append_getLast _).symm⟩
        rw [List.getLast?_append, List.getLast?_singleton, Option.some_or, Option.map_some]
        have hr := (hle r (h.sub r (by simp))).fst_le
        obtain hq | hq := List.mem_append.mp hq
        · have hqr := (List.pairwise_append.mp h.increasing).2.2 q hq r (List.mem_singleton_self r)
          exact absurd hr (not_le.mpr (hfst ▸ hqr))
        · rw [← hfst, List.mem_singleton.mp hq]
      refine ⟨?_, ?_, ?_⟩
      · refine List.pairwise_append.mpr ⟨h.increasing, List.pairwise_singleton _ _, ?_⟩
        intro q hq r hr
        rw [List.mem_singleton.mp hr]
        exact hlt q hq
      · intro r hr
        obtain hr | hr := List.mem_append.mp hr
        · exact List.mem_append_left _ (h.sub r hr)
        · exact List.mem_append_right _ hr
      · intro r hr
        obtain hr | hr := List.mem_append.mp hr
        · obtain ⟨q, hq, hleast⟩ := h.least r hr
          exact ⟨q, List.mem_append_left _ hq, hleast⟩
        · exact ⟨r, List.mem_append_right _ hr, rfl, le_rfl⟩

theorem keepFirst_spec (h : S.Pairwise LexLe) : IsEnvelope S (keepFirst S) := by
  induction S using List.reverseRecOn with
  | nil => exact ⟨List.Pairwise.nil, nofun, nofun⟩
  | append_singleton S p ih =>
      obtain ⟨hS, -, hp⟩ := List.pairwise_append.mp h
      rw [keepFirst, List.foldl_append]
      exact (ih hS).push (fun q hq => hp q hq p (List.mem_singleton_self p))

/-! ### A dictionary of the least second coordinates -/

/-- The dictionary with the value of a key lowered to that of `p`, or with `p` as its last entry. -/
def lower (p : α × β) : List (α × β) → List (α × β)
  | [] => [p]
  | q :: d => if q.1 = p.1 then (if p.2 < q.2 then p else q) :: d else q :: lower p d

def collect (S : List (α × β)) : List (α × β) := S.foldl (fun d p => lower p d) []

/-- The entries of `d` are the points of `S` with the least second coordinates, in any order. -/
structure IsMinima (S d : List (α × β)) : Prop where
  nodup : (d.map Prod.fst).Nodup
  sub : ∀ p ∈ d, p ∈ S
  least : ∀ p ∈ S, ∃ q ∈ d, q.1 = p.1 ∧ q.2 ≤ p.2

variable {d : List (α × β)}

/-- What `lower` does to a dictionary: it appends the point, keeps an entry that is not above it, or puts
the point in the place of an entry. -/
theorem lower_cases (p : α × β) (d : List (α × β)) :
    (lower p d = d ++ [p] ∧ p.1 ∉ d.map Prod.fst) ∨ (lower p d = d ∧ ∃ q ∈ d, q.1 = p.1 ∧ q.2 ≤ p.2) ∨
    ∃ d₁ q d₂, d = d₁ ++ q :: d₂ ∧ q.1 = p.1 ∧ p.2 < q.2 ∧ lower p d = d₁ ++ p :: d₂ := by
  induction d with
  | nil => exact .inl ⟨rfl, List.not_mem_nil⟩
  | cons q d ih =>
      by_cases hfst : q.1 = p.1
      · rw [lower, if_pos hfst]
        by_cases hlt : p.2 < q.2
        · rw [if_pos hlt]
          exact .inr (.inr ⟨[], q, d, rfl, hfst, hlt, rfl⟩)
        · rw [if_neg hlt]
          exact .inr (.inl ⟨rfl, q, List.mem_cons_self, hfst, not_lt.mp hlt⟩)
      · rw [lower, if_neg hfst]
        obtain ⟨heq, hnot⟩ | ⟨heq, r, hr, hleast⟩ | ⟨d₁, r, d₂, rfl, hr, hlt, heq⟩ := ih
        · refine .inl ⟨by rw [heq, List.cons_append], ?_⟩
          rw [List.map_cons, List.mem_cons]
          exact not_or.mpr ⟨Ne.symm hfst, hnot⟩
        · exact .inr (.inl ⟨by rw [heq], r, List.mem_cons_of_mem _ hr, hleast⟩)
        · exact .inr (.inr ⟨q :: d₁, r, d₂, rfl, hr, hlt, by rw [heq, List.cons_append]⟩)

theorem IsMinima.lower (h : IsMinima S d) (p : α × β) : IsMinima (S ++ [p]) (lower p d) := by
  obtain ⟨heq, hnot⟩ | ⟨heq, q, hq, hleast⟩ | ⟨d₁, q, d₂, rfl, hfst, hlt, heq⟩ := lower_cases p d
  · rw [heq]
    refine ⟨?_, ?_, ?_⟩
    · rw [List.map_append, List.map_singleton]
      exact List.nodup_append_comm.mp (List.nodup_cons.mpr ⟨hnot, h.nodup⟩)
    · intro r hr
      obtain hr | hr := List.mem_append.mp hr
      · exact List.mem_append_left _ (h.sub r hr)
      · exact List.mem_append_right _ hr
    · intro r hr
      obtain hr | hr := List.mem_append.mp hr
      · obtain ⟨q, hq, hleast⟩ := h.least r hr
        exact ⟨q, List.mem_append_left _ hq, hleast⟩
      · exact ⟨r, List.mem_append_right _ hr, rfl, le_rfl⟩
  · rw [heq]
    refine ⟨h.nodup, fun r hr => List.mem_append_left _ (h.sub r hr), ?_⟩
    intro r hr
    obtain hr | hr := List.mem_append.mp hr
    · exact h.least r hr
    · obtain rfl := List.mem_singleton.mp hr
      exact ⟨q, hq, hleast⟩
  · rw [heq]
    have hkeys : (d₁ ++ p :: d₂).map Prod.fst = (d₁ ++ q :: d₂).map Prod.fst := by
      rw [List.map_append, List.map_append, List.map_cons, List.map_cons, hfst]
    refine ⟨hkeys ▸ h.nodup, ?_, ?_⟩
    · intro r hr
      obtain hr | hr := List.mem_append.mp hr
      · exact List.mem_append_left _ (h.sub r (List.mem_append_left _ hr))
      · obtain rfl | hr := List.mem_cons.mp hr
        · exact List.mem_append_right _ (List.mem_singleton_self _)
        · exact List.mem_append_left _ (h.sub r (List.mem_append_right _ (List.mem_cons_of_mem _ hr)))
    · -- the point that was lowered stands for those of the entry
      have hp : p ∈ d₁ ++ p :: d₂ := List.mem_append_right _ List.mem_cons_self
      intro r hr
      obtain hr | hr := List.mem_append.mp hr
      · obtain ⟨s, hs, hsfst, hsle⟩ := h.least r hr
        obtain hs | hs := List.mem_append.mp hs
        · exact ⟨s, List.mem_append_left _ hs, hsfst, hsle⟩
        · obtain rfl | hs := List.mem_cons.mp hs
          · exact ⟨p, hp, hfst.symm.trans hsfst, hlt.le.trans hsle⟩
          · exact ⟨s, List.mem_append_right _ (List.mem_cons_of_mem _ hs), hsfst, hsle⟩
      · obtain rfl := List.mem_singleton.mp hr
        exact ⟨r, hp, rfl, le_rfl⟩

theorem collect_isMinima (S : List (α × β)) : IsMinima S (collect S) := by
  induction S using List.reverseRecOn with
  | nil => exact ⟨List.nodup_nil, nofun, nofun⟩
  | append_singleton S p ih =>
      rw [collect, List.foldl_append]
      exact ih.lower p

theorem collect_spec (S : List (α × β)) : IsEnvelope S ((collect S).insertionSort LexLe) := by
  have hmin := collect_isMinima S
  have hperm := List.perm_insertionSort LexLe (collect S)
  have hnodup : ((collect S).insertionSort LexLe).Pairwise (fun p q => p.1 ≠ q.1) :=
    List.pairwise_map.mp ((hperm.map Prod.fst).nodup_iff.mpr hmin.nodup)
  refine ⟨?_, fun p hp => hmin.sub p (hperm.mem_iff.mp hp), ?_⟩
  · refine ((List.pairwise_insertionSort LexLe (collect S)).and hnodup).imp ?_
    rintro p q ⟨hle, hne⟩
    exact lt_of_le_of_ne hle.fst_le hne
  · intro p hp
    obtain ⟨q, hq, hleast⟩ := hmin.least p hp
    exact ⟨q, hperm.mem_iff.mpr hq, hleast⟩

/-- Sorting the points first gives the lower envelope. -/
theorem keepFirst_insertionSort (S : List (α × β)) : IsEnvelope S (keepFirst (S.insertionSort LexLe)) :=
  (keepFirst_spec (List.pairwise_insertionSort LexLe S)).of_mem_iff
    (fun _ => List.mem_insertionSort LexLe)

end LowerEnvelope
