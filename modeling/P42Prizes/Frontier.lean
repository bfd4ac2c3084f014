import P42Prizes.Escrow

/-! # A frontier of records

A `Frontier` keeps a best score, lower being better.  A record that is `set` is measured against
it: a record that beats it by at least `floor` moves the best score to its own.  A standing record
remembers its score, the best score it was measured against, the credit its account received, and
the mark that was in force.  `retract` takes a standing record back and puts the best score it
remembers in force again, with its credit and, if it had credit, its mark.

* `Accounts`: the credit is accounted for by the standing records.
* `Telescopes`: the way from the starting score to the best score is the sum of the reductions
  of the standing records.  It survives retracting a record that moved the best score.
* `Covered`: the reductions are at most that way.  It survives retracting a record that moved the
  best score or did not beat the one it was measured against.
* `Chain`: the standing records that moved the best score, newest first, each start where the next
  one ended.  So retracting the newest is an exact inverse (`Chain.retract`), and no other record
  that moved the best score has the best score (`Chain.eq_head`). -/

open Finset Function

/-- What is remembered of a standing record. -/
structure Record (α : Type*) where
  account : α
  score : ℤ
  before : ℤ
  credit : ℕ
  mark : ℕ

namespace Record

variable {α : Type*} (floor : ℕ) (r : Record α)

/-- The record moves the best score it is measured against. -/
def Advances : Prop := r.score < r.before ∧ floor ≤ (r.before - r.score).toNat

instance : Decidable (r.Advances floor) := inferInstanceAs (Decidable (_ ∧ _))

/-- By how much the record moved the best score. -/
def reduction : ℤ := if r.Advances floor then r.before - r.score else 0

def creditTo [DecidableEq α] (a : α) : ℕ := if r.account = a then r.credit else 0

/-- Credit is given for the whole of a move only. -/
def Fair : Prop := r.credit ≠ 0 → r.Advances floor ∧ (r.credit : ℤ) = r.before - r.score

variable {floor r}

theorem reduction_nonneg : 0 ≤ r.reduction floor := by
  unfold reduction
  split
  · rename_i h
    have hlt := h.1
    omega
  · exact le_rfl

theorem Fair.credit_le (h : r.Fair floor) : (r.credit : ℤ) ≤ r.reduction floor := by
  by_cases hc : r.credit = 0
  · rw [hc]
    exact reduction_nonneg
  · rw [reduction, if_pos (h hc).1, (h hc).2]

end Record

/-- The three values a record puts in force. -/
structure Level where
  best : ℤ
  total : ℕ
  mark : ℕ
deriving DecidableEq, Repr

/-- The level in force, the credit of the accounts and the standing records.  No record stands
outside the finite set `ids`. -/
structure Frontier (ι α : Type*) extends Level where
  credits : α → ℕ
  records : ι → Option (Record α)
  ids : Finset ι

namespace Frontier

variable {ι α : Type*} [DecidableEq ι] [DecidableEq α] (floor : ℕ) (f : Frontier ι α)

/-- The record `r` is set; `t` is the new mark if it has credit. -/
def set (i : ι) (r : Record α) (t : ℕ) : Frontier ι α :=
  { f with
    best := if r.Advances floor then r.score else f.best
    total := f.total + r.credit
    mark := if r.credit = 0 then f.mark else t
    credits := update f.credits r.account (f.credits r.account + r.credit)
    records := update f.records i (some r) }

def retract (i : ι) (r : Record α) : Frontier ι α :=
  { f with
    best := r.before
    total := f.total - r.credit
    mark := if r.credit = 0 then f.mark else r.mark
    credits := update f.credits r.account (f.credits r.account - r.credit)
    records := update f.records i none }

omit [DecidableEq ι] [DecidableEq α] in
def widen (ids : Finset ι) : Frontier ι α := { f with ids := ids }

/-- The record is measured against the level in force. -/
structure Measures (r : Record α) : Prop where
  before : r.before = f.best
  mark : r.mark = f.mark
  fair : r.Fair floor

/-! ### Sums over the standing records -/

section sums

variable {M : Type*} [AddCommMonoid M]

/-- The sum of a quantity over the standing records. -/
def sum (g : Record α → M) : M := ∑ i ∈ f.ids, (f.records i).elim 0 g

variable {f}

omit [DecidableEq α] in
theorem sum_update (g : Record α → M) {i : ι} (hi : i ∈ f.ids) (o : Option (Record α))
    {f' : Frontier ι α} (hids : f'.ids = f.ids) (hrec : f'.records = update f.records i o) :
    f'.sum g + (f.records i).elim 0 g = f.sum g + o.elim 0 g := by
  have h := sum_comp_update f.ids (fun o : Option (Record α) => o.elim 0 g) f.records hi o
  rw [sum, sum, hids, hrec]
  exact h

omit [DecidableEq α] in
theorem sum_set (g : Record α → M) {i : ι} {r : Record α} (hi : i ∈ f.ids)
    (hnone : f.records i = none) {f' : Frontier ι α} (hids : f'.ids = f.ids)
    (hrec : f'.records = update f.records i (some r)) : f'.sum g = f.sum g + g r := by
  have h := sum_update g hi (some r) hids hrec
  rw [hnone] at h
  simpa using h

omit [DecidableEq α] in
theorem sum_retract (g : Record α → M) {i : ι} {r : Record α} (hi : i ∈ f.ids)
    (hsome : f.records i = some r) {f' : Frontier ι α} (hids : f'.ids = f.ids)
    (hrec : f'.records = update f.records i none) : f'.sum g + g r = f.sum g := by
  have h := sum_update g hi none hids hrec
  rw [hsome] at h
  simpa using h

omit [DecidableEq α] [DecidableEq ι] in
theorem sum_widen (g : Record α → M) {ids : Finset ι} (hids : f.ids ⊆ ids)
    (hidle : ∀ i, i ∉ f.ids → f.records i = none) : (f.widen ids).sum g = f.sum g :=
  (sum_subset hids (fun i _ hi => congrArg (Option.elim · 0 g) (hidle i hi))).symm

end sums

/-! ### The accounts -/

/-- The credit is accounted for by the standing records. -/
structure Accounts : Prop where
  total : f.total = f.sum Record.credit
  credits : ∀ a, f.credits a = f.sum (Record.creditTo · a)
  fair : ∀ i r, f.records i = some r → r.Fair floor
  idle : ∀ i, i ∉ f.ids → f.records i = none

variable {floor f}

omit [DecidableEq ι] in
theorem Accounts.mem (h : f.Accounts floor) {i : ι} {r : Record α} (hr : f.records i = some r) :
    i ∈ f.ids := by
  by_contra hi
  rw [h.idle i hi] at hr
  cases hr

theorem Accounts.set (h : f.Accounts floor) {i : ι} {r : Record α} (hi : i ∈ f.ids)
    (hnone : f.records i = none) (hr : r.Fair floor) (t : ℕ) : (f.set floor i r t).Accounts floor := by
  have hsum : ∀ g : Record α → ℕ, (f.set floor i r t).sum g = f.sum g + g r :=
    fun g => sum_set g hi hnone rfl rfl
  constructor
  · rw [hsum, ← h.total]
    rfl
  · intro a
    have hcredits := h.credits a
    rw [hsum, ← hcredits]
    unfold Record.creditTo
    show update f.credits r.account _ a = _
    by_cases ha : a = r.account
    · subst ha
      rw [update_self, if_pos rfl]
    · rw [update_of_ne ha, if_neg (fun h => ha h.symm), add_zero]
  · intro j r' hj
    change update f.records i (some r) j = some r' at hj
    by_cases hij : j = i
    · subst hij
      rw [update_self] at hj
      cases hj
      exact hr
    · rw [update_of_ne hij] at hj
      exact h.fair j r' hj
  · intro j hj
    have hij : j ≠ i := fun hij => hj (hij ▸ hi)
    show update f.records i (some r) j = none
    rw [update_of_ne hij]
    exact h.idle j hj

theorem Accounts.retract (h : f.Accounts floor) {i : ι} {r : Record α}
    (hr : f.records i = some r) : (f.retract i r).Accounts floor := by
  have hsum : ∀ g : Record α → ℕ, (f.retract i r).sum g + g r = f.sum g :=
    fun g => sum_retract g (h.mem hr) hr rfl rfl
  constructor
  · have hcredit := hsum Record.credit
    have htotal := h.total
    show f.total - r.credit = _
    omega
  · intro a
    have hcredit := hsum (Record.creditTo · a)
    have hcredits := h.credits a
    show update f.credits r.account _ a = _
    unfold Record.creditTo at hcredit hcredits
    by_cases ha : a = r.account
    · subst ha
      rw [update_self]
      rw [if_pos rfl] at hcredit
      unfold Record.creditTo
      omega
    · rw [update_of_ne ha]
      rw [if_neg (fun h => ha h.symm)] at hcredit
      unfold Record.creditTo
      omega
  · intro j r' hj
    change update f.records i none j = some r' at hj
    by_cases hij : j = i
    · subst hij
      rw [update_self] at hj
      cases hj
    · rw [update_of_ne hij] at hj
      exact h.fair j r' hj
  · intro j hj
    show update f.records i none j = none
    by_cases hij : j = i
    · rw [hij, update_self]
    · rw [update_of_ne hij]
      exact h.idle j hj

omit [DecidableEq ι] in
theorem Accounts.widen (h : f.Accounts floor) {ids : Finset ι} (hids : f.ids ⊆ ids) :
    (f.widen ids).Accounts floor :=
  ⟨(h.total).trans (sum_widen _ hids h.idle).symm,
    fun a => (h.credits a).trans (sum_widen _ hids h.idle).symm, h.fair,
    fun i hi => h.idle i (fun hmem => hi (hids hmem))⟩

/-! ### The way from the start -/

/-- The way from `start` to the best score is the sum of the reductions. -/
def Telescopes (floor : ℕ) (start : ℤ) (f : Frontier ι α) : Prop :=
  start - f.best = f.sum (Record.reduction floor)

/-- The reductions are at most the way from `start` to the best score. -/
def Covered (floor : ℕ) (start : ℤ) (f : Frontier ι α) : Prop :=
  f.sum (Record.reduction floor) ≤ start - f.best

variable {start : ℤ} {i : ι} {r : Record α} {t : ℕ}

omit [DecidableEq ι] in
theorem set_best_add [DecidableEq ι] (hr : r.before = f.best) :
    (f.set floor i r t).best + r.reduction floor = f.best := by
  show (if r.Advances floor then r.score else f.best) + r.reduction floor = f.best
  unfold Record.reduction
  split
  · omega
  · omega

theorem sum_reduction_set (hi : i ∈ f.ids) (hnone : f.records i = none) :
    (f.set floor i r t).sum (Record.reduction floor) =
      f.sum (Record.reduction floor) + r.reduction floor :=
  sum_set _ hi hnone rfl rfl

theorem sum_reduction_retract (h : f.Accounts floor) (hr : f.records i = some r) :
    (f.retract i r).sum (Record.reduction floor) + r.reduction floor =
      f.sum (Record.reduction floor) :=
  sum_retract _ (h.mem hr) hr rfl rfl

theorem Telescopes.set (h : f.Telescopes floor start) (hi : i ∈ f.ids)
    (hnone : f.records i = none) (hr : r.before = f.best) :
    (f.set floor i r t).Telescopes floor start := by
  have hbest : (f.set floor i r t).best + r.reduction floor = f.best := set_best_add hr
  unfold Telescopes at h ⊢
  rw [sum_reduction_set hi hnone, ← h]
  omega

/-- After retracting a record that had the best score, the way still telescopes if and only if
the record had moved the best score, or had tied it. -/
theorem Telescopes.retract_iff (h : f.Telescopes floor start) (ha : f.Accounts floor)
    (hr : f.records i = some r) (hbest : f.best = r.score) (hne : r.before ≠ r.score) :
    (f.retract i r).Telescopes floor start ↔ r.Advances floor := by
  have hsum := sum_reduction_retract ha hr
  unfold Telescopes at h ⊢
  show start - r.before = _ ↔ _
  by_cases hadv : r.Advances floor
  · have hred : r.reduction floor = r.before - r.score := if_pos hadv
    simp only [hadv, iff_true]
    omega
  · have hred : r.reduction floor = 0 := if_neg hadv
    simp only [hadv, iff_false]
    omega

theorem Covered.set (h : f.Covered floor start) (hi : i ∈ f.ids)
    (hnone : f.records i = none) (hr : r.before = f.best) :
    (f.set floor i r t).Covered floor start := by
  have hbest : (f.set floor i r t).best + r.reduction floor = f.best := set_best_add hr
  unfold Covered at h ⊢
  rw [sum_reduction_set hi hnone]
  omega

theorem Covered.retract (h : f.Covered floor start) (ha : f.Accounts floor)
    (hr : f.records i = some r) (hbest : f.best = r.score)
    (hadv : r.Advances floor ∨ r.before ≤ r.score) : (f.retract i r).Covered floor start := by
  have hsum := sum_reduction_retract ha hr
  unfold Covered at h ⊢
  show _ ≤ start - r.before
  obtain hadv | hle := hadv
  · have hred : r.reduction floor = r.before - r.score := if_pos hadv
    omega
  · have hred : r.reduction floor = 0 := if_neg (fun h => by have hlt := h.1; omega)
    omega

omit [DecidableEq ι] in
theorem Covered.widen (h : f.Covered floor start) (ha : f.Accounts floor) {ids : Finset ι}
    (hids : f.ids ⊆ ids) : (f.widen ids).Covered floor start := by
  unfold Covered
  rw [sum_widen _ hids ha.idle]
  exact h

omit [DecidableEq ι] in
theorem Telescopes.widen (h : f.Telescopes floor start) (ha : f.Accounts floor) {ids : Finset ι}
    (hids : f.ids ⊆ ids) : (f.widen ids).Telescopes floor start := by
  unfold Telescopes
  rw [sum_widen _ hids ha.idle]
  exact h

omit [DecidableEq ι] in
/-- The credit given is at most the way covered. -/
theorem Covered.total_le (h : f.Covered floor start) (ha : f.Accounts floor) :
    (f.total : ℤ) ≤ start - f.best := by
  have hle : ((f.sum Record.credit : ℕ) : ℤ) ≤ f.sum (Record.reduction floor) := by
    unfold sum
    rw [Nat.cast_sum]
    refine sum_le_sum (fun i _ => ?_)
    cases hrec : f.records i with
    | none => exact le_rfl
    | some r => exact (ha.fair i r hrec).credit_le
  rw [ha.total]
  exact hle.trans h

omit [DecidableEq ι] in
theorem Accounts.credits_le (h : f.Accounts floor) (a : α) : f.credits a ≤ f.total := by
  rw [h.credits, h.total]
  refine sum_le_sum (fun i _ => ?_)
  cases f.records i with
  | none => exact le_rfl
  | some r =>
      show (if r.account = a then r.credit else 0) ≤ r.credit
      split
      · exact le_rfl
      · exact Nat.zero_le _

/-! ### The chain of moves -/

/-- The records of `k`, newest first, lead from the level `start` to `v`, each together with the
level it started from. -/
inductive Chain (floor : ℕ) (records : ι → Option (Record α)) (start : Level) :
    List (ι × Level) → Level → Prop
  | nil : Chain floor records start [] start
  | cons {k : List (ι × Level)} {before : Level} {i : ι} {r : Record α} {t : ℕ} :
      Chain floor records start k before → records i = some r → r.Advances floor →
      r.before = before.best → r.mark = before.mark →
      Chain floor records start ((i, before) :: k)
        ⟨r.score, before.total + r.credit, if r.credit = 0 then before.mark else t⟩

variable {records records' : ι → Option (Record α)} {k : List (ι × Level)} {v b s₀ : Level}

omit [DecidableEq ι] [DecidableEq α] in
theorem Chain.congr (h : Chain floor records s₀ k v)
    (hsame : ∀ p ∈ k, records' p.1 = records p.1) : Chain floor records' s₀ k v := by
  induction h with
  | nil => exact .nil
  | cons _ hr hadv hbefore hmark ih =>
      have hhead := hsame _ (List.mem_cons_self ..)
      exact .cons (ih (fun p hp => hsame p (List.mem_cons_of_mem _ hp))) (hhead.trans hr) hadv
        hbefore hmark

omit [DecidableEq ι] [DecidableEq α] in
/-- The best score of a chain is below every score on it. -/
theorem Chain.best_le (h : Chain floor records s₀ k v) :
    ∀ p ∈ k, ∃ r, records p.1 = some r ∧ r.Advances floor ∧ v.best ≤ r.score := by
  induction h with
  | nil => exact fun p hp => (nomatch hp)
  | @cons k before i r t _ hr hadv hbefore _ ih =>
      intro p hp
      obtain rfl | hp := List.mem_cons.mp hp
      · exact ⟨r, hr, hadv, le_rfl⟩
      · obtain ⟨r', hr', hadv', hle⟩ := ih p hp
        have hlt := hadv.1
        exact ⟨r', hr', hadv', by show r.score ≤ _; omega⟩

omit [DecidableEq ι] [DecidableEq α] in
/-- Only the newest record of a chain has the best score. -/
theorem Chain.eq_head (h : Chain floor records s₀ k v) {p : ι × Level} (hp : p ∈ k)
    {r : Record α} (hr : records p.1 = some r) (hbest : v.best = r.score) : k.head? = some p := by
  cases h with
  | nil => cases hp
  | @cons k before i r₁ t hk hr₁ hadv hbefore _ =>
      obtain rfl | hp := List.mem_cons.mp hp
      · rfl
      · exfalso
        obtain ⟨r', hr', -, hle⟩ := hk.best_le p hp
        rw [hr] at hr'
        cases hr'
        have hlt := hadv.1
        change r₁.score = r.score at hbest
        omega

omit [DecidableEq ι] [DecidableEq α] in
/-- The newest record of a chain does not occur in the rest of it. -/
theorem Chain.head_notMem (h : Chain floor records s₀ ((i, b) :: k) v) : ∀ p ∈ k, p.1 ≠ i := by
  intro p hp heq
  cases h with
  | cons hk hr hadv hbefore _ =>
      obtain ⟨r', hr', -, hle⟩ := hk.best_le p hp
      rw [heq, hr] at hr'
      cases hr'
      have hlt := hadv.1
      omega

omit [DecidableEq α] in
/-- Without its newest record, what is left of the chain stands. -/
theorem Chain.tail (h : Chain floor records s₀ ((i, b) :: k) v) :
    Chain floor (update records i none) s₀ k b := by
  have hne := h.head_notMem
  cases h with
  | cons hk _ _ _ _ => exact hk.congr (fun p hp => update_of_ne (hne p hp) _ _)

/-- Retracting the newest record restores the level it started from. -/
theorem Chain.retract (h : Chain floor f.records s₀ ((i, b) :: k) f.toLevel)
    (hr : f.records i = some r) : (f.retract i r).toLevel = b := by
  generalize hv : f.toLevel = v at h
  cases h with
  | @cons _ _ _ r' t hk hr' hadv hbefore hmark =>
      rw [hr] at hr'
      cases hr'
      have htotal : f.total = b.total + r.credit := congrArg Level.total hv
      have hfmark : f.mark = if r.credit = 0 then b.mark else t := congrArg Level.mark hv
      have hmark' : (if r.credit = 0 then f.mark else r.mark) = b.mark := by
        split
        · rename_i hc
          rw [hfmark, if_pos hc]
        · exact hmark
      show Level.mk r.before (f.total - r.credit) (if r.credit = 0 then f.mark else r.mark) = b
      rw [hbefore, hmark', htotal, Nat.add_sub_cancel]

omit [DecidableEq ι] in
/-- A record that does not move the best score leaves the level alone. -/
theorem Measures.level_eq [DecidableEq ι] (hm : f.Measures floor r) (hadv : ¬ r.Advances floor) :
    (f.set floor i r t).toLevel = f.toLevel := by
  have hcredit : r.credit = 0 := by
    by_contra hc
    exact hadv (hm.fair hc).1
  show Level.mk (if r.Advances floor then r.score else f.best) (f.total + r.credit)
    (if r.credit = 0 then f.mark else t) = f.toLevel
  rw [if_neg hadv, if_pos hcredit, hcredit, add_zero]

/-- The chain after a record is set. -/
theorem Chain.set (h : Chain floor f.records s₀ k f.toLevel) (hnone : f.records i = none)
    (hm : f.Measures floor r) : Chain floor (f.set floor i r t).records s₀
      (if r.Advances floor then (i, f.toLevel) :: k else k) (f.set floor i r t).toLevel := by
  have hk : Chain floor (f.set floor i r t).records s₀ k f.toLevel := by
    refine h.congr (fun p hp => ?_)
    obtain ⟨r', hr', -, -⟩ := h.best_le p hp
    have hne : p.1 ≠ i := by
      intro heq
      rw [heq, hnone] at hr'
      cases hr'
    exact update_of_ne hne _ _
  split
  · rename_i hadv
    have hr : (f.set floor i r t).records i = some r := update_self ..
    have hcons := Chain.cons (t := t) hk hr hadv hm.before hm.mark
    have hlevel : (f.set floor i r t).toLevel =
        ⟨r.score, f.total + r.credit, if r.credit = 0 then f.mark else t⟩ := by
      show Level.mk (if r.Advances floor then r.score else f.best) _ _ = _
      rw [if_pos hadv]
    rw [hlevel]
    exact hcons
  · rename_i hadv
    rw [hm.level_eq hadv]
    exact hk

/-- Every standing record that moved the best score is on the chain. -/
def Complete (floor : ℕ) (k : List (ι × Level)) (f : Frontier ι α) : Prop :=
  ∀ i r, f.records i = some r → r.Advances floor → ∃ b, (i, b) ∈ k

theorem Complete.set (h : f.Complete floor k) :
    (f.set floor i r t).Complete floor (if r.Advances floor then (i, f.toLevel) :: k else k) := by
  intro j r' hj hadv'
  change update f.records i (some r) j = some r' at hj
  by_cases hij : j = i
  · subst hij
    rw [update_self] at hj
    cases hj
    rw [if_pos hadv']
    exact ⟨_, List.mem_cons_self ..⟩
  · rw [update_of_ne hij] at hj
    obtain ⟨b, hb⟩ := h j r' hj hadv'
    split
    · exact ⟨b, List.mem_cons_of_mem _ hb⟩
    · exact ⟨b, hb⟩

theorem Complete.retract (h : f.Complete floor k) :
    (f.retract i r).Complete floor (k.filter (fun p => p.1 ≠ i)) := by
  intro j r' hj hadv
  change update f.records i none j = some r' at hj
  by_cases hij : j = i
  · subst hij
    rw [update_self] at hj
    cases hj
  · rw [update_of_ne hij] at hj
    obtain ⟨b, hb⟩ := h j r' hj hadv
    exact ⟨b, List.mem_filter.mpr ⟨hb, by simpa using hij⟩⟩

omit [DecidableEq α] in
/-- Striking the newest record off its chain leaves the rest. -/
theorem Chain.filter_head (h : Chain floor records s₀ ((i, b) :: k) v) :
    ((i, b) :: k).filter (fun p => p.1 ≠ i) = k := by
  rw [List.filter_cons_of_neg (by simp)]
  exact List.filter_eq_self.mpr (fun p hp => by simpa using h.head_notMem p hp)

end Frontier
