import Mathlib

/-! # Escrowed deposits

An `Escrow` holds deposits under keys `ι` and owes settled deposits to accounts `α`.  A key
is settled as a whole: `settle i a` makes everything held under `i` claimable by `a`.  The
total owed (`total`) only changes with a deposit or a withdrawal (`total_deposit`,
`total_settle`, `total_withdraw`).

A `Book` is the list of all deposits ever posted, each marked with the account it was settled
to.  A mark is set once: `Book.settle` only touches unsettled postings.  `Tracks b e out` says
that the book explains the escrow: what is held under a key is what is posted there and not
yet settled, and what was settled to an account is what it may claim plus what it has
withdrawn.  The operations of the two sides correspond (`Tracks.deposit`, `Tracks.settle`,
`Tracks.withdraw`).

A `Vault` adds the money to an escrow and its book.  It is `Sound` if it holds what it owes and
the surplus it was given; every operation keeps it sound. -/

open Finset Function

/-- Sums under a point update, at a point of the index set. -/
theorem Finset.sum_comp_update {ι β M : Type*} [DecidableEq ι] [AddCommMonoid M] (S : Finset ι)
    (g : β → M) (f : ι → β) {i : ι} (hi : i ∈ S) (v : β) :
    ∑ j ∈ S, g (update f i v j) + g (f i) = ∑ j ∈ S, g (f j) + g v := by
  rw [← add_sum_erase S _ hi, ← add_sum_erase S (fun j => g (f j)) hi]
  have hrest : ∑ j ∈ S.erase i, g (update f i v j) = ∑ j ∈ S.erase i, g (f j) :=
    sum_congr rfl (fun j hj => by rw [update_of_ne (ne_of_mem_erase hj)])
  rw [hrest, update_self]
  abel

/-- Sums under a point update, at a point outside the index set. -/
theorem Finset.sum_comp_update_of_notMem {ι β M : Type*} [DecidableEq ι] [AddCommMonoid M]
    (S : Finset ι) (g : β → M) (f : ι → β) {i : ι} (hi : i ∉ S) (v : β) :
    ∑ j ∈ S, g (update f i v j) = ∑ j ∈ S, g (f j) :=
  sum_congr rfl (fun j hj => by rw [update_of_ne (fun h : j = i => hi (h ▸ hj))])

/-- Deposits held under keys and amounts owed to accounts. -/
structure Escrow (ι α : Type*) where
  held : ι → ℕ
  claimable : α → ℕ

namespace Escrow

variable {ι α : Type*} [DecidableEq ι] [DecidableEq α] (e : Escrow ι α)

def deposit (i : ι) (v : ℕ) : Escrow ι α := { e with held := update e.held i (e.held i + v) }

def settle (i : ι) (a : α) : Escrow ι α where
  held := update e.held i 0
  claimable := update e.claimable a (e.claimable a + e.held i)

def withdraw (a : α) : Escrow ι α := { e with claimable := update e.claimable a 0 }

section totals
variable [Fintype α] (S : Finset ι)

/-- Everything the escrow owes, over the keys of `S`. -/
def total : ℕ := ∑ i ∈ S, e.held i + ∑ a, e.claimable a

omit [DecidableEq α] in
theorem total_deposit {i : ι} (hi : i ∈ S) (v : ℕ) :
    (e.deposit i v).total S = e.total S + v := by
  have h := sum_comp_update S id e.held hi (e.held i + v)
  simp only [id] at h
  simp only [total, deposit]
  omega

theorem total_settle {i : ι} (hi : i ∈ S) (a : α) : (e.settle i a).total S = e.total S := by
  have h₁ := sum_comp_update S id e.held hi 0
  have h₂ := sum_comp_update univ id e.claimable (mem_univ a) (e.claimable a + e.held i)
  simp only [id] at h₁ h₂
  simp only [total, settle]
  omega

omit [DecidableEq ι] in
theorem total_withdraw (a : α) : (e.withdraw a).total S + e.claimable a = e.total S := by
  have h := sum_comp_update univ id e.claimable (mem_univ a) 0
  simp only [id] at h
  simp only [total, withdraw]
  omega

omit [DecidableEq α] in
/-- A key under which nothing is held may be added to the index set. -/
theorem total_insert {i : ι} (hi : e.held i = 0) : e.total (insert i S) = e.total S := by
  by_cases hmem : i ∈ S
  · rw [insert_eq_self.mpr hmem]
  · rw [total, total, sum_insert hmem, hi, zero_add]

omit [DecidableEq ι] [DecidableEq α] in
theorem claimable_le_total (a : α) : e.claimable a ≤ e.total S :=
  le_trans (single_le_sum (fun _ _ => Nat.zero_le _) (mem_univ a)) (Nat.le_add_left _ _)

omit [DecidableEq ι] [DecidableEq α] in
/-- What one key holds and one account may claim is together at most the total. -/
theorem held_add_claimable_le_total {i : ι} (hi : i ∈ S) (a : α) :
    e.held i + e.claimable a ≤ e.total S :=
  add_le_add (single_le_sum (f := e.held) (fun _ _ => Nat.zero_le _) hi)
    (single_le_sum (f := e.claimable) (fun _ _ => Nat.zero_le _) (mem_univ a))

end totals

/-! ### The book of postings -/

/-- One deposit ever posted, and the account it was settled to. -/
structure Posting (ι α : Type*) where
  key : ι
  amount : ℕ
  settledTo : Option α

/-- All postings, newest first. -/
abbrev Book (ι α : Type*) := List (Posting ι α)

namespace Posting

/-- Settle a posting under key `i` to `a`, unless it is settled already. -/
def settle (i : ι) (a : α) (p : Posting ι α) : Posting ι α :=
  if p.key = i ∧ p.settledTo = none then { p with settledTo := some a } else p

def unsettledAt (i : ι) (p : Posting ι α) : ℕ :=
  if p.key = i ∧ p.settledTo = none then p.amount else 0

def settledAt (a : α) (p : Posting ι α) : ℕ := if p.settledTo = some a then p.amount else 0

omit [DecidableEq α] in
theorem settle_key (i : ι) (a : α) (p : Posting ι α) : (p.settle i a).key = p.key := by
  unfold settle
  split <;> rfl

omit [DecidableEq α] in
theorem settle_amount (i : ι) (a : α) (p : Posting ι α) : (p.settle i a).amount = p.amount := by
  unfold settle
  split <;> rfl

omit [DecidableEq α] in
/-- A settled posting keeps its account. -/
theorem settle_settledTo_of_some {i : ι} {a b : α} {p : Posting ι α} (h : p.settledTo = some b) :
    (p.settle i a).settledTo = some b := by
  simp [settle, h]

omit [DecidableEq α] in
theorem unsettledAt_settle (i j : ι) (a : α) (p : Posting ι α) :
    (p.settle i a).unsettledAt j = if j = i then 0 else p.unsettledAt j := by
  unfold settle unsettledAt
  by_cases h : p.key = i ∧ p.settledTo = none <;> by_cases hj : j = i
  · simp [h, hj]
  · have hij : ¬ i = j := fun hij => hj hij.symm
    simp [h, hj, hij]
  · subst hj
    simp [h]
  · simp [h, hj]

theorem settledAt_settle (i : ι) (a b : α) (p : Posting ι α) :
    (p.settle i a).settledAt b = p.settledAt b + if b = a then p.unsettledAt i else 0 := by
  unfold settle settledAt unsettledAt
  by_cases h : p.key = i ∧ p.settledTo = none <;> by_cases hb : b = a
  · simp [h, hb]
  · have hab : ¬ a = b := fun hab => hb hab.symm
    simp [h, hb, hab]
  · simp [h]
  · simp [h, hb]

end Posting

namespace Book

variable (b : Book ι α)

def post (i : ι) (v : ℕ) : Book ι α := ⟨i, v, none⟩ :: b

def settle (i : ι) (a : α) : Book ι α := b.map (Posting.settle i a)

/-- Posted under `i` and not settled. -/
def unsettled (i : ι) : ℕ := (b.map (Posting.unsettledAt i)).sum

/-- Settled to `a`, over all keys. -/
def settled (a : α) : ℕ := (b.map (Posting.settledAt a)).sum

/-- Posted under `i`, settled or not. -/
def posted (i : ι) : ℕ := (b.map (fun p => if p.key = i then p.amount else 0)).sum

omit [DecidableEq α] in
@[simp] theorem unsettled_post (i j : ι) (v : ℕ) :
    (b.post i v).unsettled j = b.unsettled j + if j = i then v else 0 := by
  by_cases h : j = i
  · simp [unsettled, post, Posting.unsettledAt, h, add_comm]
  · simp [unsettled, post, Posting.unsettledAt, h, Ne.symm h]

omit [DecidableEq ι] in
@[simp] theorem settled_post (i : ι) (v : ℕ) (a : α) : (b.post i v).settled a = b.settled a := by
  simp [settled, post, Posting.settledAt]

omit [DecidableEq α] in
@[simp] theorem unsettled_settle (i j : ι) (a : α) :
    (b.settle i a).unsettled j = if j = i then 0 else b.unsettled j := by
  induction b with
  | nil => simp [unsettled, settle]
  | cons p b ih =>
      simp only [unsettled, settle, List.map_cons, List.sum_cons, Posting.unsettledAt_settle] at ih ⊢
      rw [ih]
      split <;> omega

@[simp] theorem settled_settle (i : ι) (a c : α) :
    (b.settle i a).settled c = b.settled c + if c = a then b.unsettled i else 0 := by
  induction b with
  | nil => simp [settled, unsettled, settle]
  | cons p b ih =>
      simp only [settled, unsettled, settle, List.map_cons, List.sum_cons,
        Posting.settledAt_settle] at ih ⊢
      rw [ih]
      split <;> omega

/-- Some posting under `i` is not settled. -/
def Open (i : ι) : Prop := ∃ p ∈ b, p.key = i ∧ p.settledTo = none

omit [DecidableEq ι] [DecidableEq α] in
@[simp] theorem open_post (i j : ι) (v : ℕ) : (b.post i v).Open j ↔ j = i ∨ b.Open j := by
  simp [Open, post, eq_comm]

omit [DecidableEq α] in
@[simp] theorem open_settle (i j : ι) (a : α) : (b.settle i a).Open j ↔ j ≠ i ∧ b.Open j := by
  simp only [Open, settle, List.mem_map, exists_exists_and_eq_and, Posting.settle_key]
  constructor
  · rintro ⟨p, hp, rfl, hnone⟩
    have hi : p.key ≠ i := by
      rintro rfl
      cases h : p.settledTo <;> simp [Posting.settle, h] at hnone
    refine ⟨hi, p, hp, rfl, ?_⟩
    rw [← hnone]
    simp [Posting.settle, hi]
  · rintro ⟨hne, p, hp, rfl, hnone⟩
    exact ⟨p, hp, rfl, by simp [Posting.settle, hne, hnone]⟩

omit [DecidableEq α] in
/-- A key that is settled is settled for good. -/
theorem settle_settle (i : ι) (a c : α) : (b.settle i a).settle i c = b.settle i a := by
  simp only [settle, List.map_map]
  refine List.map_congr_left (fun p _ => ?_)
  by_cases h : p.key = i ∧ p.settledTo = none <;> simp [Posting.settle, h]

/-- The `n`-th posting, counted from the first, once settled to `a`. -/
def SettledTo (n : ℕ) (p : Posting ι α) (a : α) : Prop :=
  b.reverse[n]? = some p ∧ p.settledTo = some a

omit [DecidableEq ι] [DecidableEq α] in
theorem SettledTo.post {b : Book ι α} {n : ℕ} {p : Posting ι α} {a : α} (h : b.SettledTo n p a)
    (i : ι) (v : ℕ) : (b.post i v).SettledTo n p a := by
  obtain ⟨hlt, -⟩ := List.getElem?_eq_some_iff.mp h.1
  refine ⟨?_, h.2⟩
  rw [Book.post, List.reverse_cons, List.getElem?_append_left hlt]
  exact h.1

omit [DecidableEq α] in
theorem SettledTo.settle {b : Book ι α} {n : ℕ} {p : Posting ι α} {a : α} (h : b.SettledTo n p a)
    (i : ι) (c : α) : (b.settle i c).SettledTo n p a := by
  refine ⟨?_, h.2⟩
  have hkeep : p.settle i c = p := by simp [Posting.settle, h.2]
  rw [Book.settle, ← List.map_reverse, List.getElem?_map, h.1, Option.map_some, hkeep]

end Book

/-- The book explains the escrow, `out a` being what `a` has withdrawn so far. -/
structure Tracks (b : Book ι α) (e : Escrow ι α) (out : α → ℕ) : Prop where
  held : ∀ i, b.unsettled i = e.held i
  owed : ∀ a, b.settled a = e.claimable a + out a

namespace Tracks

variable {e} {b : Book ι α} {out : α → ℕ}

theorem deposit (h : Tracks b e out) (i : ι) (v : ℕ) : Tracks (b.post i v) (e.deposit i v) out where
  held j := by
    rw [Book.unsettled_post, h.held]
    by_cases hj : j = i
    · subst hj; simp [Escrow.deposit]
    · simp [Escrow.deposit, hj]
  owed a := by rw [Book.settled_post, h.owed, Escrow.deposit]

theorem settle (h : Tracks b e out) (i : ι) (a : α) : Tracks (b.settle i a) (e.settle i a) out where
  held j := by
    rw [Book.unsettled_settle, h.held]
    by_cases hj : j = i
    · subst hj; simp [Escrow.settle]
    · simp [Escrow.settle, hj]
  owed c := by
    rw [Book.settled_settle, h.owed, h.held]
    by_cases hc : c = a
    · subst hc; simp [Escrow.settle]; omega
    · simp [Escrow.settle, hc]

theorem withdraw (h : Tracks b e out) (a : α) :
    Tracks b (e.withdraw a) (update out a (out a + e.claimable a)) where
  held j := h.held j
  owed c := by
    rw [h.owed]
    by_cases hc : c = a
    · subst hc; simp [Escrow.withdraw]; omega
    · simp [Escrow.withdraw, hc]

end Tracks

/-! ### Vaults -/

/-- An escrow with its book and the money it holds; `surplus` came in without a deposit.  Nothing
is held outside the finite set `keys`. -/
structure Vault (ι α : Type*) where
  escrow : Escrow ι α
  book : Book ι α
  out : α → ℕ
  balance : ℕ
  surplus : ℕ
  keys : Finset ι

namespace Vault

variable (v : Vault ι α)

omit [DecidableEq ι] [DecidableEq α] in
def donate (n : ℕ) : Vault ι α := { v with balance := v.balance + n, surplus := v.surplus + n }

def deposit (i : ι) (n : ℕ) : Vault ι α :=
  { v with
    escrow := v.escrow.deposit i n
    book := v.book.post i n
    balance := v.balance + n
    keys := insert i v.keys }

def settle (i : ι) (a : α) : Vault ι α :=
  { v with escrow := v.escrow.settle i a, book := v.book.settle i a }

def withdraw (a : α) : Vault ι α :=
  { v with
    escrow := v.escrow.withdraw a
    out := update v.out a (v.out a + v.escrow.claimable a)
    balance := v.balance - v.escrow.claimable a }

def widen (keys : Finset ι) : Vault ι α := { v with keys := keys }

/-- The vault holds exactly what it owes and the surplus, and its book explains both. -/
structure Sound [Fintype α] : Prop where
  balance : v.balance = v.surplus + v.escrow.total v.keys
  tracks : Tracks v.book v.escrow v.out
  idle : ∀ i, i ∉ v.keys → v.escrow.held i = 0

variable {v} [Fintype α]

theorem Sound.donate (h : v.Sound) (n : ℕ) : (v.donate n).Sound := by
  refine ⟨?_, h.tracks, h.idle⟩
  have hbalance := h.balance
  show v.balance + n = v.surplus + n + v.escrow.total v.keys
  omega

theorem Sound.deposit (h : v.Sound) (i : ι) (n : ℕ) : (v.deposit i n).Sound := by
  refine ⟨?_, h.tracks.deposit i n, fun j hj => ?_⟩
  · have hbalance := h.balance
    have htotal : v.escrow.total (insert i v.keys) = v.escrow.total v.keys := by
      by_cases hi : i ∈ v.keys
      · rw [insert_eq_self.mpr hi]
      · exact v.escrow.total_insert v.keys (h.idle i hi)
    have hdeposit := v.escrow.total_deposit (insert i v.keys) (mem_insert_self i v.keys) n
    show v.balance + n = v.surplus + (v.escrow.deposit i n).total (insert i v.keys)
    omega
  · have hj' := hj
    simp only [Vault.deposit, mem_insert, not_or] at hj'
    show update v.escrow.held i _ j = 0
    rw [update_of_ne hj'.1]
    exact h.idle j hj'.2

theorem Sound.settle (h : v.Sound) (i : ι) (a : α) : (v.settle i a).Sound := by
  refine ⟨?_, h.tracks.settle i a, fun j hj => ?_⟩
  · show v.balance = v.surplus + (v.escrow.settle i a).total v.keys
    by_cases hi : i ∈ v.keys
    · rw [v.escrow.total_settle v.keys hi a]
      exact h.balance
    · have hidle : (v.escrow.settle i a) = v.escrow := by
        simp only [Escrow.settle, h.idle i hi, add_zero, update_eq_self]
        rw [← h.idle i hi, update_eq_self]
      rw [hidle]
      exact h.balance
  · show update v.escrow.held i 0 j = 0
    by_cases hij : j = i
    · rw [hij, update_self]
    · rw [update_of_ne hij]
      exact h.idle j hj

theorem Sound.claimable_le (h : v.Sound) (a : α) : v.escrow.claimable a ≤ v.balance := by
  have hle := v.escrow.claimable_le_total v.keys a
  have hbalance := h.balance
  omega

theorem Sound.withdraw (h : v.Sound) (a : α) : (v.withdraw a).Sound := by
  refine ⟨?_, h.tracks.withdraw a, h.idle⟩
  have hbalance := h.balance
  have htotal := v.escrow.total_withdraw v.keys a
  show v.balance - v.escrow.claimable a = v.surplus + (v.escrow.withdraw a).total v.keys
  omega

theorem Sound.widen (h : v.Sound) {keys : Finset ι} (hkeys : v.keys ⊆ keys) :
    (v.widen keys).Sound := by
  refine ⟨?_, h.tracks, fun i hi => h.idle i (fun hmem => hi (hkeys hmem))⟩
  have hsum : ∑ i ∈ v.keys, v.escrow.held i = ∑ i ∈ keys, v.escrow.held i :=
    sum_subset hkeys (fun i _ hi => h.idle i hi)
  rw [Vault.widen]
  show v.balance = v.surplus + (∑ i ∈ keys, v.escrow.held i + ∑ a, v.escrow.claimable a)
  rw [← hsum]
  exact h.balance

end Vault
end Escrow
