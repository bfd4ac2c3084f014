import P42Prizes.Escrow

/-! # Pro-rata shares

A `Pot` is shared in proportion to the weights of its accounts: the share of an account is its
part of the whole, rounded down.  An account is paid nothing or its share (`Sound`).  The shares
together never exceed the whole (`sum_share_le`), so there is room for the share of any account
that is not paid yet (`Sound.room`), in whatever order the others were paid.  They miss it by less
than one unit an account (`lt_sum_share`), a share grows with its weight, and the shares of a weight
that is split are together at most the share of the weight (`sum_share_le_share`).

`afterFee` is a payment less a fee that is rounded down; rounding the fee of many small payments costs
at most one unit a payment (`sum_afterFee_le`). -/

open Finset Function

structure Pot (α : Type*) where
  whole : ℕ
  weight : α → ℕ
  paid : α → ℕ

namespace Pot

variable {α : Type*} [Fintype α] (p : Pot α)

def total : ℕ := ∑ a, p.weight a

/-- The share of an account, rounded down. -/
def share (a : α) : ℕ := p.whole * p.weight a / p.total

/-- Every account is paid nothing or its share. -/
def Sound : Prop := ∀ a, p.paid a = 0 ∨ p.paid a = p.share a

theorem weight_le_total (a : α) : p.weight a ≤ p.total :=
  single_le_sum (f := p.weight) (fun _ _ => Nat.zero_le _) (mem_univ a)

theorem share_le (a : α) : p.share a ≤ p.whole := by
  unfold share
  by_cases h : p.total = 0
  · rw [h, Nat.div_zero]
    exact Nat.zero_le _
  · calc p.whole * p.weight a / p.total ≤ p.whole * p.total / p.total :=
          Nat.div_le_div_right (Nat.mul_le_mul_left _ (p.weight_le_total a))
      _ = p.whole := Nat.mul_div_cancel _ (Nat.pos_of_ne_zero h)

theorem sum_share_le : ∑ a, p.share a ≤ p.whole := by
  by_cases h : p.total = 0
  · have hzero : ∀ a, p.share a = 0 := fun a => by rw [share, h, Nat.div_zero]
    rw [sum_congr rfl (fun a _ => hzero a), sum_const_zero]
    exact Nat.zero_le _
  · refine Nat.le_of_mul_le_mul_right ?_ (Nat.pos_of_ne_zero h)
    calc (∑ a, p.share a) * p.total = ∑ a, p.share a * p.total := sum_mul ..
      _ ≤ ∑ a, p.whole * p.weight a := sum_le_sum (fun a _ => Nat.div_mul_le_self _ _)
      _ = p.whole * p.total := (mul_sum ..).symm

variable {p}

/-- Every share misses its exact part by less than one unit, and a weight of zero by nothing. -/
theorem lt_sum_share (h : p.total ≠ 0) :
    p.whole < ∑ a with p.weight a ≠ 0, p.share a + #{a | p.weight a ≠ 0} := by
  have hpos := Nat.pos_of_ne_zero h
  have hlt : ∀ a ∈ ({a | p.weight a ≠ 0} : Finset α),
      p.whole * p.weight a < (p.share a + 1) * p.total := by
    intro a _
    rw [mul_comm (p.share a + 1)]
    exact Nat.lt_mul_div_succ _ hpos
  have hweights : ∑ a with p.weight a ≠ 0, p.weight a = p.total := sum_filter_ne_zero univ
  have hne : ({a | p.weight a ≠ 0} : Finset α).Nonempty := by
    by_contra hempty
    rw [not_nonempty_iff_eq_empty] at hempty
    rw [hempty, sum_empty] at hweights
    exact h hweights.symm
  refine Nat.lt_of_mul_lt_mul_right (a := p.total) ?_
  calc p.whole * p.total = ∑ a with p.weight a ≠ 0, p.whole * p.weight a := by
        rw [← mul_sum, hweights]
    _ < ∑ a with p.weight a ≠ 0, (p.share a + 1) * p.total := sum_lt_sum_of_nonempty hne hlt
    _ = (∑ a with p.weight a ≠ 0, p.share a + #{a | p.weight a ≠ 0}) * p.total := by
        rw [← sum_mul, sum_add_distrib, card_eq_sum_ones]

theorem share_mono {a b : α} (h : p.weight a ≤ p.weight b) : p.share a ≤ p.share b :=
  Nat.div_le_div_right (Nat.mul_le_mul_left _ h)

/-- A share also grows when the total grows with the weight. -/
theorem share_le_share {q : Pot α} {a : α} (hwhole : q.whole = p.whole) (htotal : p.total ≠ 0)
    (hrest : ∀ b, b ≠ a → q.weight b = p.weight b) (hmore : p.weight a ≤ q.weight a) :
    p.share a ≤ q.share a := by
  classical
  obtain ⟨more, hmore⟩ := Nat.exists_eq_add_of_le hmore
  have hq : q.total = p.total + more := by
    have hsum : ∑ b ∈ univ.erase a, q.weight b = ∑ b ∈ univ.erase a, p.weight b :=
      sum_congr rfl (fun b hb => hrest b (ne_of_mem_erase hb))
    rw [total, total, ← add_sum_erase univ q.weight (mem_univ a),
      ← add_sum_erase univ p.weight (mem_univ a), hsum, hmore]
    omega
  rw [share, share, hwhole, hq, hmore, Nat.le_div_iff_mul_le (by omega)]
  calc p.whole * p.weight a / p.total * (p.total + more)
      = p.whole * p.weight a / p.total * p.total + p.share a * more := mul_add ..
    _ ≤ p.whole * p.weight a + p.whole * more :=
        Nat.add_le_add (Nat.div_mul_le_self _ _) (Nat.mul_le_mul_right _ (p.share_le a))
    _ = p.whole * (p.weight a + more) := (mul_add ..).symm

/-- A weight that is split is paid no more than it was. -/
theorem sum_share_le_share {q : Pot α} {a : α} {T : Finset α} (hwhole : q.whole = p.whole)
    (htotal : q.total = p.total) (hsplit : ∑ t ∈ T, q.weight t ≤ p.weight a) :
    ∑ t ∈ T, q.share t ≤ p.share a := by
  by_cases hzero : p.total = 0
  · have hnone : ∀ t ∈ T, q.share t = 0 := fun t _ => by rw [share, htotal, hzero, Nat.div_zero]
    rw [sum_congr rfl hnone, sum_const_zero]
    exact Nat.zero_le _
  · rw [share, Nat.le_div_iff_mul_le (Nat.pos_of_ne_zero hzero)]
    calc (∑ t ∈ T, q.share t) * p.total = ∑ t ∈ T, q.share t * p.total := sum_mul ..
      _ ≤ ∑ t ∈ T, p.whole * q.weight t := by
          refine sum_le_sum (fun t _ => ?_)
          rw [share, hwhole, htotal]
          exact Nat.div_mul_le_self _ _
      _ = p.whole * ∑ t ∈ T, q.weight t := (mul_sum ..).symm
      _ ≤ p.whole * p.weight a := Nat.mul_le_mul_left _ hsplit

theorem Sound.paid_le (h : p.Sound) (a : α) : p.paid a ≤ p.share a := by
  obtain h | h := h a <;> omega

theorem Sound.sum_paid_le (h : p.Sound) : ∑ a, p.paid a ≤ p.whole :=
  le_trans (sum_le_sum (fun a _ => h.paid_le a)) p.sum_share_le

variable [DecidableEq α]

def pay (a : α) (p : Pot α) : Pot α := { p with paid := update p.paid a (p.share a) }

theorem Sound.pay (h : p.Sound) (a : α) : (p.pay a).Sound := by
  intro b
  show update p.paid a (p.share a) b = 0 ∨ update p.paid a (p.share a) b = p.share b
  by_cases hb : b = a
  · subst hb
    rw [update_self]
    exact Or.inr rfl
  · rw [update_of_ne hb]
    exact h b

theorem sum_pay (a : α) (ha : p.paid a = 0) :
    ∑ b, (p.pay a).paid b = ∑ b, p.paid b + p.share a := by
  have hsum := sum_comp_update univ id p.paid (mem_univ a) (p.share a)
  simp only [id, ha, add_zero] at hsum
  exact hsum

/-- There is room for the share of an account that is not paid yet. -/
theorem Sound.room (h : p.Sound) {a : α} (ha : p.paid a = 0) :
    ∑ b, p.paid b + p.share a ≤ p.whole := by
  rw [← sum_pay a ha]
  exact (h.pay a).sum_paid_le

/-! ### Fees -/

/-- `x` less a fee of `rate` in `base` parts, rounded down. -/
def afterFee (rate base x : ℕ) : ℕ := x - x * rate / base

/-- Payments that add up to at most `x` leave at most what `x` leaves, and one unit a payment. -/
theorem sum_afterFee_le {ι : Type*} {T : Finset ι} {g : ι → ℕ} {rate base x : ℕ} (hbase : 0 < base)
    (hrate : rate ≤ base) (h : ∑ t ∈ T, g t ≤ x) :
    ∑ t ∈ T, afterFee rate base (g t) ≤ afterFee rate base x + #T := by
  have hone : ∀ y, base * afterFee rate base y ≤ y * (base - rate) + base := by
    intro y
    have hlt := Nat.lt_mul_div_succ (y * rate) hbase
    have hle : y * rate ≤ y * base := Nat.mul_le_mul_left y hrate
    rw [afterFee, Nat.mul_sub, Nat.mul_sub, mul_comm base y]
    rw [Nat.mul_succ] at hlt
    omega
  have hall : x * (base - rate) ≤ base * afterFee rate base x := by
    have hle := Nat.mul_div_le (x * rate) base
    rw [afterFee, Nat.mul_sub, Nat.mul_sub, mul_comm base x]
    omega
  refine Nat.le_of_mul_le_mul_left (c := base) ?_ hbase
  calc base * ∑ t ∈ T, afterFee rate base (g t)
      = ∑ t ∈ T, base * afterFee rate base (g t) := mul_sum ..
    _ ≤ ∑ t ∈ T, (g t * (base - rate) + base) := sum_le_sum (fun t _ => hone (g t))
    _ = (∑ t ∈ T, g t) * (base - rate) + base * #T := by
        rw [sum_add_distrib, ← sum_mul, sum_const, smul_eq_mul, mul_comm #T]
    _ ≤ x * (base - rate) + base * #T := Nat.add_le_add_right (Nat.mul_le_mul_right _ h) _
    _ ≤ base * afterFee rate base x + base * #T := Nat.add_le_add_right hall _
    _ = base * (afterFee rate base x + #T) := (mul_add ..).symm

end Pot
