import Mathlib

/-! # Checked arithmetic of unsigned words

The operations of unsigned integers of `bits` bits that are `none` when the result is not one.  A
computation within its bounds is carried out by the `_bind` lemmas, one operation after the other. -/

namespace CheckedWords

variable {α : Type} {bits a b : ℕ}

/-- `a.checked_add(b)` -/
def checkedAdd (bits a b : ℕ) : Option ℕ := if a + b < 2 ^ bits then some (a + b) else none

/-- `a.checked_mul(b)` -/
def checkedMul (bits a b : ℕ) : Option ℕ := if a * b < 2 ^ bits then some (a * b) else none

/-- `a.checked_sub(b)` -/
def checkedSub (a b : ℕ) : Option ℕ := if b ≤ a then some (a - b) else none

theorem checkedAdd_of (h : a + b < 2 ^ bits) : checkedAdd bits a b = some (a + b) := if_pos h

theorem checkedMul_of (h : a * b < 2 ^ bits) : checkedMul bits a b = some (a * b) := if_pos h

theorem checkedSub_of (h : b ≤ a) : checkedSub a b = some (a - b) := if_pos h

theorem checkedAdd_bind {f : ℕ → Option α} (h : a + b < 2 ^ bits) :
    (do f (← checkedAdd bits a b)) = f (a + b) := by
  rw [checkedAdd_of h]
  rfl

theorem checkedMul_bind {f : ℕ → Option α} (h : a * b < 2 ^ bits) :
    (do f (← checkedMul bits a b)) = f (a * b) := by
  rw [checkedMul_of h]
  rfl

theorem checkedSub_bind {f : ℕ → Option α} (h : b ≤ a) :
    (do f (← checkedSub a b)) = f (a - b) := by
  rw [checkedSub_of h]
  rfl

theorem some_bind {β : Type} {a : β} {f : β → Option α} : (do f (← some a)) = f a := rfl

theorem guard_bind {p : Prop} [Decidable p] {f : Unit → Option α} (h : p) :
    (do f (← guard p)) = f () := by
  rw [guard, if_pos h]
  rfl

end CheckedWords
