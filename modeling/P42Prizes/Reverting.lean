import Mathlib

/-! # Computations that revert

Contract code is a sequence of guards and assignments that either completes or reverts
without effect.  It is modelled in `Except ε`: `revertIf p e` is `if (p) revert e`,
`require p e` is `require(p, e)`, and the checked operations are the arithmetic of fixed-width
integers that reverts on overflow.

The `_eq_ok` lemmas turn "this computation completed with result `r`" into the conjunction of
its guards and the equation for `r`; with them a whole function body is inverted by one
`simp`. -/

namespace Reverting

variable {ε α β : Type}

/-- `if (p) revert e` -/
def revertIf (p : Prop) [Decidable p] (e : ε) : Except ε Unit := if p then .error e else .ok ()

/-- `require(p, e)` -/
def require (p : Prop) [Decidable p] (e : ε) : Except ε Unit := if p then .ok () else .error e

/-- Addition of unsigned integers of `bits` bits. -/
def checkedAdd (bits : ℕ) (e : ε) (a b : ℕ) : Except ε ℕ :=
  if a + b < 2 ^ bits then .ok (a + b) else .error e

/-- Multiplication of unsigned integers of `bits` bits. -/
def checkedMul (bits : ℕ) (e : ε) (a b : ℕ) : Except ε ℕ :=
  if a * b < 2 ^ bits then .ok (a * b) else .error e

/-- Subtraction of unsigned integers. -/
def checkedSub (e : ε) (a b : ℕ) : Except ε ℕ := if b ≤ a then .ok (a - b) else .error e

/-- Subtraction of signed integers of `bits + 1` bits. -/
def checkedSubInt (bits : ℕ) (e : ε) (a b : ℤ) : Except ε ℤ :=
  if -2 ^ bits ≤ a - b ∧ a - b < 2 ^ bits then .ok (a - b) else .error e

@[simp] theorem bind_eq_ok {x : Except ε α} {f : α → Except ε β} {r : β} :
    (x >>= f) = .ok r ↔ ∃ a, x = .ok a ∧ f a = .ok r := by
  cases x with
  | error e => simp [bind, Except.bind]
  | ok a => simp [bind, Except.bind]

theorem bind_eq_error {x : Except ε α} {f : α → Except ε β} {e : ε} :
    (x >>= f) = .error e ↔ x = .error e ∨ ∃ a, x = .ok a ∧ f a = .error e := by
  cases x with
  | error e' => simp [bind, Except.bind]
  | ok a => simp [bind, Except.bind]

@[simp] theorem pure_eq_ok {a r : α} : (pure a : Except ε α) = .ok r ↔ a = r := by
  simp [pure, Except.pure]

@[simp] theorem map_eq_ok {x : Except ε α} {f : α → β} {r : β} :
    (f <$> x) = .ok r ↔ ∃ a, x = .ok a ∧ f a = r := by
  cases x with
  | error e => simp [Functor.map, Except.map]
  | ok a => simp [Functor.map, Except.map]

@[simp] theorem revertIf_eq_ok {p : Prop} [Decidable p] {e : ε} {u : Unit} :
    revertIf p e = .ok u ↔ ¬ p := by
  by_cases hp : p <;> simp [revertIf, hp]

theorem revertIf_eq_error {p : Prop} [Decidable p] {e e' : ε} : revertIf p e = .error e' ↔ p ∧ e = e' := by
  by_cases hp : p <;> simp [revertIf, hp]

@[simp] theorem require_eq_ok {p : Prop} [Decidable p] {e : ε} {u : Unit} :
    require p e = .ok u ↔ p := by
  by_cases hp : p <;> simp [require, hp]

@[simp] theorem checkedAdd_eq_ok {bits a b r : ℕ} {e : ε} :
    checkedAdd bits e a b = .ok r ↔ a + b < 2 ^ bits ∧ a + b = r := by
  by_cases h : a + b < 2 ^ bits <;> simp [checkedAdd, h]

@[simp] theorem checkedMul_eq_ok {bits a b r : ℕ} {e : ε} :
    checkedMul bits e a b = .ok r ↔ a * b < 2 ^ bits ∧ a * b = r := by
  by_cases h : a * b < 2 ^ bits <;> simp [checkedMul, h]

@[simp] theorem checkedSub_eq_ok {a b r : ℕ} {e : ε} :
    checkedSub e a b = .ok r ↔ b ≤ a ∧ a - b = r := by
  by_cases h : b ≤ a <;> simp [checkedSub, h]

@[simp] theorem checkedSubInt_eq_ok {bits : ℕ} {a b r : ℤ} {e : ε} :
    checkedSubInt bits e a b = .ok r ↔ (-2 ^ bits ≤ a - b ∧ a - b < 2 ^ bits) ∧ a - b = r := by
  unfold checkedSubInt
  split <;> rename_i h
  · simp only [Except.ok.injEq, h, and_self, true_and]
  · simp only [reduceCtorEq, h, false_and]

theorem toOption_eq_some {x : Except ε α} {r : α} : x.toOption = some r ↔ x = .ok r := by
  cases x <;> simp [Except.toOption]

end Reverting
