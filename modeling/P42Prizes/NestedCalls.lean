import Mathlib

/-! # Calls within calls

A contract that calls another account may be called again before that call returns, and a call that fails
undoes everything that happened since it began.  `Nested σ φ` is a state with the calls it is in the middle
of, innermost first; each keeps the state to go back to.

* `Within`, `Throughout`: a property of the state and of every state that a failure would bring back.
* `undo_of_frames`: whatever happened inside a call, its failure gives the state of before the call. -/

namespace Transition

structure Nested (σ φ : Type*) where
  now : σ
  frames : List (φ × σ)

namespace Nested

variable {σ φ : Type*} {n n' : Nested σ φ} {s : σ} {frame : φ} {P : σ → Prop} {base : List (φ × σ)}

def set (s : σ) (n : Nested σ φ) : Nested σ φ := { n with now := s }

/-- A call begins; the state is `s` when the callee starts to run. -/
def enter (frame : φ) (s : σ) (n : Nested σ φ) : Nested σ φ := ⟨s, (frame, n.now) :: n.frames⟩

/-- The innermost call returns, and the caller goes on. -/
def leave (f : φ → σ → σ) (n : Nested σ φ) : Option (Nested σ φ) :=
  match n.frames with
  | (frame, _) :: frames => some ⟨f frame n.now, frames⟩
  | [] => none

/-- The innermost call fails. -/
def undo (n : Nested σ φ) : Option (Nested σ φ) :=
  match n.frames with
  | (_, saved) :: frames => some ⟨saved, frames⟩
  | [] => none

/-- All calls of `base` are still open, the property holds now, and it held when each of the other open calls
began. -/
def Within (base : List (φ × σ)) (P : σ → Prop) (n : Nested σ φ) : Prop :=
  P n.now ∧ ∃ inner, n.frames = inner ++ base ∧ ∀ f ∈ inner, P f.2

/-- The property holds now, and held when each of the open calls began. -/
abbrev Throughout (P : σ → Prop) (n : Nested σ φ) : Prop := n.Within [] P

@[simp] theorem set_now : (n.set s).now = s := rfl

@[simp] theorem set_frames : (n.set s).frames = n.frames := rfl

@[simp] theorem enter_now : (n.enter frame s).now = s := rfl

@[simp] theorem enter_frames : (n.enter frame s).frames = (frame, n.now) :: n.frames := rfl

theorem throughout_of_frames (h : n.frames = []) (hs : P n.now) : n.Throughout P :=
  ⟨hs, [], h, fun _ hmem => by cases hmem⟩

theorem Within.start (h : P n.now) : n.Within n.frames P := ⟨h, [], rfl, fun _ hmem => by cases hmem⟩

theorem Within.set (h : n.Within base P) (hs : P s) : (n.set s).Within base P := ⟨hs, h.2⟩

theorem Within.enter (h : n.Within base P) (hs : P s) : (n.enter frame s).Within base P := by
  obtain ⟨hnow, inner, hframes, hinner⟩ := h
  exact ⟨hs, (frame, n.now) :: inner, congrArg _ hframes, List.forall_mem_cons.mpr ⟨hnow, hinner⟩⟩

/-- The calls that are open when the innermost one, not of `base`, is over. -/
theorem Within.tail {saved : σ} {frames : List (φ × σ)} (h : n.Within base P)
    (hframes : n.frames = (frame, saved) :: frames) (hopen : base.length ≤ frames.length) :
    P saved ∧ ∃ inner, frames = inner ++ base ∧ ∀ f ∈ inner, P f.2 := by
  obtain ⟨-, inner, hinner, hP⟩ := h
  cases inner with
  | nil =>
      have hlength := congrArg List.length (hframes.symm.trans hinner)
      rw [List.length_cons, List.nil_append] at hlength
      omega
  | cons f inner =>
      obtain ⟨rfl, rfl⟩ := List.cons.inj (hframes.symm.trans hinner)
      exact ⟨hP _ List.mem_cons_self, inner, rfl, fun g hg => hP g (List.mem_cons_of_mem _ hg)⟩

theorem Within.leave {f : φ → σ → σ} (h : n.Within base P) (hf : ∀ frame s, P s → P (f frame s))
    (hleave : n.leave f = some n') (hopen : base.length ≤ n'.frames.length) : n'.Within base P := by
  unfold Nested.leave at hleave
  split at hleave
  · next frame saved frames hframes =>
      cases hleave
      exact ⟨hf _ _ h.1, (h.tail hframes hopen).2⟩
  · cases hleave

theorem Within.undo (h : n.Within base P) (hundo : n.undo = some n') (hopen : base.length ≤ n'.frames.length) :
    n'.Within base P := by
  unfold Nested.undo at hundo
  split at hundo
  · next frame saved frames hframes =>
      cases hundo
      exact h.tail hframes hopen
  · cases hundo

/-- Whatever happens inside a call, its failure gives the state of before the call. -/
theorem undo_of_frames (h : n'.frames = (n.enter frame s).frames) : n'.undo = some n := by
  unfold undo
  rw [h]
  rfl

end Nested

end Transition
