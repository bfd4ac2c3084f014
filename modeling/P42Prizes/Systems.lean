import Mathlib

/-! # Partial deterministic transition systems

A `System` has initial states and a partial step: `step s a` is `none` when the action `a`
is refused in `s`.  `Run C s as s'` says that the actions `as` lead from `s` to `s'` and that
the side condition `C` holds at every step taken; `Reachable C s` says that such a run starts
in an initial state.  With `C := Free` there is no side condition.

* `Run.invariant`, `Reachable.invariant`: what every step preserves, every run preserves.
* `run_iff_always`: a condition on the steps that is exactly what a property needs.
* `exec`: the run of a list of actions as a function, so that runs can be evaluated
  (`run_of_exec`).
* `withHistory`: a history variable computed along the run from what each step did.  It
  observes the system and never restricts it (`Run.history_fst`, `Run.history_exists`). -/

namespace Transition

/-- A partial deterministic transition system. -/
structure System (σ α : Type*) where
  init : σ → Prop
  step : σ → α → Option σ

/-- The empty side condition. -/
def Free {σ α : Type*} : σ → α → Prop := fun _ _ => True

namespace System

variable {σ α : Type*} (S : System σ α)

/-- `Run C s as s'`: the actions `as` lead from `s` to `s'`, each taken under `C`. -/
inductive Run (C : σ → α → Prop) : σ → List α → σ → Prop
  | refl (s : σ) : Run C s [] s
  | step {s s₁ s₂ : σ} {a : α} {as : List α} :
      C s a → S.step s a = some s₁ → Run C s₁ as s₂ → Run C s (a :: as) s₂

/-- `s` is reached from an initial state by a run under `C`. -/
def Reachable (C : σ → α → Prop) (s : σ) : Prop := ∃ s₀ as, S.init s₀ ∧ S.Run C s₀ as s

/-- The run of a list of actions as a function. -/
def exec (s : σ) : List α → Option σ
  | [] => some s
  | a :: as => (S.step s a).bind (fun s' => exec s' as)

variable {S} {C C' : σ → α → Prop}

theorem Run.single {s s' : σ} {a : α} (hc : C s a) (h : S.step s a = some s') :
    S.Run C s [a] s' := Run.step hc h (Run.refl _)

theorem Run.append {s s₁ s₂ : σ} {as bs : List α} (h₁ : S.Run C s as s₁)
    (h₂ : S.Run C s₁ bs s₂) : S.Run C s (as ++ bs) s₂ := by
  induction h₁ with
  | refl s => exact h₂
  | step hc hs _ ih => exact Run.step hc hs (ih h₂)

theorem Run.mono (hC : ∀ s a, C s a → C' s a) {s s' : σ} {as : List α} (h : S.Run C s as s') :
    S.Run C' s as s' := by
  induction h with
  | refl s => exact Run.refl s
  | step hc hs _ ih => exact Run.step (hC _ _ hc) hs ih

theorem Run.free {s s' : σ} {as : List α} (h : S.Run C s as s') : S.Run Free s as s' :=
  h.mono (fun _ _ _ => trivial)

/-- A step may use a fact `J` about the states of the run besides the invariant itself. -/
theorem Run.invariant_of {P J : σ → Prop} {s s' : σ} {as : List α} (h : S.Run C s as s')
    (hJ : ∀ s a s', J s → C s a → S.step s a = some s' → J s')
    (hstep : ∀ s a s', J s → P s → C s a → S.step s a = some s' → P s')
    (hj : J s) (hp : P s) : P s' := by
  induction h with
  | refl s => exact hp
  | step hc hs _ ih => exact ih (hJ _ _ _ hj hc hs) (hstep _ _ _ hj hp hc hs)

/-- What every step preserves, every run preserves. -/
theorem Run.invariant {P : σ → Prop} {s s' : σ} {as : List α} (h : S.Run C s as s')
    (hstep : ∀ s a s', P s → C s a → S.step s a = some s' → P s') (hp : P s) : P s' :=
  h.invariant_of (J := fun _ => True) (fun _ _ _ _ _ _ => trivial)
    (fun s a s' _ => hstep s a s') trivial hp

theorem Reachable.of_init {s : σ} (h : S.init s) : S.Reachable C s := ⟨s, [], h, Run.refl s⟩

theorem Reachable.run {s s' : σ} {as : List α} (h : S.Reachable C s) (hr : S.Run C s as s') :
    S.Reachable C s' := by
  obtain ⟨s₀, bs, h₀, hb⟩ := h
  exact ⟨s₀, bs ++ as, h₀, hb.append hr⟩

theorem Reachable.step {s s' : σ} {a : α} (h : S.Reachable C s) (hc : C s a)
    (hs : S.step s a = some s') : S.Reachable C s' := h.run (Run.single hc hs)

theorem Reachable.mono (hC : ∀ s a, C s a → C' s a) {s : σ} (h : S.Reachable C s) :
    S.Reachable C' s := by
  obtain ⟨s₀, as, h₀, hr⟩ := h
  exact ⟨s₀, as, h₀, hr.mono hC⟩

theorem Reachable.free {s : σ} (h : S.Reachable C s) : S.Reachable Free s :=
  h.mono (fun _ _ _ => trivial)

/-- **Invariant rule.**  A property of the initial states that every step from a reachable
state preserves holds in every reachable state. -/
theorem Reachable.invariant {P : σ → Prop} {s : σ} (h : S.Reachable C s)
    (hinit : ∀ s, S.init s → P s)
    (hstep : ∀ s a s', S.Reachable C s → P s → C s a → S.step s a = some s' → P s') : P s := by
  obtain ⟨s₀, as, h₀, hr⟩ := h
  exact hr.invariant_of (J := fun s => S.Reachable C s)
    (fun _ _ _ hj hc hs => hj.step hc hs) hstep (Reachable.of_init h₀) (hinit s₀ h₀)

/-- If, as long as `P` holds, the condition `C` holds of a step exactly when `P` holds after it,
then the runs under `C` are the runs through states where `P` holds. -/
theorem run_iff_always {P J : σ → Prop} (hJ : ∀ s a s', J s → S.step s a = some s' → J s')
    (hstep : ∀ s a s', J s → P s → S.step s a = some s' → (C s a ↔ P s')) {s s' : σ} {as : List α}
    (hj : J s) (hp : P s) : S.Run C s as s' ↔ S.Run (fun s _ => P s) s as s' ∧ P s' := by
  induction as generalizing s with
  | nil =>
      constructor
      · intro h
        cases h
        exact ⟨Run.refl _, hp⟩
      · rintro ⟨h, -⟩
        cases h
        exact Run.refl _
  | cons a as ih =>
      constructor
      · intro h
        cases h with
        | step hc hs hr =>
            have hp' := (hstep _ _ _ hj hp hs).mp hc
            obtain ⟨hrun, hlast⟩ := (ih (hJ _ _ _ hj hs) hp').mp hr
            exact ⟨Run.step hp hs hrun, hlast⟩
      · rintro ⟨h, hlast⟩
        cases h with
        | @step _ s₁ _ _ _ _ hs hr =>
            have hp' : P s₁ := by
              cases hr with
              | refl => exact hlast
              | step hp' _ _ => exact hp'
            exact Run.step ((hstep _ _ _ hj hp hs).mpr hp') hs
              ((ih (hJ _ _ _ hj hs) hp').mpr ⟨hr, hlast⟩)

theorem run_of_exec_of {s s' : σ} {as : List α} (h : S.exec s as = some s')
    (hC : ∀ s, ∀ a ∈ as, C s a) : S.Run C s as s' := by
  induction as generalizing s with
  | nil =>
      obtain rfl : s = s' := by simpa [exec] using h
      exact Run.refl s
  | cons a as ih =>
      simp only [exec, Option.bind_eq_some_iff] at h
      obtain ⟨s₁, hs, hr⟩ := h
      exact Run.step (hC s a (List.mem_cons_self ..)) hs
        (ih hr (fun s b hb => hC s b (List.mem_cons_of_mem _ hb)))

theorem run_of_exec {s s' : σ} {as : List α} (h : S.exec s as = some s') :
    S.Run Free s as s' := run_of_exec_of h (fun _ _ _ => trivial)

theorem Reachable.of_exec {s₀ s : σ} {as : List α} (h₀ : S.init s₀) (h : S.exec s₀ as = some s) :
    S.Reachable Free s := ⟨s₀, as, h₀, run_of_exec h⟩

/-- The run of a list of actions that all meet the side condition. -/
def execIf (S : System σ α) (C : σ → α → Prop) [∀ s a, Decidable (C s a)] (s : σ) :
    List α → Option σ
  | [] => some s
  | a :: as => if C s a then (S.step s a).bind (fun s' => execIf S C s' as) else none

theorem run_of_execIf [∀ s a, Decidable (C s a)] {s s' : σ} {as : List α}
    (h : S.execIf C s as = some s') : S.Run C s as s' := by
  induction as generalizing s with
  | nil =>
      obtain rfl : s = s' := by simpa [execIf] using h
      exact Run.refl s
  | cons a as ih =>
      simp only [execIf] at h
      split at h
      · rename_i hc
        obtain ⟨s₁, hs, hr⟩ := Option.bind_eq_some_iff.mp h
        exact Run.step hc hs (ih hr)
      · cases h

theorem Reachable.of_execIf [∀ s a, Decidable (C s a)] {s₀ s : σ} {as : List α} (h₀ : S.init s₀)
    (h : S.execIf C s₀ as = some s) : S.Reachable C s := ⟨s₀, as, h₀, run_of_execIf h⟩

/-! ### History variables -/

variable {η : Type*} (S)

/-- The system together with a history variable: `record s a s' h` is the history after the
step `a` from `s` to `s'`. -/
def withHistory (start : η) (record : σ → α → σ → η → η) : System (σ × η) α where
  init p := S.init p.1 ∧ p.2 = start
  step p a := (S.step p.1 a).map (fun s' => (s', record p.1 a s' p.2))

variable {S} {start : η} {record : σ → α → σ → η → η}

theorem withHistory_step {p q : σ × η} {a : α} :
    (S.withHistory start record).step p a = some q ↔
      S.step p.1 a = some q.1 ∧ q.2 = record p.1 a q.1 p.2 := by
  simp only [withHistory, Option.map_eq_some_iff]
  constructor
  · rintro ⟨s', h, rfl⟩
    exact ⟨h, rfl⟩
  · rintro ⟨h, hq⟩
    exact ⟨q.1, h, by rw [← hq]⟩

/-- Forgetting the history of a run leaves a run. -/
theorem Run.history_fst {p q : σ × η} {as : List α}
    (h : (S.withHistory start record).Run (fun p => C p.1) p as q) : S.Run C p.1 as q.1 := by
  induction h with
  | refl p => exact Run.refl p.1
  | step hc hs _ ih => exact Run.step hc (withHistory_step.mp hs).1 ih

/-- Every run carries a history. -/
theorem Run.history_exists {s s' : σ} {as : List α} (h : S.Run C s as s') (k : η) :
    ∃ k', (S.withHistory start record).Run (fun p => C p.1) (s, k) as (s', k') := by
  induction h generalizing k with
  | refl s => exact ⟨k, Run.refl _⟩
  | @step s s₁ s₂ a as hc hs _ ih =>
      obtain ⟨k', hk⟩ := ih (record s a s₁ k)
      have hstep : (S.withHistory start record).step (s, k) a = some (s₁, record s a s₁ k) :=
        withHistory_step.mpr ⟨hs, rfl⟩
      exact ⟨k', Run.step hc hstep hk⟩

theorem Reachable.history_fst {p : σ × η}
    (h : (S.withHistory start record).Reachable (fun p => C p.1) p) : S.Reachable C p.1 := by
  obtain ⟨p₀, as, h₀, hr⟩ := h
  exact ⟨p₀.1, as, h₀.1, hr.history_fst⟩

end System
end Transition
