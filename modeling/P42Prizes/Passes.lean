import Mathlib

/-! # Programs that may be cut off

A `Pass` observes the outside, reads and writes a state, and may throw.  It may also be cut off before
any of its writes: it is granted a number of writes, and ends at the first one beyond them.  A
`Triple I P m Q` says what a pass that starts in `P` ends in, granted any number of writes: in `Q` of
its result, or, thrown out of or cut off, in `I`.  So `I` holds between any two of its writes. -/

namespace Passes

/-- How a pass ends early. -/
inductive Stop (ε : Type) where
  | thrown (error : ε)
  | cut
deriving DecidableEq

/-- From a state and the writes that are granted to a result, a state and the writes that are left. -/
def Pass (σ ε α : Type) : Type := σ × ℕ → Except (Stop ε) α × σ × ℕ

namespace Pass

variable {σ ε α β : Type}

instance : Monad (Pass σ ε) where
  pure a := fun w => (.ok a, w)
  bind m f := fun w =>
    match m w with
    | (.ok a, w') => f a w'
    | (.error e, w') => (.error e, w')

def throw (e : ε) : Pass σ ε α := fun w => (.error (.thrown e), w)

def get : Pass σ ε σ := fun w => (.ok w.1, w)

/-- What is read outside of the state; a read that fails throws. -/
def observe (e : ε) : Option α → Pass σ ε α
  | some a => pure a
  | none => throw e

def ofExcept (x : Except ε α) : Pass σ ε α := fun w => (x.mapError .thrown, w)

/-- A write, which may throw after it has changed the state. -/
def write (f : σ → Except ε α × σ) : Pass σ ε α := fun (s, n) =>
  match n with
  | 0 => (.error .cut, s, 0)
  | n + 1 =>
      match f s with
      | (.ok a, s') => (.ok a, s', n)
      | (.error e, s') => (.error (.thrown e), s', n)

/-- What a pass throws is thrown again behind `undo`, or what `undo` throws. -/
def onThrow (m : Pass σ ε α) (undo : Pass σ ε Unit) : Pass σ ε α := fun w =>
  match m w with
  | (.error (.thrown e), w') =>
      match undo w' with
      | (.ok _, w'') => (.error (.thrown e), w'')
      | (.error e', w'') => (.error e', w'')
  | r => r

/-- The state that a pass leaves behind when it is granted `n` writes. -/
def after (m : Pass σ ε α) (s : σ) (n : ℕ) : σ := (m (s, n)).2.1

end Pass

/-- From `P` a pass ends in `Q`, or early in `I`. -/
def Triple {σ ε α : Type} (I P : σ → Prop) (m : Pass σ ε α) (Q : α → σ → Prop) : Prop :=
  ∀ s n, P s → match m (s, n) with
    | (.ok a, s', _) => Q a s'
    | (.error _, s', _) => I s'

namespace Triple

variable {σ ε α β : Type} {I P P' : σ → Prop} {Q Q' : α → σ → Prop}

theorem pure {a : α} (h : ∀ s, P s → Q a s) : Triple I P (pure a : Pass σ ε α) Q :=
  fun s _ hs => h s hs

theorem bind {m : Pass σ ε α} {f : α → Pass σ ε β} {R : β → σ → Prop} (hm : Triple I P m Q)
    (hf : ∀ a, Triple I (Q a) (f a) R) : Triple I P (m >>= f) R := by
  intro s n hs
  have hfirst := hm s n hs
  change match (match m (s, n) with | (.ok a, w') => f a w' | (.error e, w') => (.error e, w')) with
    | (.ok b, s', _) => R b s'
    | (.error _, s', _) => I s'
  rcases hrun : m (s, n) with ⟨a | a, s', n'⟩
  · rw [hrun] at hfirst
    exact hfirst
  · rw [hrun] at hfirst
    exact hf a s' n' hfirst

theorem weaken {m : Pass σ ε α} (hm : Triple I P m Q) (hP : ∀ s, P' s → P s)
    (hQ : ∀ a s, Q a s → Q' a s) : Triple I P' m Q' := by
  intro s n hs
  have h := hm s n (hP s hs)
  rcases hrun : m (s, n) with ⟨a | a, s', n'⟩
  · rw [hrun] at h
    exact h
  · rw [hrun] at h
    exact hQ a s' h

/-- What holds where a pass ends early may be weakened as well. -/
theorem mono {J : σ → Prop} {m : Pass σ ε α} (hm : Triple J P m Q) (hJ : ∀ s, J s → I s) :
    Triple I P m Q := by
  intro s n hs
  have h := hm s n hs
  rcases hrun : m (s, n) with ⟨a | a, s', n'⟩ <;> rw [hrun] at h
  · exact hJ s' h
  · exact h

theorem throw {e : ε} (h : ∀ s, P s → I s) : Triple I P (Pass.throw e : Pass σ ε α) Q :=
  fun s _ hs => h s hs

theorem get {Q : σ → σ → Prop} (h : ∀ s, P s → Q s s) : Triple I P (Pass.get : Pass σ ε σ) Q :=
  fun s _ hs => h s hs

/-- A read throws, or the pass goes on with what is there. -/
theorem observe_bind {e : ε} {o : Option β} {f : β → Pass σ ε α} (hI : ∀ s, P s → I s)
    (h : ∀ b, o = some b → Triple I P (f b) Q) : Triple I P (Pass.observe e o >>= f) Q := by
  cases o with
  | none => exact fun s _ hs => hI s hs
  | some b => exact h b rfl

/-- A function throws, or the pass goes on with what it returns. -/
theorem ofExcept_bind {x : Except ε β} {f : β → Pass σ ε α} (hI : ∀ s, P s → I s)
    (h : ∀ b, x = .ok b → Triple I P (f b) Q) : Triple I P (Pass.ofExcept x >>= f) Q := by
  cases x with
  | error e => exact fun s _ hs => hI s hs
  | ok b => exact h b rfl

/-- A write is cut off, throws or returns. -/
theorem write {f : σ → Except ε α × σ} (hcut : ∀ s, P s → I s)
    (h : ∀ s, P s → match f s with
      | (.ok a, s') => Q a s'
      | (.error _, s') => I s') : Triple I P (Pass.write f) Q := by
  intro s n hs
  cases n with
  | zero => exact hcut s hs
  | succ n =>
      have hstep := h s hs
      rcases hf : f s with ⟨a | a, s'⟩ <;> rw [hf] at hstep <;> simp only [Pass.write, hf] <;>
        exact hstep

/-- What holds wherever a pass may end early is what `undo` starts from. -/
theorem onThrow {m : Pass σ ε α} {undo : Pass σ ε Unit} {J : σ → Prop} (hm : Triple J P m Q)
    (hJ : ∀ s, J s → I s) (hundo : Triple I J undo (fun _ => I)) : Triple I P (m.onThrow undo) Q := by
  intro s n hs
  have hfirst := hm s n hs
  unfold Pass.onThrow
  rcases hrun : m (s, n) with ⟨(e | -) | a, s', n'⟩ <;> rw [hrun] at hfirst
  · have hthen := hundo s' n' hfirst
    rcases hback : undo (s', n') with ⟨e' | a, s'', n''⟩ <;> rw [hback] at hthen <;>
      simp only [hback] <;> exact hthen
  · exact hJ s' hfirst
  · exact hfirst

/-- What a triple says of the state that is left behind. -/
theorem after {m : Pass σ ε α} {s : σ} (hm : Triple I P m (fun _ => I)) (hs : P s) (n : ℕ) :
    I (m.after s n) := by
  have h := hm s n hs
  unfold Pass.after
  rcases hrun : m (s, n) with ⟨a | a, s', n'⟩ <;> rw [hrun] at h <;> exact h

end Triple

/-- From `s` a pass stands in `states` before each of its writes, and ends in `out` and `t`. -/
structure Traces {σ ε α : Type} (m : Pass σ ε α) (s : σ) (states : List σ) (out : Except ε α) (t : σ) :
    Prop where
  cut : ∀ n (h : n < states.length), m (s, n) = (.error .cut, states[n], 0)
  ends : ∀ n, m (s, states.length + n) = (out.mapError .thrown, t, n)

namespace Traces

variable {σ ε α β : Type} {m : Pass σ ε α} {f : α → Pass σ ε β} {s t u : σ} {xs ys : List σ} {a : α}
  {e : ε} {out : Except ε β}

theorem pure : Traces (pure a : Pass σ ε α) s [] (.ok a) s where
  cut _ h := absurd h (Nat.not_lt_zero _)
  ends n := by rw [List.length_nil, Nat.zero_add]; rfl

theorem throw : Traces (Pass.throw e : Pass σ ε α) s [] (.error e) s where
  cut _ h := absurd h (Nat.not_lt_zero _)
  ends n := by rw [List.length_nil, Nat.zero_add]; rfl

theorem ofExcept {x : Except ε α} : Traces (Pass.ofExcept x : Pass σ ε α) s [] x s where
  cut _ h := absurd h (Nat.not_lt_zero _)
  ends n := by rw [List.length_nil, Nat.zero_add]; rfl

theorem get : Traces (Pass.get : Pass σ ε σ) s [] (.ok s) s where
  cut _ h := absurd h (Nat.not_lt_zero _)
  ends n := by rw [List.length_nil, Nat.zero_add]; rfl

theorem write {g : σ → Except ε α × σ} : Traces (Pass.write g) s [s] (g s).1 (g s).2 where
  cut n h := by
    obtain rfl : n = 0 := by simpa using h
    rfl
  ends n := by
    rw [List.length_singleton, Nat.add_comm]
    rcases hg : g s with ⟨a | a, t⟩ <;> simp only [Pass.write, hg] <;> rfl

theorem bind (hm : Traces m s xs (.ok a) t) (hf : Traces (f a) t ys out u) :
    Traces (m >>= f) s (xs ++ ys) out u where
  cut n h := by
    change (match m (s, n) with | (.ok a, w) => f a w | (.error e, w) => (.error e, w)) = _
    by_cases hn : n < xs.length
    · rw [hm.cut n hn, List.getElem_append_left hn]
    · obtain ⟨k, rfl⟩ := Nat.exists_eq_add_of_le (Nat.le_of_not_lt hn)
      have hk : k < ys.length := by
        rw [List.length_append] at h
        omega
      have hstate : (xs ++ ys)[xs.length + k] = ys[k] := by
        rw [List.getElem_append_right (Nat.le_add_right _ _)]
        simp only [Nat.add_sub_cancel_left]
      rw [hm.ends, hstate]
      exact hf.cut k hk
  ends n := by
    change (match m (s, (xs ++ ys).length + n) with
      | (.ok a, w) => f a w
      | (.error e, w) => (.error e, w)) = _
    rw [List.length_append, Nat.add_assoc, hm.ends]
    exact hf.ends n

theorem get_bind {f : σ → Pass σ ε β} (h : Traces (f s) s ys out u) :
    Traces (Pass.get >>= f) s ys out u := Traces.get.bind h

theorem ofExcept_bind {x : Except ε α} (hx : x = .ok a) (h : Traces (f a) s ys out u) :
    Traces (Pass.ofExcept x >>= f) s ys out u := by
  subst hx
  exact Traces.ofExcept.bind h

theorem observe_bind {o : Option α} (ho : o = some a) (h : Traces (f a) s ys out u) :
    Traces (Pass.observe e o >>= f) s ys out u := by
  subst ho
  exact Traces.pure.bind h

theorem bind_error (hm : Traces m s xs (.error e) t) : Traces (m >>= f) s xs (.error e) t where
  cut n h := by
    change (match m (s, n) with | (.ok a, w) => f a w | (.error e, w) => (.error e, w)) = _
    rw [hm.cut n h]
  ends n := by
    change (match m (s, xs.length + n) with | (.ok a, w) => f a w | (.error e, w) => (.error e, w)) = _
    rw [hm.ends]
    rfl

theorem ofExcept_bind_error {x : Except ε α} (hx : x = .error e) :
    Traces (Pass.ofExcept x >>= f) s [] (.error e) s := by
  subst hx
  exact Traces.ofExcept.bind_error

theorem observe_bind_error {o : Option α} (ho : o = none) :
    Traces (Pass.observe e o >>= f) s [] (.error e) s := by
  subst ho
  exact Traces.throw.bind_error

/-- A pass that is not cut off ends as its trace does. -/
theorem result {o : Except ε α} (h : Traces m s xs o t) (n : ℕ) :
    (m (s, n)).1 = .error .cut ∨ (m (s, n)).1 = o.mapError .thrown := by
  by_cases hn : n < xs.length
  · left
    rw [h.cut n hn]
  · right
    obtain ⟨k, rfl⟩ := Nat.exists_eq_add_of_le (Nat.le_of_not_lt hn)
    rw [h.ends]

/-- The state that is left behind is one of those before a write, or the last one. -/
theorem after_mem {o : Except ε α} (h : Traces m s xs o t) (n : ℕ) :
    m.after s n ∈ xs ∧ n < xs.length ∨ m.after s n = t ∧ xs.length ≤ n := by
  by_cases hn : n < xs.length
  · left
    rw [Pass.after, h.cut n hn]
    exact ⟨List.getElem_mem hn, hn⟩
  · right
    obtain ⟨k, rfl⟩ := Nat.exists_eq_add_of_le (Nat.le_of_not_lt hn)
    rw [Pass.after, h.ends]
    exact ⟨rfl, Nat.le_of_not_lt hn⟩

end Traces

/-- From `P` a pass stands in `I` before each of its writes, and it returns in `Q` or throws in `E`. -/
def Ends {σ ε α : Type} (I P : σ → Prop) (m : Pass σ ε α) (Q : α → σ → Prop) (E : σ → Prop) : Prop :=
  ∀ s, P s → ∃ xs out t, Traces m s xs out t ∧ (∀ x ∈ xs, I x) ∧
    match out with
    | .ok a => Q a t
    | .error _ => E t

namespace Ends

variable {σ ε α β : Type} {I P P' E : σ → Prop} {Q Q' : α → σ → Prop} {R : β → σ → Prop}
  {m : Pass σ ε α} {f : α → Pass σ ε β} {e : ε}

theorem pure {a : α} (h : ∀ s, P s → Q a s) : Ends I P (pure a : Pass σ ε α) Q E :=
  fun s hs => ⟨[], .ok a, s, Traces.pure, List.forall_mem_nil _, h s hs⟩

theorem throw (h : ∀ s, P s → E s) : Ends I P (Pass.throw e : Pass σ ε α) Q E :=
  fun s hs => ⟨[], .error e, s, Traces.throw, List.forall_mem_nil _, h s hs⟩

theorem bind (hm : Ends I P m Q E) (hf : ∀ a, Ends I (Q a) (f a) R E) : Ends I P (m >>= f) R E := by
  intro s hs
  obtain ⟨xs, out, t, htrace, hmid, hend⟩ := hm s hs
  cases out with
  | error e => exact ⟨xs, .error e, t, htrace.bind_error, hmid, hend⟩
  | ok a =>
      obtain ⟨ys, out, u, htrace', hmid', hend'⟩ := hf a t hend
      exact ⟨xs ++ ys, out, u, htrace.bind htrace', List.forall_mem_append.mpr ⟨hmid, hmid'⟩, hend'⟩

theorem weaken (hm : Ends I P m Q E) (hP : ∀ s, P' s → P s) (hQ : ∀ a s, Q a s → Q' a s) :
    Ends I P' m Q' E := by
  intro s hs
  obtain ⟨xs, out, t, htrace, hmid, hend⟩ := hm s (hP s hs)
  refine ⟨xs, out, t, htrace, hmid, ?_⟩
  cases out with
  | error e => exact hend
  | ok a => exact hQ a t hend

/-- A pass is looked at from each of its states. -/
theorem of_state (h : ∀ s, P s → Ends I (· = s) m Q E) : Ends I P m Q E :=
  fun s hs => h s hs s rfl

theorem get_bind {g : σ → Pass σ ε α} (h : ∀ s, P s → Ends I (· = s) (g s) Q E) :
    Ends I P (Pass.get >>= g) Q E := by
  intro s hs
  obtain ⟨xs, out, t, htrace, hrest⟩ := h s hs s rfl
  exact ⟨xs, out, t, htrace.get_bind, hrest⟩

theorem observe_bind {o : Option β} {g : β → Pass σ ε α} (hE : o = none → ∀ s, P s → E s)
    (h : ∀ b, o = some b → Ends I P (g b) Q E) : Ends I P (Pass.observe e o >>= g) Q E := by
  cases o with
  | none => exact fun s hs => ⟨[], .error e, s, Traces.observe_bind_error rfl, List.forall_mem_nil _, hE rfl s hs⟩
  | some b => exact h b rfl

/-- A write that returns. -/
theorem write {g : σ → σ} {a : α} (hI : ∀ s, P s → I s) (h : ∀ s, P s → Q a (g s)) :
    Ends I P (Pass.write (fun s => (.ok a, g s)) : Pass σ ε α) Q E :=
  fun s hs => ⟨[s], .ok a, g s, Traces.write, List.forall_mem_singleton.mpr (hI s hs), h s hs⟩

/-- What is left behind stands between two writes, or at the end. -/
theorem after {s : σ} (hm : Ends I P m Q E) (hs : P s) (n : ℕ) :
    I (m.after s n) ∨ (∃ a, Q a (m.after s n)) ∨ E (m.after s n) := by
  obtain ⟨xs, out, t, htrace, hmid, hend⟩ := hm s hs
  rcases htrace.after_mem n with ⟨hmem, -⟩ | ⟨heq, -⟩
  · exact .inl (hmid _ hmem)
  · rw [heq]
    cases out with
    | error e => exact .inr (.inr hend)
    | ok a => exact .inr (.inl ⟨a, hend⟩)

/-- A pass that cannot throw returns once it is granted enough writes. -/
theorem returns {s : σ} (hm : Ends I P m Q (fun _ => False)) (hs : P s) :
    ∃ N, ∀ n, N ≤ n → ∃ a t k, m (s, n) = (.ok a, t, k) ∧ Q a t := by
  obtain ⟨xs, out, t, htrace, -, hend⟩ := hm s hs
  cases out with
  | error e => exact hend.elim
  | ok a =>
      refine ⟨xs.length, fun n hn => ?_⟩
      obtain ⟨k, rfl⟩ := Nat.exists_eq_add_of_le hn
      exact ⟨a, t, k, htrace.ends k, hend⟩

end Ends

end Passes
