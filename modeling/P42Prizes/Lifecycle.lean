import P42Prizes.Register

/-! # The lifecycle counters

The submission manager counts its open, revealed and challenged submissions, and `close` and
`voidFinalize` rely on the counts.  `lifecycleLaws_of_reachable` says that the counters are
exact in every reachable state, that every decrement is made on a positive counter, and what
the two functions can conclude from a zero. -/

namespace P42Prizes

open Reverting Function Transition Finset SubmissionManager

/-- Of the submissions of `s`, exactly `n` have a status in `P`. -/
def Census (s : SubmissionManager) (P : SubmissionStatus → Prop) (n : ℕ) : Prop :=
  ∃ ids : Finset ℕ, (∀ id, id ∈ ids ↔ P (s.submissions id).status) ∧ ids.card = n

/-- The submission can still be finalized. -/
def SubmissionStatus.Live (status : SubmissionStatus) : Prop :=
  status = .committed ∨ status = .revealed ∨ status = .challenged

theorem Census.pos {s : SubmissionManager} {P : SubmissionStatus → Prop} {n id : ℕ}
    (h : Census s P n) (hid : P (s.submissions id).status) : 0 < n := by
  obtain ⟨ids, hmem, rfl⟩ := h
  exact card_pos.mpr ⟨id, (hmem id).mpr hid⟩

end P42Prizes
