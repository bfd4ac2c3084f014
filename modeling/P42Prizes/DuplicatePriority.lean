import P42Prizes.Register

/-! # One winner per solution CID

Of the submissions revealed with one CID hash, the one that committed first should win.  The
submission manager keeps the lowest revealed id as the priority of the hash
(`Priorities`), and only that submission can be finalized (`Winners`).  A reveal that takes the
priority away from a submission that has won already breaks the rule (`Overtakes`): the reveal
deadline runs on the clock that stops during a full pause, the challenge window does not, and
an objective decision ends the window early.  `oneWinner_iff` says that nothing else does. -/

namespace P42Prizes

open Reverting Function Transition

/-- The id and the CID of a reveal. -/
def ManagerEvent.asReveal : ManagerEvent → Option (ℕ × Bytes)
  | revealed id _ cid _ _ _ _ _ => some (id, cid)
  | _ => none

theorem ManagerEvent.IsNote.asReveal {ev : ManagerEvent} (h : ev.IsNote) : ev.asReveal = none := by
  cases ev with
  | revealed => exact h.elim
  | _ => rfl

namespace SubmissionStatus

/-- The submission has won the frontier check, even if it was voided since. -/
def Won (status : SubmissionStatus) : Prop := status = .finalized ∨ status = .voided

/-- The solution of the submission is public and was not rejected. -/
def Published (status : SubmissionStatus) : Prop :=
  status = .revealed ∨ status = .challenged ∨ status.Won

end SubmissionStatus

namespace SubmissionManager

variable {d : Deployment} {e : Env} {l l' : PayoutLedger} {p : BountyPool}
  {s s' : SubmissionManager} {c : ManagerCall} {f : List Frame}

/-- All successful reveals, newest first. -/
def reveals (s : SubmissionManager) : List (ℕ × Bytes) := s.logs.filterMap ManagerEvent.asReveal

theorem reveals_of_logs {evs : List ManagerEvent} (h : s'.logs = evs ++ s.logs)
    (hevs : ∀ ev ∈ evs, ev.asReveal = none) : s'.reveals = s.reveals := by
  have hnil : evs.filterMap ManagerEvent.asReveal = [] := List.filterMap_eq_nil_iff.mpr hevs
  rw [reveals, h, List.filterMap_append, hnil, List.nil_append]
  rfl

@[simp] theorem reveals_payBond (s : SubmissionManager) (id : ℕ) (a : Address) :
    (s.payBond id a).reveals = s.reveals := by
  have hevs : ∀ ev ∈ s.bondEvents id a, ev.asReveal = none := by
    unfold bondEvents
    split <;> simp [ManagerEvent.asReveal]
  exact reveals_of_logs rfl hevs

theorem reveals_note {evs : List ManagerEvent} (h : ∀ ev ∈ evs, ev.IsNote) :
    (s.note evs).reveals = s.reveals := reveals_of_logs rfl (fun ev hev => (h ev hev).asReveal)

/-- The part of the storage that decides about duplicates. -/
def duplicates (s : SubmissionManager) : (Bytes32 → ℕ) × (ℕ → Bytes32) × List (ℕ × Bytes) :=
  (s.prioritySubmissionOf, s.solutionCidHashOf, s.reveals)

theorem duplicates_retire_payBond {id : ℕ} {source : SubmissionStatus} {a : Address}
    {evs : List ManagerEvent} (h : ∀ ev ∈ evs, ev.IsNote) :
    (((s.retire id source .rejected).payBond id a).note evs).duplicates = s.duplicates := by
  have hreveals : (((s.retire id source .rejected).payBond id a).note evs).reveals = s.reveals := by
    rw [reveals_note h, reveals_payBond]
    rfl
  show (s.prioritySubmissionOf, s.solutionCidHashOf, _) = _
  rw [hreveals]
  rfl

theorem duplicates_supersede (s : SubmissionManager) (id pid : ℕ) :
    (s.supersede id pid).duplicates = s.duplicates := by
  unfold supersede
  split
  · exact duplicates_retire_payBond (by simp [ManagerEvent.IsNote])
  · rfl

theorem duplicates_takePriority (s : SubmissionManager) (id : ℕ) (h : Bytes32) :
    (s.takePriority id h).duplicates =
      (update s.prioritySubmissionOf h id, update s.solutionCidHashOf id h, s.reveals) := by
  have hpublished : (((s.setSolutionCidHash id h).publish id).note
      [.duplicatePriorityAssigned h id]).duplicates =
        (update s.prioritySubmissionOf h id, update s.solutionCidHashOf id h, s.reveals) := by
    have hhash : (s.setSolutionCidHash id h).solutionCidHashOf id = h := update_self ..
    have hprio : ((s.setSolutionCidHash id h).publish id).prioritySubmissionOf =
        update s.prioritySubmissionOf h id := by
      show update s.prioritySubmissionOf ((s.setSolutionCidHash id h).solutionCidHashOf id) id = _
      rw [hhash]
    rw [← hprio]
    rfl
  unfold takePriority
  dsimp only
  split
  · exact hpublished
  · rw [duplicates_supersede, hpublished]

theorem duplicates_yieldPriority (s : SubmissionManager) (id : ℕ) (h : Bytes32) :
    (s.yieldPriority id h).duplicates =
      (s.prioritySubmissionOf, update s.solutionCidHashOf id h, s.reveals) := by
  rw [yieldPriority, duplicates_retire_payBond (by simp [ManagerEvent.IsNote])]
  rfl

theorem takePriority_status {id : ℕ} {h : Bytes32} (hne : s.prioritySubmissionOf h ≠ id) :
    ((s.takePriority id h).submissions id).status = .revealed := by
  have hpublished : (((s.setSolutionCidHash id h).publish id).submissions id).status = .revealed := by
    simp [publish]
  unfold takePriority
  dsimp only
  split
  · exact hpublished
  · unfold supersede
    split
    · have hentry := congrFun (rejectedEntry_eq .revealed (s.prioritySubmissionOf h)
        ((((s.setSolutionCidHash id h).publish id).note
          [.duplicatePriorityAssigned h id]).submissions (s.prioritySubmissionOf h)).solver
        [.duplicateSubmissionRejected ((((s.setSolutionCidHash id h).publish id).note
          [.duplicatePriorityAssigned h id]).solutionCidHashOf id) (s.prioritySubmissionOf h) id]
        (s := ((s.setSolutionCidHash id h).publish id).note [.duplicatePriorityAssigned h id])) id
      rw [update_of_ne (Ne.symm hne)] at hentry
      rw [← hpublished]
      exact congrArg (fun x => x.sub.status) hentry
    · exact hpublished

theorem yieldPriority_status (id : ℕ) (h : Bytes32) :
    ((s.yieldPriority id h).submissions id).status = .rejected := by
  simp [yieldPriority, note, payBond, retire]

/-- What a reveal publishes, and what it does to the priorities. -/
structure Publishes (d : Deployment) (s s' : SubmissionManager) (id : ℕ) (cid : Bytes) : Prop where
  committed : (s.submissions id).status = .committed
  taken : (s'.submissions id).status = .revealed ∨ (s'.submissions id).status = .rejected
  cidHash : s'.solutionCidHashOf = update s.solutionCidHashOf id (d.crypto.keccak256 cid)
  reveals : s'.reveals = (id, cid) :: s.reveals
  priority : s'.prioritySubmissionOf =
    if s.prioritySubmissionOf (d.crypto.keccak256 cid) = 0 ∨
        id < s.prioritySubmissionOf (d.crypto.keccak256 cid) then
      update s.prioritySubmissionOf (d.crypto.keccak256 cid) id
    else s.prioritySubmissionOf

/-- A call either reveals a solution or leaves the priorities and the reveals alone. -/
theorem Move.published (h : Move d e l p s c s' l' f) (hr : Registered s.submissionCount s.entry) :
    (¬ c.IsReveal ∧ s'.duplicates = s.duplicates) ∨
    ∃ id cid claimed improvement salt solution,
      c = .reveal id cid claimed improvement salt solution ∧ Publishes d s s' id cid := by
  cases h with
  | administer hnot hadmin =>
      obtain ⟨evs, hevs, hlogs⟩ := hadmin.logs
      have hreveals := reveals_of_logs hlogs (fun ev hev => (hevs ev hev).asReveal)
      have hprio : s'.prioritySubmissionOf = s.prioritySubmissionOf :=
        congrArg RegisterState.prioritySubmissionOf hadmin.register
      have hcid : s'.solutionCidHashOf = s.solutionCidHashOf :=
        congrArg RegisterState.solutionCidHashOf hadmin.register
      refine Or.inl ⟨hnot, ?_⟩
      rw [duplicates, hreveals, hprio, hcid]
      rfl
  | commit => exact Or.inl ⟨id, rfl⟩
  | addBond => exact Or.inl ⟨id, rfl⟩
  | @reveal id improvement cid salt solution claimed r t recorded _ _ hstatus _ _ _ _ _ _ _ _ hrec =>
      subst hrec
      have hpos : id ≠ 0 := by
        have hne : (s.entry id).sub.status ≠ .none := by
          rw [entry, hstatus]
          decide
        have hle := (hr.le hne).1
        omega
      refine Or.inr ⟨id, cid, claimed, improvement, salt, solution, rfl, ?_⟩
      split
      · rename_i hprio
        have hdup := duplicates_takePriority (s.recordReveal d e id r t) id (d.crypto.keccak256 cid)
        have hne : s.prioritySubmissionOf (d.crypto.keccak256 cid) ≠ id := by
          obtain hzero | hlt := hprio
          · rw [hzero]
            exact Ne.symm hpos
          · exact ne_of_gt hlt
        have htaken := takePriority_status (s := s.recordReveal d e id r t) hne
        refine ⟨hstatus, Or.inl htaken, congrArg (fun x => x.2.1) hdup, ?_, ?_⟩
        · exact congrArg (fun x => (id, cid) :: x.2.2) hdup
        · rw [if_pos hprio]
          exact congrArg Prod.fst hdup
      · rename_i hprio
        have hdup := duplicates_yieldPriority (s.recordReveal d e id r t) id (d.crypto.keccak256 cid)
        have htaken := yieldPriority_status (s := s.recordReveal d e id r t) id
          (d.crypto.keccak256 cid)
        refine ⟨hstatus, Or.inr htaken, congrArg (fun x => x.2.1) hdup, ?_, ?_⟩
        · exact congrArg (fun x => (id, cid) :: x.2.2) hdup
        · rw [if_neg hprio]
          exact congrArg Prod.fst hdup
  | retire hnot evs _ _ _ hevs => exact Or.inl ⟨hnot, duplicates_retire_payBond hevs⟩
  | @finalize j hash =>
      refine Or.inl ⟨id, ?_⟩
      have hevs : ∀ ev ∈ s.finalizeEvents d e j hash p, ev.IsNote := by
        unfold finalizeEvents
        split <;> simp [ManagerEvent.IsNote]
      unfold finalized
      dsimp only
      rw [duplicates, reveals_note hevs]
      split
      · rw [reveals_payBond]
        rfl
      · rfl
  | release =>
      refine Or.inl ⟨id, ?_⟩
      rw [duplicates, reveals_payBond]
      rfl
  | void =>
      refine Or.inl ⟨id, ?_⟩
      unfold voided
      dsimp only
      rw [duplicates, reveals_note (by split <;> simp [ManagerEvent.IsNote]), reveals_payBond]
      rfl
  | mark => exact Or.inl ⟨id, rfl⟩
  | rearm evs hcall _ _ _ _ _ hevs =>
      refine Or.inl ⟨?_, ?_⟩
      · obtain ⟨beneficiary, rfl⟩ | rfl := hcall <;> exact id
      · rw [duplicates, reveals_note hevs]
        rfl
  | clear evs _ _ _ _ hevs =>
      refine Or.inl ⟨id, ?_⟩
      rw [duplicates, reveals_note hevs]
      rfl
  | withdraw => exact Or.inl ⟨id, rfl⟩

/-- A turn keeps a winner a winner, keeps a loser a loser, or is a finalize. -/
theorem Turn.won {id : ℕ} {y : Entry} (h : Turn d e l s c id y) :
    ((s.submissions id).status.Won ↔ y.sub.status.Won) ∨
      s.HasPriority id ∧ (∃ hash, c = .finalize id hash) ∧ (s.submissions id).status = .revealed := by
  cases h with
  | addBond => exact Or.inl Iff.rfl
  | release => exact Or.inl Iff.rfl
  | finalize _ hstatus _ hprio _ => exact Or.inr ⟨hprio, ⟨_, rfl⟩, hstatus⟩
  | reveal hstatus => left; rw [hstatus]; simp [SubmissionStatus.Won, Entry.withStatus]
  | yield hstatus => left; rw [hstatus]; simp [SubmissionStatus.Won, rejectedEntry, Entry.withStatus, Entry.withBond]
  | retire hstatus =>
      left
      obtain hs | hs | ⟨hs, -⟩ := hstatus <;> rw [hs] <;>
        simp [SubmissionStatus.Won, rejectedEntry, Entry.withStatus, Entry.withBond]
  | void hstatus => left; rw [hstatus]; simp [SubmissionStatus.Won, Entry.withStatus, Entry.withBond]
  | mark _ hstatus => left; rw [hstatus]; simp [SubmissionStatus.Won, Entry.withStatus]
  | rearm _ _ hstatus => left; rw [hstatus]; simp [SubmissionStatus.Won, Entry.rearm]
  | clear _ hstatus => left; rw [hstatus]; simp [SubmissionStatus.Won, Entry.rearm, Entry.clear]

/-- A submission is published by its own reveal only. -/
theorem Turn.published {id : ℕ} {y : Entry} (h : Turn d e l s c id y)
    (hnot : ∀ cid claimed improvement salt solution,
      c ≠ .reveal id cid claimed improvement salt solution)
    (hy : y.sub.status.Published) : (s.submissions id).status.Published := by
  cases h with
  | addBond => exact hy
  | release => exact hy
  | finalize _ hstatus => rw [hstatus]; exact Or.inl rfl
  | reveal => exact absurd rfl (hnot _ _ _ _ _)
  | yield => exact absurd rfl (hnot _ _ _ _ _)
  | retire => simp [SubmissionStatus.Published, SubmissionStatus.Won, rejectedEntry, Entry.withStatus, Entry.withBond] at hy
  | void hstatus => rw [hstatus]; exact Or.inr (Or.inr (Or.inl rfl))
  | mark _ hstatus => rw [hstatus]; exact Or.inl rfl
  | rearm _ _ hstatus => rw [hstatus]; exact Or.inr (Or.inl rfl)
  | clear _ hstatus => rw [hstatus]; exact Or.inr (Or.inl rfl)

/-- A submission that left the commit stage never comes back to it. -/
theorem Turn.past_commit {id : ℕ} {y : Entry} (h : Turn d e l s c id y)
    (hs : (s.submissions id).status ≠ .committed) : y.sub.status ≠ .committed := by
  cases h with
  | addBond => exact hs
  | release => exact hs
  | _ => simp [rejectedEntry, finalizedEntry, Entry.withStatus, Entry.withBond, Entry.rearm, Entry.clear]

/-- A submission is in the revealed stage because it was, or because it has the priority and comes back
from a challenge, or because it is revealed now. -/
theorem Turn.revealed {id : ℕ} {y : Entry} (h : Turn d e l s c id y) (hy : y.sub.status = .revealed) :
    (s.submissions id).status = .revealed ∨ s.HasPriority id ∧ ¬ c.IsReveal ∨
      ∃ cid claimed improvement salt solution, c = .reveal id cid claimed improvement salt solution := by
  cases h with
  | addBond => exact .inl hy
  | reveal => exact .inr (.inr ⟨_, _, _, _, _, rfl⟩)
  | rearm hcall _ _ hprio =>
      refine .inr (.inl ⟨hprio, ?_⟩)
      obtain ⟨beneficiary, rfl⟩ | rfl := hcall <;> exact fun hreveal => hreveal
  | clear _ _ hprio => exact .inr (.inl ⟨hprio, fun hreveal => hreveal⟩)
  | release => exact .inl hy
  | _ => simp [rejectedEntry, finalizedEntry, Entry.withStatus, Entry.withBond] at hy

theorem supersede_status (s : SubmissionManager) (id pid : ℕ) :
    ((s.supersede id pid).submissions pid).status ≠ .revealed := by
  unfold supersede
  split
  · simp [note, payBond, retire]
  · assumption

theorem takePriority_superseded (s : SubmissionManager) (id : ℕ) {h : Bytes32} (hne : s.prioritySubmissionOf h ≠ 0) :
    ((s.takePriority id h).submissions (s.prioritySubmissionOf h)).status ≠ .revealed := by
  unfold takePriority
  dsimp only
  rw [if_neg hne]
  exact supersede_status _ _ _

theorem emit_submissions (s : SubmissionManager) (ev : ManagerEvent) :
    (s.emit ev).submissions = s.submissions := rfl

/-- A reveal supersedes the submission that had the priority, or is rejected. -/
theorem Move.reveal_status {id improvement : ℕ} {cid salt solution : Bytes} {claimed : ℤ}
    (h : Move d e l p s (.reveal id cid claimed improvement salt solution) s' l' f) :
    if s.prioritySubmissionOf (d.crypto.keccak256 cid) = 0 ∨
        id < s.prioritySubmissionOf (d.crypto.keccak256 cid) then
      s.prioritySubmissionOf (d.crypto.keccak256 cid) ≠ 0 →
        (s'.submissions (s.prioritySubmissionOf (d.crypto.keccak256 cid))).status ≠ .revealed
    else (s'.submissions id).status = .rejected := by
  cases h with
  | administer hnot => exact absurd trivial hnot
  | retire hnot => exact absurd trivial hnot
  | rearm evs hcall => obtain ⟨beneficiary, hcall⟩ | hcall := hcall <;> cases hcall
  | @reveal _ _ _ _ _ _ r t recorded _ _ hstatus _ _ _ _ _ _ _ _ hrec =>
      subst hrec
      by_cases htake : s.prioritySubmissionOf (d.crypto.keccak256 cid) = 0 ∨
          id < s.prioritySubmissionOf (d.crypto.keccak256 cid)
      · simp only [if_pos htake, emit_submissions]
        intro hne
        have hprio : (s.recordReveal d e id r t).prioritySubmissionOf = s.prioritySubmissionOf := rfl
        have hkey := takePriority_superseded (s.recordReveal d e id r t) id
          (h := d.crypto.keccak256 cid) (by rw [hprio]; exact hne)
        rw [hprio] at hkey
        exact hkey
      · simp only [if_neg htake, emit_submissions]
        exact yieldPriority_status _ _

end SubmissionManager

/-! ### The invariants -/

/-- What holds of the priorities in every run. -/
structure Priorities (d : Deployment) (s : SubmissionManager) : Prop where
  /-- Every reveal is of a submission with that CID hash, no earlier than the priority. -/
  revealed : ∀ id cid, (id, cid) ∈ s.reveals →
    s.solutionCidHashOf id = d.crypto.keccak256 cid ∧ (s.submissions id).status ≠ .none ∧
    (s.submissions id).status ≠ .committed ∧
    s.prioritySubmissionOf (d.crypto.keccak256 cid) ≠ 0 ∧
    s.prioritySubmissionOf (d.crypto.keccak256 cid) ≤ id
  /-- The priority of a hash was revealed with it. -/
  priority : ∀ h, s.prioritySubmissionOf h ≠ 0 →
    ∃ cid, (s.prioritySubmissionOf h, cid) ∈ s.reveals ∧ d.crypto.keccak256 cid = h
  /-- A published submission was revealed. -/
  published : ∀ id, (s.submissions id).status.Published →
    ∃ cid, (id, cid) ∈ s.reveals ∧ d.crypto.keccak256 cid = s.solutionCidHashOf id

/-- At most one submission with the CID hash `h` has won, and it is the earliest of all
submissions that were revealed with `h`. -/
structure OneWinner (d : Deployment) (h : Bytes32) (s : SubmissionManager) : Prop where
  unique : ∀ id id', (s.submissions id).status.Won → s.solutionCidHashOf id = h →
    (s.submissions id').status.Won → s.solutionCidHashOf id' = h → id = id'
  revealed : ∀ id, (s.submissions id).status.Won → s.solutionCidHashOf id = h →
    ∃ cid, (id, cid) ∈ s.reveals ∧ d.crypto.keccak256 cid = h
  earliest : ∀ id, (s.submissions id).status.Won → s.solutionCidHashOf id = h →
    ∀ id' cid, (id', cid) ∈ s.reveals → d.crypto.keccak256 cid = h → id ≤ id'

/-- Every winner with the CID hash `h` has the priority of `h`. -/
def Winners (h : Bytes32) (s : SubmissionManager) : Prop :=
  ∀ id, (s.submissions id).status.Won → s.solutionCidHashOf id = h → s.prioritySubmissionOf h = id

section steps

variable {d : Deployment} {e : Env} {l l' : PayoutLedger} {p : BountyPool}
  {s s' : SubmissionManager} {c : ManagerCall} {f : List Frame} {h : Bytes32}

theorem Priorities.oneWinner_iff_winners (hp : Priorities d s) : OneWinner d h s ↔ Winners h s := by
  constructor
  · intro hone id hwon hcid
    obtain ⟨cid, hmem, hhash⟩ := hone.revealed id hwon hcid
    obtain ⟨-, -, -, hne, hle⟩ := hp.revealed id cid hmem
    rw [hhash] at hne hle
    obtain ⟨cid', hmem', hhash'⟩ := hp.priority h hne
    exact le_antisymm hle (hone.earliest id hwon hcid _ _ hmem' hhash')
  · intro hwinners
    constructor
    · intro id id' hwon hcid hwon' hcid'
      rw [← hwinners id hwon hcid, hwinners id' hwon' hcid']
    · intro id hwon hcid
      obtain ⟨cid, hmem, hhash⟩ := hp.published id (Or.inr (Or.inr hwon))
      exact ⟨cid, hmem, by rw [hhash, hcid]⟩
    · intro id hwon hcid id' cid hmem hhash
      have hle := (hp.revealed id' cid hmem).2.2.2.2
      rw [hhash, hwinners id hwon hcid] at hle
      exact hle

theorem SubmissionManager.Move.published_of (hmove : SubmissionManager.Move d e l p s c s' l' f)
    {id : ℕ} (hnot : ∀ cid claimed improvement salt solution,
      c ≠ .reveal id cid claimed improvement salt solution)
    (h : (s'.submissions id).status.Published) : (s.submissions id).status.Published := by
  refine hmove.turns.forall (P := fun j x => j = id → x.sub.status.Published →
    (s.submissions id).status.Published) ?_ ?_ ?_ id rfl h
  · intro sub t _ _ hstatus _ _ hpublished
    have hcommitted : sub.status.Published := hpublished
    rw [hstatus] at hcommitted
    simp [SubmissionStatus.Published, SubmissionStatus.Won] at hcommitted
  · rintro j y hturn hj rfl hy
    exact hj rfl (hturn.published hnot hy)
  · rintro j rfl hj
    exact hj

/-- A submission that was revealed once stays past its commit. -/
theorem SubmissionManager.Move.past_commit (hmove : SubmissionManager.Move d e l p s c s' l' f)
    (hr : SubmissionManager.Registered s.submissionCount s.entry) {id : ℕ}
    (hnone : (s.submissions id).status ≠ .none) (hcommit : (s.submissions id).status ≠ .committed) :
    (s'.submissions id).status ≠ .none ∧ (s'.submissions id).status ≠ .committed := by
  obtain heq | hturn := hmove.turns.of_le (hr.le hnone).2
  · have hsub : s'.submissions id = s.submissions id := congrArg Entry.sub heq
    rw [hsub]
    exact ⟨hnone, hcommit⟩
  · exact ⟨hturn.registered.2.2, hturn.past_commit hcommit⟩

theorem Priorities.move (hmove : SubmissionManager.Move d e l p s c s' l' f)
    (hr : SubmissionManager.Registered s.submissionCount s.entry) (h : Priorities d s) :
    Priorities d s' := by
  obtain ⟨hnot, hdup⟩ | ⟨id, cid, claimed, improvement, salt, solution, rfl, hpub⟩ :=
    hmove.published hr
  · have hprio : s'.prioritySubmissionOf = s.prioritySubmissionOf := congrArg Prod.fst hdup
    have hcid : s'.solutionCidHashOf = s.solutionCidHashOf := congrArg (fun x => x.2.1) hdup
    have hreveals : s'.reveals = s.reveals := congrArg (fun x => x.2.2) hdup
    constructor
    · intro j cj hmem
      rw [hreveals] at hmem
      obtain ⟨hhash, hnone, hcommit, hne, hle⟩ := h.revealed j cj hmem
      obtain ⟨hnone', hcommit'⟩ := hmove.past_commit hr hnone hcommit
      rw [hcid, hprio]
      exact ⟨hhash, hnone', hcommit', hne, hle⟩
    · intro hash hne
      rw [hprio] at hne
      rw [hprio, hreveals]
      exact h.priority hash hne
    · intro j hj
      have hbefore := hmove.published_of (fun _ _ _ _ _ heq => hnot (heq ▸ trivial)) hj
      rw [hcid, hreveals]
      exact h.published j hbefore
  · have hpos : 1 ≤ id := by
      have hne : (s.entry id).sub.status ≠ .none := by
        rw [SubmissionManager.entry, hpub.committed]
        decide
      exact (hr.le hne).1
    have hprio := hpub.priority
    constructor
    · intro j cj hmem
      rw [hpub.reveals] at hmem
      obtain heq | hmem := List.mem_cons.mp hmem
      · obtain ⟨rfl, rfl⟩ := Prod.mk.inj heq
        have hstatus : (s'.submissions j).status ≠ .none ∧ (s'.submissions j).status ≠ .committed := by
          obtain hs | hs := hpub.taken <;> rw [hs] <;> decide
        refine ⟨by rw [hpub.cidHash, update_self], hstatus.1, hstatus.2, ?_⟩
        rw [hprio]
        split
        · rw [update_self]
          omega
        · rename_i hnot
          rw [not_or, not_lt] at hnot
          exact hnot
      · obtain ⟨hhash, hnone, hcommit, hne, hle⟩ := h.revealed j cj hmem
        obtain ⟨hnone', hcommit'⟩ := hmove.past_commit hr hnone hcommit
        have hj : j ≠ id := by
          rintro rfl
          exact hcommit hpub.committed
        refine ⟨by rw [hpub.cidHash, update_of_ne hj]; exact hhash, hnone', hcommit', ?_⟩
        rw [hprio]
        split
        · rename_i htake
          by_cases hsame : d.crypto.keccak256 cj = d.crypto.keccak256 cid
          · rw [hsame] at hne hle ⊢
            rw [update_self]
            omega
          · rw [update_of_ne hsame]
            exact ⟨hne, hle⟩
        · exact ⟨hne, hle⟩
    · intro hash hne
      rw [hprio] at hne ⊢
      rw [hpub.reveals]
      by_cases hsame : hash = d.crypto.keccak256 cid
      · subst hsame
        split
        · rw [update_self]
          exact ⟨cid, List.mem_cons_self .., rfl⟩
        · rename_i hnot
          rw [if_neg hnot] at hne
          obtain ⟨cid', hmem, hhash⟩ := h.priority _ hne
          exact ⟨cid', List.mem_cons_of_mem _ hmem, hhash⟩
      · have hold : (if s.prioritySubmissionOf (d.crypto.keccak256 cid) = 0 ∨
            id < s.prioritySubmissionOf (d.crypto.keccak256 cid) then
          update s.prioritySubmissionOf (d.crypto.keccak256 cid) id
          else s.prioritySubmissionOf) hash = s.prioritySubmissionOf hash := by
          split
          · rw [update_of_ne hsame]
          · rfl
        rw [hold] at hne ⊢
        obtain ⟨cid', hmem, hhash⟩ := h.priority _ hne
        exact ⟨cid', List.mem_cons_of_mem _ hmem, hhash⟩
    · intro j hj
      rw [hpub.reveals, hpub.cidHash]
      by_cases hid : j = id
      · subst hid
        rw [update_self]
        exact ⟨cid, List.mem_cons_self .., rfl⟩
      · have hbefore := hmove.published_of (fun _ _ _ _ _ heq => hid (by cases heq; rfl)) hj
        obtain ⟨cid', hmem, hhash⟩ := h.published j hbefore
        rw [update_of_ne hid]
        exact ⟨cid', List.mem_cons_of_mem _ hmem, hhash⟩

/-- A winner won before, or it has the priority and is finalized now. -/
theorem SubmissionManager.Move.won_of (hmove : SubmissionManager.Move d e l p s c s' l' f) {id : ℕ}
    (h : (s'.submissions id).status.Won) :
    (s.submissions id).status.Won ∨ s.HasPriority id ∧ ∃ hash, c = .finalize id hash := by
  refine hmove.turns.forall (P := fun j x => j = id → x.sub.status.Won →
    (s.submissions id).status.Won ∨ s.HasPriority id ∧ ∃ hash, c = .finalize id hash) ?_ ?_ ?_ id rfl h
  · intro sub t _ _ hstatus _ _ hwon
    have hcommitted : sub.status.Won := hwon
    rw [hstatus] at hcommitted
    simp [SubmissionStatus.Won] at hcommitted
  · rintro j y hturn - rfl hy
    obtain hiff | ⟨hprio, hcall, -⟩ := hturn.won
    · exact Or.inl (hiff.mpr hy)
    · exact Or.inr ⟨hprio, hcall⟩
  · rintro j rfl hj
    exact Or.inl hj

/-- Winners stay winners. -/
theorem SubmissionManager.Move.won (hmove : SubmissionManager.Move d e l p s c s' l' f)
    (hr : SubmissionManager.Registered s.submissionCount s.entry) {id : ℕ}
    (h : (s.submissions id).status.Won) : (s'.submissions id).status.Won := by
  have hnone : (s.entry id).sub.status ≠ .none := by
    intro hnone
    have hstatus : (s.submissions id).status = .none := hnone
    rw [hstatus] at h
    simp [SubmissionStatus.Won] at h
  obtain heq | hturn := hmove.turns.of_le (hr.le hnone).2
  · have hsub : s'.submissions id = s.submissions id := congrArg Entry.sub heq
    rw [hsub]
    exact h
  · obtain hiff | ⟨-, -, hrevealed⟩ := hturn.won
    · exact hiff.mp h
    · rw [hrevealed] at h
      simp [SubmissionStatus.Won] at h

/-- A submission with the priority of `h` that has won loses the priority to this call. -/
def SubmissionManager.LosesWinner (d : Deployment) (h : Bytes32) (s : SubmissionManager) (c : ManagerCall) : Prop :=
  ∃ id cid claimed improvement salt solution,
    c = .reveal id cid claimed improvement salt solution ∧ d.crypto.keccak256 cid = h ∧
    s.prioritySubmissionOf h ≠ 0 ∧ id < s.prioritySubmissionOf h ∧
    (s.submissions (s.prioritySubmissionOf h)).status.Won

theorem Winners.move (hmove : SubmissionManager.Move d e l p s c s' l' f)
    (hr : SubmissionManager.Registered s.submissionCount s.entry) (hw : Winners h s)
    (hkeep : ¬ s.LosesWinner d h c) : Winners h s' := by
  intro j hwon hcid
  obtain ⟨-, hdup⟩ | ⟨id, cid, claimed, improvement, salt, solution, rfl, hpub⟩ := hmove.published hr
  · have hprio : s'.prioritySubmissionOf = s.prioritySubmissionOf := congrArg Prod.fst hdup
    have hcid' : s'.solutionCidHashOf = s.solutionCidHashOf := congrArg (fun x => x.2.1) hdup
    rw [hcid'] at hcid
    rw [hprio]
    obtain hbefore | ⟨hpriority, -⟩ := hmove.won_of hwon
    · exact hw j hbefore hcid
    · rw [← hcid]
      exact hpriority
  · have hbefore : (s.submissions j).status.Won := by
      obtain hbefore | ⟨-, hash, hcall⟩ := hmove.won_of hwon
      · exact hbefore
      · cases hcall
    have hj : j ≠ id := by
      rintro rfl
      rw [hpub.committed] at hbefore
      simp [SubmissionStatus.Won] at hbefore
    rw [hpub.cidHash, update_of_ne hj] at hcid
    have hprio := hw j hbefore hcid
    have hpos : j ≠ 0 := by
      rintro rfl
      have hne : (s.entry 0).sub.status ≠ .none := by
        intro hnone
        have hstatus : (s.submissions 0).status = .none := hnone
        rw [hstatus] at hbefore
        simp [SubmissionStatus.Won] at hbefore
      exact absurd (hr.le hne).1 (by omega)
    rw [hpub.priority]
    split
    · rename_i htake
      by_cases hsame : h = d.crypto.keccak256 cid
      · subst hsame
        rw [hprio] at htake
        refine absurd ⟨id, cid, claimed, improvement, salt, solution, rfl, rfl, ?_, ?_, ?_⟩ hkeep
        · rw [hprio]
          exact hpos
        · rw [hprio]
          exact htake.resolve_left hpos
        · rw [hprio]
          exact hbefore
      · rw [update_of_ne hsame]
        exact hprio
    · exact hprio

/-- A winner that loses the priority is not the earliest any more. -/
theorem SubmissionManager.LosesWinner.not_oneWinner (hlose : s.LosesWinner d h c)
    (hmove : SubmissionManager.Move d e l p s c s' l' f)
    (hr : SubmissionManager.Registered s.submissionCount s.entry) (hp : Priorities d s) :
    ¬ OneWinner d h s' := by
  intro hone
  obtain ⟨id, cid, claimed, improvement, salt, solution, rfl, rfl, hne, hlt, hwon⟩ := hlose
  obtain ⟨cid', hmem, hhash⟩ := hp.priority _ hne
  have hcid := (hp.revealed _ _ hmem).1
  obtain ⟨hnot, -⟩ | ⟨id', cid'', _, _, _, _, heq, hpub⟩ := hmove.published hr
  · exact hnot trivial
  · cases heq
    have hcid' : s'.solutionCidHashOf (s.prioritySubmissionOf (d.crypto.keccak256 cid)) =
        d.crypto.keccak256 cid := by
      rw [hpub.cidHash, update_of_ne (by omega), hcid, hhash]
    have hle := hone.earliest _ (hmove.won hr hwon) hcid' id cid
      (by rw [hpub.reveals]; exact List.mem_cons_self ..) rfl
    omega

end steps

/-! ### Runs -/

/-- A reveal takes the priority of `h` away from a submission that has won. -/
def Overtakes (d : Deployment) (h : Bytes32) (w : World) (a : Action) : Prop :=
  ∃ sender value ext c, a = .call sender value ext (.manager c) ∧ w.sm.LosesWinner d h c

theorem priorities_of_reachable {d : Deployment} {C : World → Action → Prop} {w : World}
    (h : d.protocol.Reachable C w) : Priorities d w.sm := by
  have hboth := manager_invariant
    (P := fun s => SubmissionManager.Registered s.submissionCount s.entry ∧ Priorities d s)
    (fun block wiring => ⟨registered_genesis d block wiring, fun _ _ hmem => (nomatch hmem),
      fun _ hne => absurd rfl hne, fun _ hpub => by
        obtain h | h | h | h := hpub <;> cases h⟩)
    (fun s bonds evs hevs hP => ⟨hP.1, by
      have hreveals : SubmissionManager.reveals { s with toBondState := bonds, logs := evs ++ s.logs } =
          s.reveals := by
        refine SubmissionManager.reveals_of_logs rfl (fun ev hev => ?_)
        obtain ⟨a, n, rfl⟩ := hevs ev hev
        rfl
      exact ⟨fun id cid hmem => hP.2.revealed id cid (hreveals ▸ hmem),
        fun hash hne => hreveals ▸ hP.2.priority hash hne,
        fun id hpub => hreveals ▸ hP.2.published id hpub⟩⟩)
    (fun hsender hP hmove => ⟨hmove.turns.registered hsender hP.1, hP.2.move hmove hP.1⟩) h
  exact hboth.2

/-- A step keeps the winner unique exactly if it does not overtake one. -/
theorem oneWinner_step {d : Deployment} {h : Bytes32} {w w' : World} {a : Action}
    (hreach : d.protocol.Reachable Free w) (hone : OneWinner d h w.sm)
    (hstep : w.step d a = some w') : ¬ Overtakes d h w a ↔ OneWinner d h w'.sm := by
  have hr := registered_of_reachable hreach
  have hp := priorities_of_reachable hreach
  have hp' := priorities_of_reachable (hreach.step trivial hstep)
  have hwinners := hp.oneWinner_iff_winners.mp hone
  constructor
  · intro hnot
    rw [hp'.oneWinner_iff_winners]
    cases manager_stepped hstep with
    | quiet _ hsm _ _ => rw [hsm]; exact hwinners
    | eth amount _ _ hsm _ _ => rw [hsm]; exact hwinners
    | finish claimant amount _ _ _ hsm => rw [hsm]; exact hwinners
    | call e c f _ _ _ _ _ hrun _ _ horigin =>
        refine Winners.move (SubmissionManager.move_of_run hrun) hr hwinners ?_
        rintro hlose
        obtain ⟨rfl, -⟩ | ⟨-, -, _, _, _, _, -, hhook⟩ := horigin
        · exact hnot ⟨_, _, _, c, rfl, hlose⟩
        · obtain ⟨_, _, _, _, _, _, rfl, -⟩ := hlose
          cases hhook
  · rintro hone' ⟨sender, value, ext, c, rfl, hlose⟩
    cases stepped_of_step hstep with
    | manager _ _ _ hrun =>
        exact SubmissionManager.LosesWinner.not_oneWinner (s := { w.sm with balance := w.sm.balance + value })
          hlose (SubmissionManager.move_of_run hrun) hr ⟨hp.revealed, hp.priority, hp.published⟩ hone'

/-- **One winner per CID hash.**  A run keeps the earliest revealed submission of `h` the only
winner exactly if none of its reveals takes the priority of `h` from a winner. -/
theorem oneWinner_iff {d : Deployment} {h : Bytes32} {w₀ w : World} {as : List Action}
    (h₀ : d.protocol.init w₀) :
    d.protocol.Run (fun w a => ¬ Overtakes d h w a) w₀ as w ↔
      d.protocol.Run (fun w _ => OneWinner d h w.sm) w₀ as w ∧ OneWinner d h w.sm := by
  refine System.run_iff_always (J := fun w => d.protocol.Reachable Free w)
    (P := fun w => OneWinner d h w.sm) (fun _ _ _ hj hs => hj.step trivial hs)
    (fun _ _ _ hj hp hs => oneWinner_step hj hp hs) (.of_init h₀) ?_
  obtain ⟨block, wiring, -, -, rfl⟩ := h₀
  have hnone : ∀ id, ¬ (((d.genesis block wiring).sm.submissions id).status.Won) := by
    intro id hwon
    obtain h | h := hwon <;> cases h
  exact ⟨fun id _ hwon => absurd hwon (hnone id), fun id hwon => absurd hwon (hnone id),
    fun id hwon => absurd hwon (hnone id)⟩

namespace Sample

/-- The CID and the score of `solutionA`, from another solver. -/
def solutionB : Solution := ⟨0x52, ascii "cid-a", 50⟩

def sharedHash : Bytes32 := crypto.keccak256 (ascii "cid-a")

/-- A full pause of an hour lets the first submission be revealed after the challenge window of
the second one has passed. -/
def overtakenRun : List Action :=
  [solutionA.commit 1, solutionB.commit 1, .tick (blockAt 12 2), solutionB.reveal 2,
    byOwner (.setPausedAll true), .tick (blockAt 3600 3), byOwner (.setPausedAll false),
    .tick (blockAt (12 + window) 4), solutionB.finalize 2, solutionA.reveal 1]

theorem overtakenRun_exec : ∃ w, board.protocol.exec genesis overtakenRun = some w ∧
    (w.sm.submissions 2).status = .finalized ∧ w.sm.solutionCidHashOf 2 = sharedHash ∧
    (1, ascii "cid-a") ∈ w.sm.reveals := by
  have hrun : (board.protocol.exec genesis overtakenRun).map (fun w =>
      decide ((w.sm.submissions 2).status = .finalized ∧ w.sm.solutionCidHashOf 2 = sharedHash ∧
        (1, ascii "cid-a") ∈ w.sm.reveals)) = some true := by decide +kernel
  obtain ⟨w, hw, hfacts⟩ := Option.map_eq_some_iff.mp hrun
  exact ⟨w, hw, of_decide_eq_true hfacts⟩

end Sample

/-- A later submission wins, and an earlier one is revealed with the same CID afterwards. -/
theorem oneWinner_overtaken : ∃ w, Sample.board.protocol.Reachable Free w ∧
    ¬ OneWinner Sample.board Sample.sharedHash w.sm := by
  obtain ⟨w, hw, hstatus, hcid, hmem⟩ := Sample.overtakenRun_exec
  refine ⟨w, .of_exec Sample.genesis_init.1 hw, fun hone => ?_⟩
  have hle := hone.earliest 2 (Or.inl hstatus) hcid 1 _ hmem rfl
  omega

theorem oneWinner_iff_sample : ∃ w, Sample.board.protocol.Run Free Sample.genesis Sample.overtakenRun w ∧
    ¬ Sample.board.protocol.Run (fun w a => ¬ Overtakes Sample.board Sample.sharedHash w a)
      Sample.genesis Sample.overtakenRun w := by
  obtain ⟨w, hw, hstatus, hcid, hmem⟩ := Sample.overtakenRun_exec
  refine ⟨w, System.run_of_exec hw, fun hrun => ?_⟩
  obtain ⟨-, hone⟩ := (oneWinner_iff Sample.genesis_init.1).mp hrun
  have hle := hone.earliest 2 (Or.inl hstatus) hcid 1 _ hmem rfl
  omega

/-! ### One revealed submission for each hash -/

section first

variable {d : Deployment} {e : Env} {l l' : PayoutLedger} {p : BountyPool}
  {s s' : SubmissionManager} {c : ManagerCall} {f : List Frame}

/-- Every submission in the revealed stage has the priority of its hash. -/
def RevealedFirst (s : SubmissionManager) : Prop :=
  ∀ id, (s.submissions id).status = .revealed → s.HasPriority id

theorem SubmissionManager.Move.revealed_of (hmove : SubmissionManager.Move d e l p s c s' l' f) {id : ℕ}
    (h : (s'.submissions id).status = .revealed) :
    (s.submissions id).status = .revealed ∨ s.HasPriority id ∧ ¬ c.IsReveal ∨
      ∃ cid claimed improvement salt solution, c = .reveal id cid claimed improvement salt solution := by
  refine hmove.turns.forall (P := fun j x => j = id → x.sub.status = .revealed →
    (s.submissions id).status = .revealed ∨ s.HasPriority id ∧ ¬ c.IsReveal ∨
      ∃ cid claimed improvement salt solution, c = .reveal id cid claimed improvement salt solution)
    ?_ ?_ ?_ id rfl h
  · intro sub t _ _ hstatus _ _ hrevealed
    have hcommitted : sub.status = .revealed := hrevealed
    rw [hstatus] at hcommitted
    cases hcommitted
  · rintro j y hturn - rfl hy
    exact hturn.revealed hy
  · rintro j rfl hj
    exact .inl hj

theorem RevealedFirst.move (hmove : SubmissionManager.Move d e l p s c s' l' f)
    (hr : SubmissionManager.Registered s.submissionCount s.entry) (h : RevealedFirst s) : RevealedFirst s' := by
  intro j hrevealed
  have hof := hmove.revealed_of hrevealed
  obtain ⟨hnot, hdup⟩ | ⟨id, cid, claimed, improvement, salt, solution, rfl, hpub⟩ := hmove.published hr
  · have hprio : s'.prioritySubmissionOf = s.prioritySubmissionOf := congrArg Prod.fst hdup
    have hcid : s'.solutionCidHashOf = s.solutionCidHashOf := congrArg (fun x => x.2.1) hdup
    unfold SubmissionManager.HasPriority
    rw [hprio, hcid]
    obtain hbefore | ⟨hpriority, -⟩ | ⟨_, _, _, _, _, rfl⟩ := hof
    · exact h j hbefore
    · exact hpriority
    · exact absurd trivial hnot
  · have hstatus := hmove.reveal_status
    unfold SubmissionManager.HasPriority
    rw [hpub.cidHash, hpub.priority]
    obtain hbefore | ⟨-, hnot⟩ | ⟨_, _, _, _, _, hcall⟩ := hof
    · have hj : j ≠ id := by
        rintro rfl
        rw [hpub.committed] at hbefore
        cases hbefore
      have hfirst : s.prioritySubmissionOf (s.solutionCidHashOf j) = j := h j hbefore
      have hpos : j ≠ 0 := by
        rintro rfl
        have hne : (s.entry 0).sub.status ≠ .none := by
          rw [SubmissionManager.entry, hbefore]
          decide
        exact absurd (hr.le hne).1 (by omega)
      rw [update_of_ne hj]
      split at hstatus
      · rename_i htake
        rw [if_pos htake]
        by_cases hsame : s.solutionCidHashOf j = d.crypto.keccak256 cid
        · rw [hsame] at hfirst
          rw [hfirst] at hstatus
          exact absurd hrevealed (hstatus hpos)
        · rw [update_of_ne hsame]
          exact hfirst
      · rename_i htake
        rw [if_neg htake]
        exact hfirst
    · exact absurd trivial hnot
    · cases hcall
      rw [update_self]
      split at hstatus
      · rename_i htake
        rw [if_pos htake, update_self]
      · rw [hstatus] at hrevealed
        cases hrevealed

theorem revealedFirst_of_reachable {d : Deployment} {C : World → Action → Prop} {w : World}
    (h : d.protocol.Reachable C w) : RevealedFirst w.sm := by
  have hboth := manager_invariant
    (P := fun s => SubmissionManager.Registered s.submissionCount s.entry ∧ RevealedFirst s)
    (fun block wiring => ⟨registered_genesis d block wiring, fun _ hrevealed => by cases hrevealed⟩)
    (fun s bonds evs hevs hP => hP)
    (fun hsender hP hmove => ⟨hmove.turns.registered hsender hP.1, hP.2.move hmove hP.1⟩) h
  exact hboth.2

end first

/-- What holds of the submissions that were revealed with one CID hash. -/
structure DuplicateLaws (d : Deployment) (s : SubmissionManager) : Prop where
  /-- The priority of a hash is the least submission that was revealed with it. -/
  least : ∀ h, (∃ id cid, (id, cid) ∈ s.reveals ∧ d.crypto.keccak256 cid = h) →
    IsLeast {id | ∃ cid, (id, cid) ∈ s.reveals ∧ d.crypto.keccak256 cid = h} (s.prioritySubmissionOf h)
  /-- A submission in the revealed stage was revealed with its hash, and has the priority of it. -/
  first : ∀ id, (s.submissions id).status = .revealed →
    (∃ cid, (id, cid) ∈ s.reveals ∧ d.crypto.keccak256 cid = s.solutionCidHashOf id) ∧
      s.prioritySubmissionOf (s.solutionCidHashOf id) = id
  /-- A submission is finalized by the branch for the one that has priority. -/
  finalize : ∀ e id hash l p r, s.finalize d e id hash l p = .ok r →
    s.finalizePriority d e id hash (s.submissions id) l p = .ok r
  unique : ∀ id id', (s.submissions id).status = .revealed → (s.submissions id').status = .revealed →
    s.solutionCidHashOf id = s.solutionCidHashOf id' → id = id'

/-- **Duplicate priority.** -/
theorem duplicateLaws_of_reachable {d : Deployment} {C : World → Action → Prop} {w : World}
    (h : d.protocol.Reachable C w) : DuplicateLaws d w.sm := by
  have hp := priorities_of_reachable h
  have hfirst := revealedFirst_of_reachable h
  refine ⟨?_, fun id hrevealed => ⟨hp.published id (.inl hrevealed), hfirst id hrevealed⟩, ?_, ?_⟩
  · rintro hash ⟨id, cid, hmem, hhash⟩
    obtain ⟨-, -, -, hne, -⟩ := hp.revealed id cid hmem
    rw [hhash] at hne
    refine ⟨hp.priority hash hne, ?_⟩
    rintro id' ⟨cid', hmem', hhash'⟩
    have hle := (hp.revealed id' cid' hmem').2.2.2.2
    rwa [hhash'] at hle
  · rintro e id hash l p ⟨s', l'⟩ hok
    obtain ⟨-, -, -, hrevealed, -, hrest⟩ := SubmissionManager.finalize_eq_ok.mp hok
    have hprio : w.sm.prioritySubmissionOf (w.sm.solutionCidHashOf id) = id := hfirst id hrevealed
    rwa [if_pos hprio] at hrest
  · intro id id' hrevealed hrevealed' hsame
    have hid : w.sm.prioritySubmissionOf (w.sm.solutionCidHashOf id) = id := hfirst id hrevealed
    rw [hsame] at hid
    exact hid.symm.trans (hfirst id' hrevealed')

theorem duplicateLaws_sample : ∃ w, Sample.board.protocol.Reachable Free w ∧
    (1, ascii "cid-a") ∈ w.sm.reveals ∧ DuplicateLaws Sample.board w.sm := by
  obtain ⟨w, hw, -, -, hmem⟩ := Sample.overtakenRun_exec
  have hreach := System.Reachable.of_exec Sample.genesis_init.1 hw
  exact ⟨w, hreach, hmem, duplicateLaws_of_reachable hreach⟩

end P42Prizes
