import P42Prizes.Escrow
import P42Prizes.Steps

/-! # The register of submissions

`Entry` is everything the submission manager stores under one submission id, and `Turn` lists
what one call can do to the entry of a submission.  A call turns at most two entries: a reveal
turns its own and, when it takes the priority of its CID hash, the one that had it (`Turns`,
`Move.turns`).  An invariant of the entries is proved turn by turn (`Turns.forall`).

The last part applies this to the shape of the register: the submissions are exactly the ids
from `1` to the count (`Registered`), and the three counters count them (`Counted`). -/

namespace P42Prizes

open Reverting Function Transition Finset

/-- Everything the submission manager stores about one submission. -/
structure Entry where
  sub : Submission
  committedActiveAt : ℕ
  maxDisputeEndsAt : ℕ
  paid : Bool
  revealHash : Bytes32
  clearedHash : Bytes32
  cidHash : Bytes32
  info : FinalizeInfo

namespace Entry

def withStatus (status : SubmissionStatus) (x : Entry) : Entry :=
  { x with sub := { x.sub with status := status } }

def withBond (bondWei : ℕ) (x : Entry) : Entry := { x with sub := { x.sub with bondWei := bondWei } }

/-- The entry of a submission whose solution `r` has been published under the CID hash `h`. -/
def record (d : Deployment) (e : Env) (r : RevealInstance) (h : Bytes32) (x : Entry) : Entry :=
  { x with
    sub := { x.sub with
      solutionCid := r.solutionCid
      claimedScoreAtoms := r.claimedScoreAtoms
      improvementAtoms := r.improvementAtoms
      revealedAt := e.now
      challengeEndsAt := r.challengeEndsAt }
    maxDisputeEndsAt := e.now + d.sm.challengeWindowSeconds * maxCumulativeDisputeWindows
    revealHash := d.revealInstanceHash r
    cidHash := h }

def rearm (challengeEndsAt : ℕ) (x : Entry) : Entry :=
  { x with sub := { x.sub with status := .revealed, challengeEndsAt := challengeEndsAt } }

def clear (x : Entry) : Entry := { x with clearedHash := x.revealHash }

end Entry

namespace SubmissionManager

variable {d : Deployment} {e : Env} {l l' : PayoutLedger} {p : BountyPool}
  {s s' : SubmissionManager} {c : ManagerCall} {f : List Frame}

def entry (s : SubmissionManager) (id : ℕ) : Entry :=
  ⟨s.submissions id, s.committedActiveAtOf id, s.maxDisputeEndsAtOf id, s.paidAtCommit id,
    s.revealInstanceHashOf id, s.objectiveClearedRevealInstanceHashOf id, s.solutionCidHashOf id,
    s.finalizeInfo id⟩

/-! ### The updates of one entry -/

section updates

variable (s) (id : ℕ)

@[simp] theorem entry_note (evs : List ManagerEvent) : (s.note evs).entry = s.entry := rfl

@[simp] theorem entry_emit (ev : ManagerEvent) : (s.emit ev).entry = s.entry := rfl

@[simp] theorem emit_submissionCount (ev : ManagerEvent) :
    (s.emit ev).submissionCount = s.submissionCount := rfl

@[simp] theorem entry_payBond (a : Address) :
    (s.payBond id a).entry = update s.entry id ((s.entry id).withBond 0) := by
  funext j
  by_cases h : j = id
  · subst h
    simp [entry, payBond, Entry.withBond]
  · simp [entry, payBond, h]

@[simp] theorem entry_retire (source target : SubmissionStatus) :
    (s.retire id source target).entry = update s.entry id ((s.entry id).withStatus target) := by
  funext j
  by_cases h : j = id
  · subst h
    simp [entry, retire, Entry.withStatus]
  · simp [entry, retire, h]

@[simp] theorem entry_addCommit (sub : Submission) (b t : ℕ) (paid : Bool) :
    (s.addCommit sub b t paid).entry = update s.entry (s.submissionCount + 1)
      { s.entry (s.submissionCount + 1) with sub := sub, committedActiveAt := t, paid := paid } := by
  funext j
  by_cases h : j = s.submissionCount + 1
  · subst h
    simp [entry, addCommit]
  · simp [entry, addCommit, h]

@[simp] theorem entry_addBond (value : ℕ) : (s.addBond id value).entry =
    update s.entry id ((s.entry id).withBond ((s.submissions id).bondWei + value)) := by
  funext j
  by_cases h : j = id
  · subst h
    simp [entry, addBond, Entry.withBond]
  · simp [entry, addBond, h]

@[simp] theorem entry_recordReveal (r : RevealInstance) (h : Bytes32) :
    ((s.recordReveal d e id r
        (e.now + d.sm.challengeWindowSeconds * maxCumulativeDisputeWindows)).setSolutionCidHash
        id h).entry = update s.entry id ((s.entry id).record d e r h) := by
  funext j
  by_cases hj : j = id
  · subst hj
    simp [entry, recordReveal, modify, setSolutionCidHash, Entry.record]
  · simp [entry, recordReveal, modify, setSolutionCidHash, hj]

@[simp] theorem entry_publish :
    (s.publish id).entry = update s.entry id ((s.entry id).withStatus .revealed) := by
  funext j
  by_cases h : j = id
  · subst h
    simp [entry, publish, Entry.withStatus]
  · simp [entry, publish, h]

@[simp] theorem entry_finalizeAs (h : Bytes32) (m n : ℕ) :
    (s.finalizeAs e id h m n).entry = update s.entry id { s.entry id with
      sub := { s.submissions id with permanenceHash := h, status := .finalized }
      info := ⟨s.bestScoreAtoms, n, s.creditRecoveryEndsAt⟩ } := by
  funext j
  by_cases hj : j = id
  · subst hj
    simp [entry, finalizeAs]
  · simp [entry, finalizeAs, hj]

@[simp] theorem entry_voidAs :
    (s.voidAs id).entry = update s.entry id ((s.entry id).withStatus .voided) := by
  funext j
  by_cases h : j = id
  · subst h
    simp [entry, voidAs, Entry.withStatus]
  · simp [entry, voidAs, h]

@[simp] theorem entry_markAs :
    (s.markAs id).entry = update s.entry id ((s.entry id).withStatus .challenged) := by
  funext j
  by_cases h : j = id
  · subst h
    simp [entry, markAs, Entry.withStatus]
  · simp [entry, markAs, h]

@[simp] theorem entry_rearmAs (t : ℕ) :
    (s.rearmAs id t).entry = update s.entry id ((s.entry id).rearm t) := by
  funext j
  by_cases h : j = id
  · subst h
    simp [entry, rearmAs, Entry.rearm]
  · simp [entry, rearmAs, h]

@[simp] theorem entry_clearReveal :
    (s.clearReveal id).entry = update s.entry id (s.entry id).clear := by
  funext j
  by_cases h : j = id
  · subst h
    simp [entry, clearReveal, Entry.clear]
  · simp [entry, clearReveal, h]

@[simp] theorem entry_withdraw (a : Address) : (s.withdraw a).entry = s.entry := rfl

end updates

/-! ### The turns of one submission -/

/-- The entry of a submission that leaves the open set without a winner. -/
def rejectedEntry (x : Entry) : Entry := (x.withStatus .rejected).withBond 0

/-- The entry of a finalized submission; an unpaid one gets its bond back at once. -/
def finalizedEntry (d : Deployment) (id : ℕ) (h : Bytes32) (s : SubmissionManager) : Entry :=
  { s.entry id with
    sub := { s.submissions id with
      permanenceHash := h, status := .finalized
      bondWei := if s.creditOf d id = 0 then 0 else (s.submissions id).bondWei }
    info := ⟨s.bestScoreAtoms, s.creditOf d id, s.creditRecoveryEndsAt⟩ }

/-- What one call can do to the entry of the submission `id`. -/
inductive Turn (d : Deployment) (e : Env) (l : PayoutLedger) (s : SubmissionManager) :
    ManagerCall → ℕ → Entry → Prop
  | addBond {id : ℕ} :
      (s.submissions id).status = .committed ∨ (s.submissions id).status = .revealed ∨
        (s.submissions id).status = .challenged →
      Turn d e l s (.topUpBond id) id ((s.entry id).withBond ((s.submissions id).bondWei + e.value))
  | reveal {id improvement : ℕ} {cid salt solution : Bytes} {claimed : ℤ} {r : RevealInstance} :
      (s.submissions id).status = .committed → s.requireCommitOpen d e id = .ok () →
      claimed < d.sm.seedScoreAtoms → minScoreAtomsBound < claimed →
      r.claimedScoreAtoms = claimed → r.challengeEndsAt = e.now + d.sm.challengeWindowSeconds →
      s.prioritySubmissionOf (d.crypto.keccak256 cid) = 0 ∨
        id < s.prioritySubmissionOf (d.crypto.keccak256 cid) →
      r.submissionId = id → r.Binds d (s.submissions id) →
      Turn d e l s (.reveal id cid claimed improvement salt solution) id
        (((s.entry id).record d e r (d.crypto.keccak256 cid)).withStatus .revealed)
  | yield {id improvement : ℕ} {cid salt solution : Bytes} {claimed : ℤ} {r : RevealInstance} :
      (s.submissions id).status = .committed →
      s.prioritySubmissionOf (d.crypto.keccak256 cid) ≠ 0 →
      s.prioritySubmissionOf (d.crypto.keccak256 cid) ≤ id →
      claimed < d.sm.seedScoreAtoms → minScoreAtomsBound < claimed →
      r.claimedScoreAtoms = claimed →
      Turn d e l s (.reveal id cid claimed improvement salt solution) id
        (rejectedEntry ((s.entry id).record d e r (d.crypto.keccak256 cid)))
  | retire {c : ManagerCall} {id : ℕ} :
      (s.submissions id).status = .committed ∨ (s.submissions id).status = .revealed ∨
        (s.submissions id).status = .challenged ∧ e.sender = s.challengeManager →
      Turn d e l s c id (rejectedEntry (s.entry id))
  | finalize {id : ℕ} {h : Bytes32} :
      s.pausedAll = false → (s.submissions id).status = .revealed →
      (s.submissions id).challengeEndsAt ≤ e.now → s.HasPriority id →
      (s.creditOf d id ≠ 0 → requireCollateral d (s.submissions id) = .ok ()) →
      Turn d e l s (.finalize id h) id (s.finalizedEntry d id h)
  | release {id : ℕ} :
      l.closed = true → (s.submissions id).status = .finalized →
      Turn d e l s (.releaseFinalizedBond id) id ((s.entry id).withBond 0)
  | void {id : ℕ} :
      (s.submissions id).status = .finalized →
      Turn d e l s (.voidFinalize id) id (((s.entry id).withStatus .voided).withBond 0)
  | mark {id : ℕ} :
      e.sender = s.challengeManager → (s.submissions id).status = .revealed →
      s.objectiveClearedRevealInstanceHashOf id ≠ s.revealInstanceHashOf id →
      e.now < (s.submissions id).challengeEndsAt →
      Turn d e l s (.markChallenged id) id ((s.entry id).withStatus .challenged)
  | rearm {c : ManagerCall} {id : ℕ} :
      (∃ beneficiary, c = .resolveChallenge id false beneficiary) ∨ c = .cancelChallenge id →
      e.sender = s.challengeManager → (s.submissions id).status = .challenged → s.HasPriority id →
      Turn d e l s c id ((s.entry id).rearm
        (min (e.now + d.sm.challengeWindowSeconds) (s.maxDisputeEndsAtOf id)))
  | clear {id : ℕ} {beneficiary : Address} :
      e.sender = s.challengeManager → (s.submissions id).status = .challenged → s.HasPriority id →
      Turn d e l s (.resolveObjectiveChallenge id false beneficiary) id ((s.entry id).rearm e.now).clear

/-- The entry of a new submission. -/
def committedEntry (sub : Submission) (t : ℕ) (s : SubmissionManager) : Entry :=
  { s.entry (s.submissionCount + 1) with
    sub := sub, committedActiveAt := t, paid := s.fundingArmed }

/-- What one call can do to the register: the count and the entries. -/
inductive Turns (d : Deployment) (e : Env) (l : PayoutLedger) (s : SubmissionManager)
    (c : ManagerCall) : ℕ → (ℕ → Entry) → Prop
  | none : Turns d e l s c s.submissionCount s.entry
  | commit {sub : Submission} {t : ℕ} :
      s.activeTimestamp e = .ok t → sub.solver = e.sender → sub.bondWei = e.value →
      sub.status = .committed → s.Accepts d e sub →
      Turns d e l s c (s.submissionCount + 1)
        (update s.entry (s.submissionCount + 1) (s.committedEntry sub t))
  | one {id : ℕ} {y : Entry} : Turn d e l s c id y →
      Turns d e l s c s.submissionCount (update s.entry id y)
  | two {id id' : ℕ} {y y' : Entry} : Turn d e l s c id y → Turn d e l s c id' y' → id' ≠ id →
      Turns d e l s c s.submissionCount (update (update s.entry id y) id' y')

/-- What no new submission and no turn breaks, no call breaks. -/
theorem Turns.forall {P : ℕ → Entry → Prop} {n : ℕ} {entries : ℕ → Entry}
    (h : Turns d e l s c n entries)
    (hcommit : ∀ sub t, s.activeTimestamp e = .ok t → sub.solver = e.sender →
      sub.status = .committed → s.Accepts d e sub →
      P (s.submissionCount + 1) (s.committedEntry sub t))
    (hturn : ∀ id y, Turn d e l s c id y → P id (s.entry id) → P id y)
    (hP : ∀ id, P id (s.entry id)) : ∀ id, P id (entries id) := by
  intro j
  cases h with
  | none => exact hP j
  | @commit sub t ht hsolver _ hstatus haccepts =>
      by_cases hj : j = s.submissionCount + 1
      · subst hj
        rw [update_self]
        exact hcommit sub t ht hsolver hstatus haccepts
      · rw [update_of_ne hj]
        exact hP j
  | @one id y hy =>
      by_cases hj : j = id
      · subst hj
        rw [update_self]
        exact hturn j y hy (hP j)
      · rw [update_of_ne hj]
        exact hP j
  | @two id id' y y' hy hy' hne =>
      by_cases hj' : j = id'
      · subst hj'
        rw [update_self]
        exact hturn j y' hy' (hP j)
      · rw [update_of_ne hj']
        by_cases hj : j = id
        · subst hj
          rw [update_self]
          exact hturn j y hy (hP j)
        · rw [update_of_ne hj]
          exact hP j

theorem rejectedEntry_eq (source : SubmissionStatus) (id : ℕ) (a : Address) (evs : List ManagerEvent) :
    (((s.retire id source .rejected).payBond id a).note evs).entry =
      update s.entry id (rejectedEntry (s.entry id)) := by
  rw [entry_note, entry_payBond, entry_retire, update_self, update_idem]
  rfl

/-- What a reveal leaves alone. -/
structure Reserve where
  pause : PauseState
  funding : FundingState
  frontier : FrontierState
  challengeManager : Address
  submissionCount : ℕ
  balance : ℕ

def reserve (s : SubmissionManager) : Reserve :=
  ⟨s.toPauseState, s.toFundingState, s.toFrontierState, s.challengeManager, s.submissionCount,
    s.balance⟩

theorem supersede_reserve (s : SubmissionManager) (id pid : ℕ) :
    (s.supersede id pid).reserve = s.reserve := by
  unfold supersede
  split <;> rfl

theorem takePriority_reserve (s : SubmissionManager) (id : ℕ) (h : Bytes32) :
    (s.takePriority id h).reserve = s.reserve := by
  unfold takePriority
  dsimp only
  split
  · rfl
  · rw [supersede_reserve]
    rfl

theorem supersede_turns {id pid : ℕ} {y : Entry} {t : SubmissionManager}
    (ht : t.entry = update s.entry id y) (hne : pid ≠ id) (hy : Turn d e l s c id y) :
    Turns d e l s c s.submissionCount (t.supersede id pid).entry := by
  have hpid : t.entry pid = s.entry pid := by rw [ht, update_of_ne hne]
  have hsub : t.submissions pid = s.submissions pid := congrArg Entry.sub hpid
  unfold supersede
  split
  · rename_i hs
    rw [rejectedEntry_eq, hpid, ht]
    exact .two hy (.retire (Or.inr (Or.inl (hsub ▸ hs)))) hne
  · rw [ht]
    exact .one hy

theorem takePriority_turns {id : ℕ} {h : Bytes32} {y : Entry} {t : SubmissionManager}
    (ht : ((t.setSolutionCidHash id h).publish id).entry = update s.entry id y)
    (hprio : s.prioritySubmissionOf h ≠ 0 → id < s.prioritySubmissionOf h)
    (hsame : t.prioritySubmissionOf = s.prioritySubmissionOf) (hy : Turn d e l s c id y) :
    Turns d e l s c s.submissionCount (t.takePriority id h).entry := by
  unfold takePriority
  dsimp only
  rw [hsame]
  split
  · rw [entry_note, ht]
    exact .one hy
  · rename_i hne
    have hlt := hprio hne
    exact supersede_turns (by rw [entry_note, ht]) (by omega) hy

theorem entry_finalized (id : ℕ) (h : Bytes32) :
    (s.finalized d e id h p).entry = update s.entry id (s.finalizedEntry d id h) := by
  unfold finalized finalizedEntry
  dsimp only
  rw [entry_note]
  split
  · rw [entry_payBond, entry_finalizeAs, update_self, update_idem]
    rfl
  · rw [entry_finalizeAs]

theorem finalized_submissionCount (id : ℕ) (h : Bytes32) :
    (s.finalized d e id h p).submissionCount = s.submissionCount := by
  unfold finalized
  dsimp only
  split <;> rfl

/-- Every move turns the register. -/
theorem Move.turns (h : Move d e l p s c s' l' f) : Turns d e l s c s'.submissionCount s'.entry := by
  cases h with
  | administer _ hadmin =>
      have hregister := hadmin.register
      have hfrontier := hadmin.frontier
      have hentry : s'.entry = s.entry := by
        funext id
        show Entry.mk (s'.toRegisterState.submissions id) (s'.toRegisterState.committedActiveAtOf id)
          (s'.toRegisterState.maxDisputeEndsAtOf id) (s'.toRegisterState.paidAtCommit id)
          (s'.toRegisterState.revealInstanceHashOf id)
          (s'.toRegisterState.objectiveClearedRevealInstanceHashOf id)
          (s'.toRegisterState.solutionCidHashOf id) (s'.toFrontierState.finalizeInfo id) = s.entry id
        rw [hregister, hfrontier]
        rfl
      have hcount : s'.submissionCount = s.submissionCount :=
        congrArg RegisterState.submissionCount hregister
      rw [hentry, hcount]
      exact .none
  | commit _ _ _ _ _ hactive hsolver hbond hstatus haccepts =>
      rw [entry_emit, entry_addCommit]
      exact .commit hactive hsolver hbond hstatus haccepts
  | addBond _ hstatus =>
      rw [entry_emit, entry_addBond]
      exact .one (.addBond hstatus)
  | @reveal id improvement cid salt solution claimed r maxDisputeEndsAt recorded _ _ hstatus hopen
      hseed hbound hid hcid hclaimed hends hmax hrec hbinds =>
      subst hmax hrec
      rw [entry_emit]
      split
      · rename_i hprio
        have hcount : ((s.recordReveal d e id r (e.now + d.sm.challengeWindowSeconds *
            maxCumulativeDisputeWindows)).takePriority id (d.crypto.keccak256 cid)).submissionCount =
              s.submissionCount :=
          congrArg Reserve.submissionCount (takePriority_reserve _ id (d.crypto.keccak256 cid))
        rw [emit_submissionCount, hcount]
        refine takePriority_turns ?_ (fun hne => hprio.resolve_left hne) rfl
          (.reveal hstatus hopen hseed hbound hclaimed hends hprio hid hbinds)
        rw [entry_publish, entry_recordReveal, update_self, update_idem]
      · rename_i hprio
        rw [not_or, not_lt] at hprio
        rw [yieldPriority, rejectedEntry_eq, entry_recordReveal, update_self, update_idem]
        exact .one (.yield hstatus hprio.1 hprio.2 hseed hbound hclaimed)
  | @retire _ id source claimant _ evs _ hstatus hsource _ =>
      rw [rejectedEntry_eq]
      refine .one (.retire ?_)
      rw [hstatus]
      exact hsource
  | @finalize id h _ hp _ hstatus hends hprio hcredit =>
      rw [entry_finalized, finalized_submissionCount]
      refine .one (.finalize hp hstatus hends hprio (fun hne => ?_))
      rw [if_neg hne] at hcredit
      exact hcredit.1
  | release hclosed _ hstatus =>
      rw [entry_payBond]
      exact .one (.release hclosed hstatus)
  | void _ _ _ hstatus _ _ _ =>
      rw [voided, entry_note, entry_payBond, entry_voidAs, update_self, update_idem]
      exact .one (.void hstatus)
  | mark hsender _ hstatus hclear hends =>
      rw [entry_note, entry_markAs]
      exact .one (.mark hsender hstatus hclear hends)
  | rearm evs hcall hsender _ hstatus hprio ht _ =>
      subst ht
      rw [entry_note, entry_rearmAs]
      exact .one (.rearm hcall hsender hstatus hprio)
  | clear evs hsender _ hstatus hprio _ =>
      rw [entry_note, entry_clearReveal, entry_rearmAs, update_self, update_idem]
      exact .one (.clear hsender hstatus hprio)
  | withdraw =>
      rw [entry_withdraw]
      exact .none

theorem Turns.le {n : ℕ} {entries : ℕ → Entry} (h : Turns d e l s c n entries) :
    s.submissionCount ≤ n := by
  cases h with
  | commit => exact Nat.le_succ _
  | _ => exact le_rfl

/-- The entry of a submission that exists already changes by a turn or not at all. -/
theorem Turns.of_le {n id : ℕ} {entries : ℕ → Entry} (h : Turns d e l s c n entries)
    (hid : id ≤ s.submissionCount) : entries id = s.entry id ∨ Turn d e l s c id (entries id) := by
  cases h with
  | none => exact Or.inl rfl
  | commit =>
      left
      rw [update_of_ne (by omega)]
  | @one j y hy =>
      by_cases hj : id = j
      · subst hj
        rw [update_self]
        exact Or.inr hy
      · left
        rw [update_of_ne hj]
  | @two j j' y y' hy hy' hne =>
      by_cases hj' : id = j'
      · subst hj'
        rw [update_self]
        exact Or.inr hy'
      · rw [update_of_ne hj']
        by_cases hj : id = j
        · subst hj
          rw [update_self]
          exact Or.inr hy
        · left
          rw [update_of_ne hj]

/-- What a turn never changes. -/
theorem Turn.fixed {id : ℕ} {y : Entry} (h : Turn d e l s c id y) :
    y.committedActiveAt = s.committedActiveAtOf id ∧ y.paid = s.paidAtCommit id := by
  cases h <;> exact ⟨rfl, rfl⟩

/-! ### The shape of the register -/

/-- The submissions are the ids from `1` to `n`. -/
structure Registered (n : ℕ) (entries : ℕ → Entry) : Prop where
  solver : ∀ id, (entries id).sub.solver ≠ 0 ↔ 1 ≤ id ∧ id ≤ n
  status : ∀ id, (entries id).sub.status = .none ↔ (entries id).sub.solver = 0
  bond : ∀ id, (entries id).sub.solver = 0 → (entries id).sub.bondWei = 0

theorem Registered.le {n id : ℕ} {entries : ℕ → Entry} (h : Registered n entries)
    (hid : (entries id).sub.status ≠ .none) : 1 ≤ id ∧ id ≤ n :=
  (h.solver id).mp (fun hsolver => hid ((h.status id).mpr hsolver))

/-- A turn is about a submission that exists, and keeps its solver. -/
theorem Turn.registered {id : ℕ} {y : Entry} (h : Turn d e l s c id y) :
    y.sub.solver = (s.submissions id).solver ∧ (s.submissions id).status ≠ .none ∧
      y.sub.status ≠ .none := by
  cases h with
  | addBond hstatus =>
      have hne : (s.submissions id).status ≠ .none := by
        obtain h | h | h := hstatus <;> simp [h]
      exact ⟨rfl, hne, hne⟩
  | reveal hstatus => exact ⟨rfl, by simp [hstatus], by simp [Entry.withStatus]⟩
  | yield hstatus =>
      exact ⟨rfl, by simp [hstatus], by simp [rejectedEntry, Entry.withStatus, Entry.withBond]⟩
  | retire hstatus =>
      have hne : (s.submissions id).status ≠ .none := by
        obtain h | h | h := hstatus <;> simp [h]
      exact ⟨rfl, hne, by simp [rejectedEntry, Entry.withStatus, Entry.withBond]⟩
  | finalize _ hstatus => exact ⟨rfl, by simp [hstatus], by simp [finalizedEntry]⟩
  | release _ hstatus => exact ⟨rfl, by simp [hstatus], by simp [Entry.withBond, entry, hstatus]⟩
  | void hstatus => exact ⟨rfl, by simp [hstatus], by simp [Entry.withStatus, Entry.withBond]⟩
  | mark _ hstatus => exact ⟨rfl, by simp [hstatus], by simp [Entry.withStatus]⟩
  | rearm _ _ hstatus => exact ⟨rfl, by simp [hstatus], by simp [Entry.rearm]⟩
  | clear _ hstatus => exact ⟨rfl, by simp [hstatus], by simp [Entry.rearm, Entry.clear]⟩

theorem Registered.update {n id : ℕ} {entries : ℕ → Entry} {y : Entry} (h : Registered n entries)
    (hsolver : y.sub.solver = (entries id).sub.solver) (hne : (entries id).sub.status ≠ .none)
    (hne' : y.sub.status ≠ .none) : Registered n (update entries id y) := by
  have hs : (entries id).sub.solver ≠ 0 := fun hzero => hne ((h.status id).mpr hzero)
  constructor
  · intro j
    by_cases hj : j = id
    · subst hj
      rw [update_self, hsolver]
      exact h.solver j
    · rw [update_of_ne hj]
      exact h.solver j
  · intro j
    by_cases hj : j = id
    · subst hj
      rw [update_self, hsolver]
      simp only [hne', hs]
    · rw [update_of_ne hj]
      exact h.status j
  · intro j hzero
    by_cases hj : j = id
    · subst hj
      rw [update_self, hsolver] at hzero
      exact absurd hzero hs
    · rw [update_of_ne hj] at hzero ⊢
      exact h.bond j hzero

theorem Turns.registered {n : ℕ} {entries : ℕ → Entry} (h : Turns d e l s c n entries)
    (hsender : e.sender ≠ 0) (hr : Registered s.submissionCount s.entry) : Registered n entries := by
  cases h with
  | none => exact hr
  | @commit sub t _ hsolver _ hstatus =>
      have hsub : (s.committedEntry sub t).sub = sub := rfl
      constructor
      · intro j
        by_cases hj : j = s.submissionCount + 1
        · subst hj
          rw [update_self, hsub, hsolver]
          exact ⟨fun _ => ⟨by omega, le_rfl⟩, fun _ => hsender⟩
        · rw [update_of_ne hj, hr.solver]
          omega
      · intro j
        by_cases hj : j = s.submissionCount + 1
        · subst hj
          rw [update_self, hsub, hsolver, hstatus]
          exact ⟨fun hnone => (nomatch hnone), fun hzero => absurd hzero hsender⟩
        · rw [update_of_ne hj]
          exact hr.status j
      · intro j hzero
        by_cases hj : j = s.submissionCount + 1
        · subst hj
          rw [update_self, hsub, hsolver] at hzero
          exact absurd hzero hsender
        · rw [update_of_ne hj] at hzero ⊢
          exact hr.bond j hzero
  | one hy =>
      obtain ⟨hsolver, hne, hne'⟩ := hy.registered
      exact hr.update hsolver hne hne'
  | two hy hy' hid =>
      obtain ⟨hsolver, hne, hne'⟩ := hy.registered
      obtain ⟨hsolver₂, hne₂, hne₂'⟩ := hy'.registered
      refine (hr.update hsolver hne hne').update ?_ ?_ hne₂'
      · rw [update_of_ne hid]
        exact hsolver₂
      · rw [update_of_ne hid]
        exact hne₂

end SubmissionManager

namespace SubmissionManager

variable {d : Deployment} {e : Env} {l l' : PayoutLedger} {p : BountyPool}
  {s s' : SubmissionManager} {c : ManagerCall} {f : List Frame}

theorem Move.reserve_of_reveal (h : Move d e l p s c s' l' f) (hc : c.IsReveal) :
    s'.reserve = s.reserve := by
  cases h with
  | @reveal id _ cid _ _ _ _ _ recorded _ _ _ _ _ _ _ _ _ _ _ hrec =>
      have hsame : recorded.reserve = s.reserve := by rw [hrec]; rfl
      show (if _ then recorded.takePriority id (d.crypto.keccak256 cid)
        else recorded.yieldPriority id (d.crypto.keccak256 cid)).reserve = s.reserve
      split
      · rw [takePriority_reserve, hsame]
      · exact hsame
  | administer hnot => exact absurd hc hnot
  | retire hnot => exact absurd hc hnot
  | rearm evs hcall => obtain ⟨_, rfl⟩ | rfl := hcall <;> exact hc.elim
  | _ => exact hc.elim

/-- Whatever else a call does, it moves the pauses by `PauseMove`. -/
theorem Move.pause (h : Move d e l p s c s' l' f) :
    PauseMove d e s.toPauseState s'.toPauseState := by
  have hkeep : PauseMove d e s.toPauseState s.toPauseState := .keep s.pausedNewActions
  by_cases hc : c.IsReveal
  · have hsame : s'.toPauseState = s.toPauseState := congrArg Reserve.pause (h.reserve_of_reveal hc)
    rw [hsame]
    exact hkeep
  cases h with
  | administer _ hadmin => exact hadmin.pause
  | reveal => exact absurd trivial hc
  | finalize =>
      unfold finalized
      dsimp only
      split <;> exact hkeep
  | _ => exact hkeep

/-- A call adds no ETH beyond its value. -/
theorem Move.balance_le (h : Move d e l p s c s' l' f) : s'.balance ≤ s.balance := by
  by_cases hc : c.IsReveal
  · exact (congrArg Reserve.balance (h.reserve_of_reveal hc)).le
  cases h with
  | administer _ hadmin => exact (congrArg BondState.balance hadmin.bonds).le
  | reveal => exact absurd trivial hc
  | finalize =>
      unfold finalized
      dsimp only
      split <;> exact le_rfl
  | withdraw => exact Nat.sub_le _ _
  | _ => exact le_rfl

/-- The pointer to the challenge manager is set once. -/
theorem Move.challengeManager (h : Move d e l p s c s' l' f) :
    s.challengeManager = 0 ∨ s'.challengeManager = s.challengeManager := by
  by_cases hc : c.IsReveal
  · exact Or.inr (congrArg Reserve.challengeManager (h.reserve_of_reveal hc))
  cases h with
  | administer _ hadmin => exact hadmin.manager
  | reveal => exact absurd trivial hc
  | finalize =>
      unfold finalized
      dsimp only
      split <;> exact Or.inr rfl
  | _ => exact Or.inr rfl

/-- The submissions can be counted in a word. -/
theorem Move.submissionCount_lt (h : Move d e l p s c s' l' f)
    (hlt : s.submissionCount < 2 ^ 256) : s'.submissionCount < 2 ^ 256 := by
  by_cases hc : c.IsReveal
  · have hsame : s'.submissionCount = s.submissionCount :=
      congrArg Reserve.submissionCount (h.reserve_of_reveal hc)
    rw [hsame]
    exact hlt
  cases h with
  | administer _ hadmin =>
      have hsame : s'.submissionCount = s.submissionCount :=
        congrArg RegisterState.submissionCount hadmin.register
      rw [hsame]
      exact hlt
  | commit _ _ hcount => exact hcount
  | reveal => exact absurd trivial hc
  | finalize =>
      unfold finalized
      dsimp only
      split <;> exact hlt
  | _ => exact hlt

end SubmissionManager

/-- **Invariant rule of the submission manager.**  What neither a call nor a change of its bonds
and its events breaks holds in every reachable state. -/
theorem manager_invariant {d : Deployment} {P : SubmissionManager → Prop}
    (hinit : ∀ block wiring, P (d.genesis block wiring).sm)
    (hbonds : ∀ s bonds evs, (∀ ev ∈ evs, ∃ a n, ev = .bondClaimed a n) → P s →
      P { s with toBondState := bonds, logs := evs ++ s.logs })
    (hcall : ∀ {e : Env} {c : ManagerCall} {l l' : PayoutLedger} {p : BountyPool}
      {s s' : SubmissionManager} {f : List Frame}, e.sender ≠ 0 → P s →
      SubmissionManager.Move d e l p s c s' l' f → P s')
    {C : World → Action → Prop} {w : World} (h : d.protocol.Reachable C w) : P w.sm := by
  refine h.invariant (P := fun w => P w.sm) ?_ ?_
  · rintro _ ⟨block, wiring, -, -, rfl⟩
    exact hinit block wiring
  · intro w a w' _ hP _ hstep
    cases manager_stepped hstep with
    | quiet _ hsm _ _ => rw [hsm]; exact hP
    | eth amount _ _ hsm _ _ =>
        rw [hsm]
        exact hbonds w.sm _ [] (fun _ hev => (nomatch hev)) hP
    | finish claimant amount _ _ _ hsm =>
        rw [hsm]
        exact hbonds w.sm _ [.bondClaimed claimant amount]
          (fun _ hev => ⟨claimant, amount, List.mem_singleton.mp hev⟩) hP
    | call e c f _ _ hsender _ _ hrun _ _ _ =>
        exact hcall hsender (hbonds w.sm _ [] (fun _ hev => (nomatch hev)) hP)
          (SubmissionManager.move_of_run hrun)

theorem manager_balance_lt {d : Deployment} {C : World → Action → Prop} {w : World}
    (h : d.protocol.Reachable C w) : w.sm.balance < 2 ^ 256 := by
  refine h.invariant (P := fun w => w.sm.balance < 2 ^ 256) ?_ ?_
  · rintro _ ⟨block, wiring, -, -, rfl⟩
    exact Nat.two_pow_pos 256
  · intro w a w' _ hP _ hstep
    cases manager_stepped hstep with
    | quiet _ hsm _ _ => rw [hsm]; exact hP
    | eth amount _ hlt hsm _ _ => rw [hsm]; exact hlt
    | finish claimant amount _ _ _ hsm => rw [hsm]; exact hP
    | call e c f _ _ _ _ hbal hrun _ _ _ =>
        exact lt_of_le_of_lt (SubmissionManager.move_of_run hrun).balance_le (hbal hP)

theorem submissionCount_lt {d : Deployment} {C : World → Action → Prop} {w : World}
    (h : d.protocol.Reachable C w) : w.sm.submissionCount < 2 ^ 256 :=
  manager_invariant (P := fun s => s.submissionCount < 2 ^ 256) (fun _ _ => Nat.two_pow_pos 256)
    (fun _ _ _ _ hP => hP) (fun _ hP hmove => hmove.submissionCount_lt hP) h

theorem submissionCount_le {d : Deployment} {w w' : World} {a : Action}
    (h : w.step d a = some w') : w.sm.submissionCount ≤ w'.sm.submissionCount := by
  cases manager_stepped h with
  | quiet _ hsm _ _ => rw [hsm]
  | eth amount _ _ hsm _ _ => rw [hsm]
  | finish claimant amount _ _ _ hsm => rw [hsm]; exact le_rfl
  | call e c f _ _ _ _ _ hrun _ _ _ => exact (SubmissionManager.move_of_run hrun).turns.le

theorem registered_genesis (d : Deployment) (block : Block) (wiring : Wiring) :
    SubmissionManager.Registered 0 (d.genesis block wiring).sm.entry := by
  refine ⟨fun id => ⟨fun h => absurd rfl h, fun h => ?_⟩, fun id => ⟨fun _ => rfl, fun _ => rfl⟩,
    fun _ _ => rfl⟩
  have hle := h.2
  omega

theorem registered_of_reachable {d : Deployment} {C : World → Action → Prop} {w : World}
    (h : d.protocol.Reachable C w) :
    SubmissionManager.Registered w.sm.submissionCount w.sm.entry :=
  manager_invariant (P := fun s => SubmissionManager.Registered s.submissionCount s.entry)
    (registered_genesis d) (fun _ _ _ _ hP => hP)
    (fun hsender hP hmove => hmove.turns.registered hsender hP) h

/-! ### The counters -/

namespace SubmissionManager

variable {d : Deployment} {e : Env} {l l' : PayoutLedger} {p : BountyPool}
  {s s' t : SubmissionManager} {c : ManagerCall} {f : List Frame} {id : ℕ}

/-- The sum of a weight over the statuses of all submissions. -/
def tally (g : SubmissionStatus → ℕ) (s : SubmissionManager) : ℕ :=
  ∑ id ∈ range (s.submissionCount + 1), g (s.submissions id).status

theorem tally_update (g : SubmissionStatus → ℕ) {sub : Submission}
    (hn : t.submissionCount = s.submissionCount)
    (hs : t.submissions = update s.submissions id sub) (hid : id ≤ s.submissionCount) :
    t.tally g + g (s.submissions id).status = s.tally g + g sub.status := by
  have h := sum_comp_update (range (s.submissionCount + 1)) (fun sub => g sub.status)
    s.submissions (mem_range.mpr (Nat.lt_succ_of_le hid)) sub
  rw [tally, tally, hn, hs]
  exact h

theorem tally_congr (g : SubmissionStatus → ℕ) (hn : t.submissionCount = s.submissionCount)
    (hs : ∀ j, (t.submissions j).status = (s.submissions j).status) : t.tally g = s.tally g := by
  rw [tally, tally, hn]
  exact sum_congr rfl (fun j _ => by rw [hs j])

def openWeight : SubmissionStatus → ℕ
  | .committed => 1
  | .revealed => 1
  | .challenged => 1
  | _ => 0

def revealedWeight : SubmissionStatus → ℕ
  | .revealed => 1
  | _ => 0

def challengedWeight : SubmissionStatus → ℕ
  | .challenged => 1
  | _ => 0

/-- The counters count. -/
structure Counted (s : SubmissionManager) : Prop where
  opened : s.openSubmissionCount = s.tally openWeight
  revealed : s.revealedSubmissionCount = s.tally revealedWeight
  challenged : s.challengedSubmissionCount = s.tally challengedWeight

/-- A submission of positive weight makes the tally positive. -/
theorem le_tally (g : SubmissionStatus → ℕ) (hid : id ≤ s.submissionCount) :
    g (s.submissions id).status ≤ s.tally g :=
  single_le_sum (f := fun id => g (s.submissions id).status) (fun _ _ => Nat.zero_le _)
    (mem_range.mpr (Nat.lt_succ_of_le hid))

/-- An update that leaves the counters and the statuses alone. -/
theorem Counted.congr (h : Counted s) (hn : t.submissionCount = s.submissionCount)
    (hs : ∀ j, (t.submissions j).status = (s.submissions j).status)
    (ho : t.openSubmissionCount = s.openSubmissionCount)
    (hr : t.revealedSubmissionCount = s.revealedSubmissionCount)
    (hc : t.challengedSubmissionCount = s.challengedSubmissionCount) : Counted t :=
  ⟨by rw [ho, h.opened, tally_congr _ hn hs], by rw [hr, h.revealed, tally_congr _ hn hs],
    by rw [hc, h.challenged, tally_congr _ hn hs]⟩

/-- An update of one status that moves the counters by the weights. -/
theorem Counted.move (h : Counted s) {sub : Submission}
    (hn : t.submissionCount = s.submissionCount)
    (hs : t.submissions = update s.submissions id sub) (hid : id ≤ s.submissionCount)
    (ho : t.openSubmissionCount =
      s.openSubmissionCount + openWeight sub.status - openWeight (s.submissions id).status)
    (hr : t.revealedSubmissionCount = s.revealedSubmissionCount + revealedWeight sub.status -
      revealedWeight (s.submissions id).status)
    (hc : t.challengedSubmissionCount = s.challengedSubmissionCount +
      challengedWeight sub.status - challengedWeight (s.submissions id).status) : Counted t := by
  have h₁ := tally_update openWeight hn hs hid
  have h₂ := tally_update revealedWeight hn hs hid
  have h₃ := tally_update challengedWeight hn hs hid
  have h₄ := h.opened
  have h₅ := h.revealed
  have h₆ := h.challenged
  exact ⟨by omega, by omega, by omega⟩

theorem Counted.payBond (h : Counted s) (id : ℕ) (a : Address) : Counted (s.payBond id a) := by
  refine h.congr rfl (fun j => ?_) rfl rfl rfl
  by_cases hj : j = id
  · subst hj
    simp [SubmissionManager.payBond]
  · simp [SubmissionManager.payBond, hj]

theorem Counted.note (h : Counted s) (evs : List ManagerEvent) : Counted (s.note evs) :=
  h.congr rfl (fun _ => rfl) rfl rfl rfl

theorem Counted.emit (h : Counted s) (ev : ManagerEvent) : Counted (s.emit ev) :=
  h.congr rfl (fun _ => rfl) rfl rfl rfl

theorem Counted.retire (h : Counted s) {source : SubmissionStatus} (hid : id ≤ s.submissionCount)
    (hstatus : (s.submissions id).status = source)
    (hsource : source = .committed ∨ source = .revealed ∨ source = .challenged) :
    Counted (s.retire id source .rejected) := by
  refine h.move rfl rfl hid ?_ ?_ ?_
  · obtain rfl | rfl | rfl := hsource <;> rw [hstatus] <;> rfl
  · obtain rfl | rfl | rfl := hsource <;> rw [hstatus] <;> rfl
  · obtain rfl | rfl | rfl := hsource <;> rw [hstatus] <;> rfl

theorem Counted.publish (h : Counted s) (hid : id ≤ s.submissionCount)
    (hstatus : (s.submissions id).status = .committed) : Counted (s.publish id) := by
  refine h.move rfl rfl hid ?_ ?_ ?_ <;> rw [hstatus] <;> rfl

theorem Counted.supersede (h : Counted s) (id : ℕ) {pid : ℕ}
    (hpid : (s.submissions pid).status = .revealed → pid ≤ s.submissionCount) :
    Counted (s.supersede id pid) := by
  unfold SubmissionManager.supersede
  split
  · rename_i hs
    exact ((h.retire (hpid hs) hs (Or.inr (Or.inl rfl))).payBond _ _).note _
  · exact h

theorem Counted.takePriority {hash : Bytes32} (h : Counted (s.setSolutionCidHash id hash))
    (hid : id ≤ s.submissionCount)
    (hstatus : ((s.setSolutionCidHash id hash).submissions id).status = .committed)
    (hprio : s.prioritySubmissionOf hash ≠ 0 → id < s.prioritySubmissionOf hash)
    (hle : ∀ pid, pid ≠ id → (s.submissions pid).status = .revealed → pid ≤ s.submissionCount) :
    Counted (s.takePriority id hash) := by
  unfold SubmissionManager.takePriority
  have hpublished := (h.publish hid hstatus).note [.duplicatePriorityAssigned hash id]
  dsimp only
  split
  · exact hpublished
  · rename_i hne
    refine hpublished.supersede id (fun hs => ?_)
    have hpid : s.prioritySubmissionOf hash ≠ id := ne_of_gt (hprio hne)
    have hsame : ((((s.setSolutionCidHash id hash).publish id).note
        [.duplicatePriorityAssigned hash id]).submissions (s.prioritySubmissionOf hash)).status =
          (s.submissions (s.prioritySubmissionOf hash)).status := by
      simp [SubmissionManager.note, SubmissionManager.publish, setSolutionCidHash, hpid]
    exact hle _ hpid (hsame ▸ hs)

theorem Counted.recorded (h : Counted s) (d : Deployment) (e : Env) (id : ℕ) (r : RevealInstance)
    (t : ℕ) (hash : Bytes32) :
    Counted ((s.recordReveal d e id r t).setSolutionCidHash id hash) := by
  refine h.congr rfl (fun j => ?_) rfl rfl rfl
  by_cases hj : j = id
  · subst hj
    simp [recordReveal, setSolutionCidHash, modify]
  · simp [recordReveal, setSolutionCidHash, modify, hj]

theorem Move.counted (h : Move d e l p s c s' l' f) (hr : Registered s.submissionCount s.entry)
    (hcount : Counted s) : Counted s' := by
  have hle : ∀ {id : ℕ} {status : SubmissionStatus}, (s.submissions id).status = status →
      status ≠ .none → id ≤ s.submissionCount := by
    intro id status hs hne
    have hentry : (s.entry id).sub.status ≠ .none := hs.symm ▸ hne
    exact (hr.le hentry).2
  cases h with
  | administer _ hadmin =>
      have hregister := hadmin.register
      refine hcount.congr ?_ (fun j => ?_) ?_ ?_ ?_
      · exact congrArg RegisterState.submissionCount hregister
      · exact congrArg (fun r => (r.submissions j).status) hregister
      · exact congrArg RegisterState.openSubmissionCount hregister
      · exact congrArg RegisterState.revealedSubmissionCount hregister
      · exact congrArg RegisterState.challengedSubmissionCount hregister
  | @commit _ _ sub required t _ _ _ _ _ _ _ _ hstatus =>
      refine Counted.emit ?_ _
      have hsum : ∀ g : SubmissionStatus → ℕ,
          (s.addCommit sub (e.block.number % 2 ^ 64) t s.fundingArmed).tally g =
            s.tally g + g .committed := by
        intro g
        rw [tally, tally, addCommit]
        dsimp only
        rw [sum_range_succ, update_self, hstatus]
        congr 1
        refine sum_congr rfl (fun j hj => ?_)
        have hlt := mem_range.mp hj
        rw [update_of_ne (by omega)]
      exact ⟨by rw [hsum, ← hcount.opened]; rfl, by rw [hsum, ← hcount.revealed]; rfl,
        by rw [hsum, ← hcount.challenged]; rfl⟩
  | @addBond id =>
      refine (hcount.congr (t := s.addBond id e.value) rfl (fun j => ?_) rfl rfl rfl).emit _
      by_cases hj : j = id
      · subst hj
        simp [SubmissionManager.addBond]
      · simp [SubmissionManager.addBond, hj]
  | @reveal id _ cid _ _ _ r _ recorded _ _ hstatus _ _ _ _ _ _ _ hmax hrec =>
      subst hrec
      have hid := hle hstatus (by decide)
      refine Counted.emit ?_ _
      have hrecorded := fun t => hcount.recorded d e id r t (d.crypto.keccak256 cid)
      have hrstatus : ∀ t, (((s.recordReveal d e id r t).setSolutionCidHash id
          (d.crypto.keccak256 cid)).submissions id).status = .committed := by
        intro t
        simp [recordReveal, setSolutionCidHash, modify, hstatus]
      split
      · rename_i hprio
        refine (hrecorded _).takePriority hid (hrstatus _) (fun hne => hprio.resolve_left hne) ?_
        intro pid hpid hs
        simp only [recordReveal, modify, update_of_ne hpid] at hs
        exact hle hs (by decide)
      · exact (((hrecorded _).retire hid (hrstatus _) (Or.inl rfl)).payBond _ _).note _
  | @retire _ id source a _ evs _ hstatus hsource _ =>
      refine ((hcount.retire (hle hstatus ?_) hstatus ?_).payBond _ _).note _
      · obtain rfl | rfl | ⟨rfl, -⟩ := hsource <;> decide
      · obtain rfl | rfl | ⟨rfl, -⟩ := hsource <;> simp
  | @finalize id h _ _ _ hstatus _ _ _ =>
      have hfinal : Counted (s.finalizeAs e id h (s.gain d (s.submissions id).claimedScoreAtoms)
          (s.creditOf d id)) := by
        refine hcount.move rfl rfl (hle hstatus (by decide)) ?_ ?_ ?_ <;> rw [hstatus] <;> rfl
      unfold finalized
      dsimp only
      split
      · exact (hfinal.payBond _ _).note _
      · exact hfinal.note _
  | release => exact hcount.payBond _ _
  | @void id _ _ _ _ hstatus _ _ _ =>
      refine ((hcount.move (t := s.voidAs id) rfl rfl (hle hstatus (by decide)) ?_ ?_ ?_).payBond
        _ _).note _ <;> rw [hstatus] <;> rfl
  | @mark id _ _ hstatus _ _ =>
      refine (hcount.move (t := s.markAs id) rfl rfl (hle hstatus (by decide)) ?_ ?_ ?_).note
        _ <;> rw [hstatus] <;> rfl
  | @rearm _ id t evs _ _ _ hstatus _ _ _ =>
      refine (hcount.move (t := s.rearmAs id t) rfl rfl (hle hstatus (by decide)) ?_ ?_ ?_).note
        _ <;> rw [hstatus] <;> rfl
  | @clear id _ evs _ _ hstatus _ _ =>
      refine ((hcount.move (t := s.rearmAs id e.now) rfl rfl (hle hstatus (by decide)) ?_ ?_
        ?_).congr (t := (s.rearmAs id e.now).clearReveal id) rfl (fun _ => rfl) rfl rfl rfl).note
          _ <;> rw [hstatus] <;> rfl
  | withdraw => exact hcount.congr rfl (fun _ => rfl) rfl rfl rfl

end SubmissionManager

theorem counted_of_reachable {d : Deployment} {C : World → Action → Prop} {w : World}
    (h : d.protocol.Reachable C w) : w.sm.Counted := by
  have hboth := manager_invariant
    (P := fun s => SubmissionManager.Registered s.submissionCount s.entry ∧ s.Counted)
    (fun block wiring => ⟨registered_genesis d block wiring, rfl, rfl, rfl⟩)
    (fun s bonds evs _ hP => ⟨hP.1, hP.2.congr rfl (fun _ => rfl) rfl rfl rfl⟩)
    (fun hsender hP hmove => ⟨hmove.turns.registered hsender hP.1, hmove.counted hP.1 hP.2⟩) h
  exact hboth.2

end P42Prizes
