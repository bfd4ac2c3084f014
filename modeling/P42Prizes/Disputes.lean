import P42Prizes.ChallengeBonds
import P42Prizes.PostingBonds

/-! # Disputes end

The submission manager and the challenge manager each know which submissions are disputed: one by
the status `challenged`, the other by an open slot.  `Agreed` says that they agree, and that no
deadline of a dispute lies behind the horizon `maxDisputeEndsAtOf` which the reveal has fixed.
From there on one of `expireChallenge` and `finalizeResolution` goes through, whoever calls it. -/

namespace P42Prizes

open Reverting Function Transition Finset

/-! ### The horizon of a submission -/

/-- The horizon of a submission is fixed when it is revealed, and its challenge window stays
within it unless the submission was cleared. -/
structure Entry.Bounded (d : Deployment) (x : Entry) : Prop where
  fresh : x.sub.status = .none ∨ x.sub.status = .committed → x.maxDisputeEndsAt = 0
  horizon : x.sub.status = .revealed ∨ x.sub.status = .challenged →
    x.maxDisputeEndsAt =
      x.sub.revealedAt + d.sm.challengeWindowSeconds * maxCumulativeDisputeWindows
  window : x.sub.status = .revealed ∨ x.sub.status = .challenged →
    x.sub.challengeEndsAt ≤ x.maxDisputeEndsAt ∨ x.clearedHash = x.revealHash

namespace SubmissionManager

variable {d : Deployment} {e : Env} {l l' : PayoutLedger} {p : BountyPool}
  {s s' : SubmissionManager} {c : ManagerCall} {f : List Frame} {id : ℕ}

theorem Turn.bounded {y : Entry} (h : Turn d e l s c id y) (hb : (s.entry id).Bounded d) :
    y.Bounded d := by
  cases h with
  | addBond => exact ⟨hb.fresh, hb.horizon, hb.window⟩
  | @reveal _ _ _ _ _ _ r _ _ _ _ _ hends =>
      refine ⟨fun h => h.elim (nomatch ·) (nomatch ·), fun _ => rfl, fun _ => Or.inl ?_⟩
      show r.challengeEndsAt ≤ e.now + d.sm.challengeWindowSeconds * maxCumulativeDisputeWindows
      rw [hends, maxCumulativeDisputeWindows]
      omega
  | yield => exact ⟨fun h => h.elim (nomatch ·) (nomatch ·),
      fun h => h.elim (nomatch ·) (nomatch ·), fun h => h.elim (nomatch ·) (nomatch ·)⟩
  | retire => exact ⟨fun h => h.elim (nomatch ·) (nomatch ·),
      fun h => h.elim (nomatch ·) (nomatch ·), fun h => h.elim (nomatch ·) (nomatch ·)⟩
  | finalize => exact ⟨fun h => h.elim (nomatch ·) (nomatch ·),
      fun h => h.elim (nomatch ·) (nomatch ·), fun h => h.elim (nomatch ·) (nomatch ·)⟩
  | release => exact ⟨hb.fresh, hb.horizon, hb.window⟩
  | void => exact ⟨fun h => h.elim (nomatch ·) (nomatch ·),
      fun h => h.elim (nomatch ·) (nomatch ·), fun h => h.elim (nomatch ·) (nomatch ·)⟩
  | mark _ hstatus =>
      exact ⟨fun h => h.elim (nomatch ·) (nomatch ·), fun _ => hb.horizon (Or.inl hstatus),
        fun _ => hb.window (Or.inl hstatus)⟩
  | rearm _ _ hstatus =>
      exact ⟨fun h => h.elim (nomatch ·) (nomatch ·), fun _ => hb.horizon (Or.inr hstatus),
        fun _ => Or.inl (min_le_right _ _)⟩
  | clear _ hstatus =>
      exact ⟨fun h => h.elim (nomatch ·) (nomatch ·), fun _ => hb.horizon (Or.inr hstatus),
        fun _ => Or.inr rfl⟩

/-- A horizon never moves back. -/
theorem Turn.horizon_le {y : Entry} (h : Turn d e l s c id y) (hb : (s.entry id).Bounded d) :
    s.maxDisputeEndsAtOf id ≤ y.maxDisputeEndsAt := by
  cases h with
  | reveal hstatus =>
      have hzero : s.maxDisputeEndsAtOf id = 0 := hb.fresh (Or.inr hstatus)
      rw [hzero]
      exact Nat.zero_le _
  | yield hstatus =>
      have hzero : s.maxDisputeEndsAtOf id = 0 := hb.fresh (Or.inr hstatus)
      rw [hzero]
      exact Nat.zero_le _
  | _ => exact le_rfl

theorem Move.bounded (h : Move d e l p s c s' l' f) (hr : Registered s.submissionCount s.entry)
    (hb : ∀ id, (s.entry id).Bounded d) : ∀ id, (s'.entry id).Bounded d := by
  refine h.turns.forall (P := fun _ x => x.Bounded d) ?_ (fun _ _ hturn hy => hturn.bounded hy) hb
  intro sub t _ _ hstatus _
  have hcommitted : (s.committedEntry sub t).sub.status = .committed := hstatus
  have hnone : (s.entry (s.submissionCount + 1)).sub.status = .none := by
    by_contra hne
    have hle := (hr.le hne).2
    omega
  refine ⟨fun _ => (hb (s.submissionCount + 1)).fresh (Or.inl hnone), ?_, ?_⟩
  · rw [hcommitted]
    exact fun h => h.elim (nomatch ·) (nomatch ·)
  · rw [hcommitted]
    exact fun h => h.elim (nomatch ·) (nomatch ·)

theorem Move.horizon_le (h : Move d e l p s c s' l' f) (hb : ∀ id, (s.entry id).Bounded d)
    (id : ℕ) : s.maxDisputeEndsAtOf id ≤ s'.maxDisputeEndsAtOf id := by
  revert id
  refine h.turns.forall (P := fun id x => s.maxDisputeEndsAtOf id ≤ x.maxDisputeEndsAt) ?_
    (fun id _ hturn _ => hturn.horizon_le (hb id)) (fun id => le_rfl)
  intro sub t _ _ _ _
  exact le_rfl

/-- Only the challenge manager disputes a submission or ends a dispute. -/
theorem Turn.challenged_iff {y : Entry} (h : Turn d e l s c id y)
    (hsender : e.sender ≠ s.challengeManager) :
    y.sub.status = .challenged ↔ (s.submissions id).status = .challenged := by
  cases h with
  | addBond => exact Iff.rfl
  | reveal hstatus => rw [hstatus]; exact iff_of_false nofun nofun
  | yield hstatus => rw [hstatus]; exact iff_of_false nofun nofun
  | retire hstatus =>
      obtain hs | hs | ⟨-, hs⟩ := hstatus
      · rw [hs]; exact iff_of_false nofun nofun
      · rw [hs]; exact iff_of_false nofun nofun
      · exact absurd hs hsender
  | finalize _ hstatus => rw [hstatus]; exact iff_of_false nofun nofun
  | release => exact Iff.rfl
  | void hstatus => rw [hstatus]; exact iff_of_false nofun nofun
  | mark hs => exact absurd hs hsender
  | rearm _ hs => exact absurd hs hsender
  | clear hs => exact absurd hs hsender

theorem Move.challenged_iff (h : Move d e l p s c s' l' f)
    (hr : Registered s.submissionCount s.entry) (hsender : e.sender ≠ s.challengeManager) (id : ℕ) :
    (s'.submissions id).status = .challenged ↔ (s.submissions id).status = .challenged := by
  revert id
  refine h.turns.forall (P := fun id x => x.sub.status = .challenged ↔
    (s.submissions id).status = .challenged) ?_ (fun _ _ hturn _ => hturn.challenged_iff hsender)
    (fun _ => Iff.rfl)
  intro sub t _ _ hstatus _
  have hcommitted : (s.committedEntry sub t).sub.status = .committed := hstatus
  have hnone : (s.submissions (s.submissionCount + 1)).status = .none := by
    by_contra hne
    have hle : s.submissionCount + 1 ≤ s.submissionCount := (hr.le hne).2
    omega
  rw [hcommitted, hnone]
  exact iff_of_false nofun nofun

/-- A dispute on `id` ended, and nothing happened to any other submission. -/
structure Released (s s' : SubmissionManager) (id : ℕ) : Prop where
  wired : s.challengeManager ≠ 0
  before : (s.submissions id).status = .challenged
  entries : ∃ y, s'.entry = update s.entry id y ∧ y.sub.status ≠ .challenged

theorem released_retire (hm : e.sender = s.challengeManager) (hsender : e.sender ≠ 0)
    (hstatus : (s.submissions id).status = .challenged) (a : Address) (evs : List ManagerEvent)
    (hs' : s'.entry = (((s.retire id .challenged .rejected).payBond id a).note evs).entry) :
    Released s s' id := by
  refine ⟨hm ▸ hsender, hstatus, rejectedEntry (s.entry id), ?_, nofun⟩
  rw [hs', rejectedEntry_eq]

theorem released_rearm (hm : e.sender = s.challengeManager) (hsender : e.sender ≠ 0)
    (hstatus : (s.submissions id).status = .challenged) (t : ℕ)
    (hs' : s'.entry = (s.rearmAs id t).entry) : Released s s' id := by
  refine ⟨hm ▸ hsender, hstatus, (s.entry id).rearm t, ?_, nofun⟩
  rw [hs', entry_rearmAs]

theorem released_of_resolve {wins : Bool} {beneficiary : Address} (hsender : e.sender ≠ 0)
    (h : s.resolveChallenge d e id wins beneficiary = .ok s') : Released s s' id := by
  obtain ⟨hm, -, hstatus, -, s₁, hcase, rfl⟩ := resolveChallenge_eq_ok.mp h
  split at hcase
  · obtain ⟨-, -, rfl⟩ := hcase
    exact released_retire hm hsender hstatus beneficiary [] rfl
  · split at hcase
    · obtain ⟨-, -, rfl⟩ := hcase
      exact released_rearm hm hsender hstatus _ rfl
    · obtain ⟨-, rfl⟩ := hcase
      exact released_retire hm hsender hstatus (s.submissions id).solver [] rfl

theorem released_of_cancel (hsender : e.sender ≠ 0) (h : s.cancelChallenge d e id = .ok s') :
    Released s s' id := by
  obtain ⟨hm, -, hstatus, ⟨-, rfl⟩ | ⟨-, t, -, rfl⟩⟩ := cancelChallenge_ok h
  · exact released_retire hm hsender hstatus (s.submissions id).solver [] rfl
  · exact released_rearm hm hsender hstatus t rfl

theorem released_of_objective {wins : Bool} {beneficiary : Address} (hsender : e.sender ≠ 0)
    (h : s.resolveObjectiveChallenge e id wins beneficiary = .ok s') : Released s s' id := by
  obtain ⟨hm, -, hstatus, ⟨-, -, rfl⟩ | ⟨-, -, rfl⟩ | ⟨-, -, rfl⟩⟩ := resolveObjectiveChallenge_ok h
  · exact released_retire hm hsender hstatus beneficiary [] rfl
  · exact released_retire hm hsender hstatus (s.submissions id).solver [] rfl
  · refine ⟨hm ▸ hsender, hstatus, ((s.entry id).rearm e.now).clear, ?_, nofun⟩
    rw [entry_note, entry_clearReveal, entry_rearmAs, update_self, update_idem]

theorem Released.challenged_iff (h : Released s s' id) (j : ℕ) :
    (s'.submissions j).status = .challenged ↔ j ≠ id ∧ (s.submissions j).status = .challenged := by
  obtain ⟨y, hentry, hy⟩ := h.entries
  have hj : (s'.submissions j).status = (update s.entry id y j).sub.status := by
    rw [← hentry]
    rfl
  rw [hj]
  by_cases hid : j = id
  · subst hid
    rw [update_self]
    exact iff_of_false hy (fun hne => hne.1 rfl)
  · rw [update_of_ne hid]
    exact (and_iff_right hid).symm

end SubmissionManager

/-! ### The two managers -/

namespace ChallengeManager

variable {d : Deployment} {e : Env} {s s' : SubmissionManager} {c c' : ChallengeManager}

/-- The dispute on `id` is open. -/
def Disputes (c : ChallengeManager) (id : ℕ) : Prop :=
  (c.challenges id).challenger ≠ 0 ∧ (c.challenges id).resolved = false

/-- The deadlines of the dispute on `id`, of the last one if it is over, are within `horizon`. -/
structure Within (horizon : ℕ) (c : ChallengeManager) (id : ℕ) : Prop where
  dispute : (c.challenges id).disputeEndsAt ≤ horizon
  release : (c.resolverBonds id).releaseAt ≤ horizon

/-- A call of the challenge manager keeps the two managers in agreement. -/
structure Deal (s : SubmissionManager) (c : ChallengeManager) (s' : SubmissionManager)
    (c' : ChallengeManager) : Prop where
  status : ∀ j, ((s.submissions j).status = .challenged ↔ c.Disputes j) →
    ((s'.submissions j).status = .challenged ↔ c'.Disputes j)
  within : ∀ j, Within (s.maxDisputeEndsAtOf j) c j → Within (s.maxDisputeEndsAtOf j) c' j

/-- Slots other than that of `id` are left alone, and the deadlines in it are kept or cleared. -/
theorem within_update (id : ℕ) (ch : Challenge) (bond : ResolverBond)
    (hch : c'.challenges = update c.challenges id ch)
    (hbond : c'.resolverBonds = update c.resolverBonds id bond)
    (hends : (c.challenges id).disputeEndsAt ≤ s.maxDisputeEndsAtOf id →
      ch.disputeEndsAt ≤ s.maxDisputeEndsAtOf id)
    (hrelease : (c.resolverBonds id).releaseAt ≤ s.maxDisputeEndsAtOf id →
      bond.releaseAt ≤ s.maxDisputeEndsAtOf id) {j : ℕ}
    (h : Within (s.maxDisputeEndsAtOf j) c j) : Within (s.maxDisputeEndsAtOf j) c' j := by
  by_cases hj : j = id
  · subst hj
    refine ⟨?_, ?_⟩
    · rw [hch, update_self]
      exact hends h.dispute
    · rw [hbond, update_self]
      exact hrelease h.release
  · refine ⟨?_, ?_⟩
    · rw [hch, update_of_ne hj]
      exact h.dispute
    · rw [hbond, update_of_ne hj]
      exact h.release

theorem disputes_update (id : ℕ) (ch : Challenge) (hch : c'.challenges = update c.challenges id ch)
    (j : ℕ) : c'.Disputes j ↔
      j = id ∧ (ch.challenger ≠ 0 ∧ ch.resolved = false) ∨ j ≠ id ∧ c.Disputes j := by
  rw [Disputes, hch]
  by_cases hj : j = id
  · subst hj
    rw [update_self]
    simp
  · rw [update_of_ne hj]
    simp [hj, Disputes]

theorem Ended.disputes_iff {id : ℕ} {ch : Challenge} (h : Ended (c.challenges id) ch)
    (hch : c'.challenges = update c.challenges id ch) (j : ℕ) :
    c'.Disputes j ↔ j ≠ id ∧ c.Disputes j := by
  rw [disputes_update id ch hch, or_iff_right (fun hne => h.not_open hne.2)]

/-- The dispute on `id` ends on both sides. -/
theorem Ended.deal {id : ℕ} {ch : Challenge} {bond : ResolverBond} (h : Ended (c.challenges id) ch)
    (hs : SubmissionManager.Released s s' id) (hch : c'.challenges = update c.challenges id ch)
    (hbond : c'.resolverBonds = update c.resolverBonds id bond)
    (hrelease : bond.releaseAt = (c.resolverBonds id).releaseAt) : Deal s c s' c' := by
  refine ⟨fun j hj => ?_, fun j hj => ?_⟩
  · rw [hs.challenged_iff, h.disputes_iff hch]
    exact and_congr_right (fun _ => hj)
  · exact within_update id ch bond hch hbond (fun hle => h.deadline.trans hle)
      (fun hle => hrelease.trans_le hle) hj

theorem Move.deal {a : ChallengeCall} {f : List Frame} (h : Move d e s c a c' s' f)
    (hsender : e.sender ≠ 0) : Deal s c s' c' := by
  have hhook : (d.asChallenger e).sender ≠ 0 := Ne.symm d.addresses_ne.2.1
  cases h with
  | administer => exact ⟨fun _ h => h, fun _ h => ⟨h.dispute, h.release⟩⟩
  | @challenge id endsAt revealHash reasonHash hash _ _ hslot hmark hends _ =>
      obtain ⟨-, -, -, -, -, -, -, rfl⟩ := SubmissionManager.markChallenged_eq_ok.mp hmark
      have hopen : (newChallenge e id reasonHash endsAt).challenger ≠ 0 ∧
          (newChallenge e id reasonHash endsAt).resolved = false := ⟨hsender, rfl⟩
      have hle : endsAt ≤ s.maxDisputeEndsAtOf id := by
        rw [hends]
        exact min_le_right _ _
      refine ⟨fun j h => ?_, fun j hj => ?_⟩
      · rw [disputes_update (c := c) id (newChallenge e id reasonHash endsAt) rfl]
        show (update s.submissions id _ j).status = _ ↔ _
        by_cases hj : j = id
        · subst hj
          rw [update_self]
          exact iff_of_true rfl (Or.inl ⟨rfl, hopen⟩)
        · rw [update_of_ne hj, or_iff_right (fun h => hj h.1), and_iff_right hj]
          exact h
      · apply within_update id (newChallenge e id reasonHash endsAt) (c.resolverBonds id)
        · rfl
        · exact (update_eq_self id c.resolverBonds).symm
        · exact fun _ => hle
        · exact fun h => h
        · exact ⟨hj.dispute, hj.release⟩
  | @decide _ id ch bond _ _ _ _ _ hch hres _ _ _ hch' _ hrelease =>
      have hopen : ch.challenger ≠ 0 ∧ ch.resolved = false := by
        rw [hch']
        exact ⟨hch, hres⟩
      have hsame : ch.disputeEndsAt = (c.challenges id).disputeEndsAt := by rw [hch']
      refine ⟨fun j h => ?_, fun j hj => ?_⟩
      · rw [disputes_update (c := c) id ch rfl]
        by_cases hj : j = id
        · subst hj
          exact iff_of_true (h.mpr ⟨hch, hres⟩) (Or.inl ⟨rfl, hopen⟩)
        · rw [or_iff_right (fun h => hj h.1), and_iff_right hj]
          exact h
      · exact within_update id ch bond rfl rfl (fun hle => hsame.trans_le hle) (fun _ => hrelease) hj
  | @finalizeResolution id hash wins W B s₁ hch hpending _ _ _ _ hs =>
      apply (ended_closedSlot (c.challenges id) wins).deal
        (SubmissionManager.released_of_resolve hhook hs)
      exacts [rfl, rfl, rfl]
  | @expire id hash s₁ hch hres hpending _ hs =>
      apply (ended_empty (c.challenges id)).deal (SubmissionManager.released_of_resolve hhook hs)
      exacts [rfl, (update_eq_self id c.resolverBonds).symm, rfl]
  | @slash id hash proofHash s₁ hch hpending hs =>
      apply (ended_empty (c.challenges id)).deal (SubmissionManager.released_of_cancel hhook hs)
      exacts [rfl, rfl, rfl]
  | @objective id hash proofHash wins B s₁ hch hpending hs =>
      apply (ended_closedSlot (c.challenges id) wins).deal
        (SubmissionManager.released_of_objective hhook hs)
      exacts [rfl, rfl, rfl]
  | withdraw => exact ⟨fun _ h => h, fun _ h => ⟨h.dispute, h.release⟩⟩

end ChallengeManager

/-! ### Agreement -/

/-- The submission manager takes orders from nobody but the challenge manager of the board. -/
def World.Wired (d : Deployment) (w : World) : Prop :=
  w.sm.challengeManager = 0 ∨ w.sm.challengeManager = d.challengeManager

/-- The two managers agree on what is disputed and until when. -/
structure Agreed (d : Deployment) (w : World) : Prop where
  bounded : ∀ id, (w.sm.entry id).Bounded d
  within : ∀ id, ChallengeManager.Within (w.sm.maxDisputeEndsAtOf id) w.cm id
  status : w.Wired d → ∀ id, (w.sm.submissions id).status = .challenged ↔ w.cm.Disputes id

/-- A step of the submission manager that the challenge manager takes no part in. -/
theorem Agreed.manager {d : Deployment} {w w' : World} {a : Action} (h : Agreed d w)
    (hr : SubmissionManager.Registered w.sm.submissionCount w.sm.entry) (hcm : w'.cm = w.cm)
    (hstep : ManagerStepped d w a w') (ha : ∀ sender value ext q, a ≠ .call sender value ext (.challenge q)) :
    Agreed d w' := by
  cases hstep with
  | quiet _ hsm _ _ =>
      refine ⟨?_, ?_, ?_⟩
      · rw [hsm]; exact h.bounded
      · rw [hsm, hcm]; exact h.within
      · rw [World.Wired, hsm, hcm]; exact h.status
  | eth amount _ _ hsm _ _ =>
      refine ⟨?_, ?_, ?_⟩
      · rw [hsm]; exact h.bounded
      · rw [hsm, hcm]; exact h.within
      · rw [World.Wired, hsm, hcm]; exact h.status
  | finish claimant amount _ _ _ hsm =>
      refine ⟨?_, ?_, ?_⟩
      · rw [hsm]; exact h.bounded
      · rw [hsm, hcm]; exact h.within
      · rw [World.Wired, hsm, hcm]; exact h.status
  | call e c f _ _ hsender _ _ hrun _ _ hfrom =>
      have hmove := SubmissionManager.move_of_run hrun
      have hexternal : d.IsExternal e.sender := by
        obtain ⟨-, hext⟩ | ⟨-, -, _, _, _, _, hcall, -⟩ := hfrom
        · exact hext
        · exact absurd hcall (ha _ _ _ _)
      refine ⟨hmove.bounded hr h.bounded, fun id => ?_, fun hwired id => ?_⟩
      · have hle := hmove.horizon_le h.bounded id
        rw [hcm]
        exact ⟨(h.within id).dispute.trans hle, (h.within id).release.trans hle⟩
      · have hbefore : w.Wired d := by
          obtain hzero | hsame := hmove.challengeManager
          · exact Or.inl hzero
          · rw [World.Wired, hsame] at hwired
            exact hwired
        have hne : e.sender ≠ w.sm.challengeManager := by
          obtain hm | hm := hbefore
          · rw [hm]; exact hsender
          · rw [hm]; exact hexternal.ne.2.2.1
        rw [hcm, hmove.challenged_iff hr hne]
        exact h.status hbefore id

theorem agreed_step {d : Deployment} {w w' : World} {a : Action}
    (hr : SubmissionManager.Registered w.sm.submissionCount w.sm.entry) (h : Agreed d w)
    (hstep : w.step d a = some w') : Agreed d w' := by
  cases challenge_stepped hstep with
  | quiet hcm _ hmanager ha => exact h.manager hr hcm hmanager ha
  | eth amount _ hcm hsm _ =>
      refine ⟨?_, ?_, ?_⟩
      · rw [hsm]; exact h.bounded
      · rw [hsm, hcm]; exact fun id => ⟨(h.within id).dispute, (h.within id).release⟩
      · rw [World.Wired, hsm, hcm]; exact h.status
  | finish claimant amount _ hcm hsm =>
      refine ⟨?_, ?_, ?_⟩
      · rw [hsm]; exact h.bounded
      · rw [hsm, hcm]; exact fun id => ⟨(h.within id).dispute, (h.within id).release⟩
      · rw [World.Wired, hsm, hcm]; exact h.status
  | call e c f _ _ hsender _ _ _ hrun _ _ _ =>
      have hmove := ChallengeManager.move_of_run hsender.ne.1 hrun
      have hwithin : ∀ j, ChallengeManager.Within (w.sm.maxDisputeEndsAtOf j)
          { w.cm with balance := w.cm.balance + e.value } j :=
        fun j => ⟨(h.within j).dispute, (h.within j).release⟩
      have hdeal := hmove.deal hsender.ne.1
      -- the hook behind the call moves no horizon back
      obtain ⟨hbounded, hhorizon, hwired⟩ : (∀ id, (w'.sm.entry id).Bounded d) ∧
          (∀ id, w.sm.maxDisputeEndsAtOf id ≤ w'.sm.maxDisputeEndsAtOf id) ∧
          (w'.Wired d → w.Wired d) := by
        obtain hsm | ⟨hook, hhook, -⟩ := hmove.hook w.ledger w.pool
        · rw [World.Wired, hsm]
          exact ⟨h.bounded, fun _ => le_rfl, fun hwired => hwired⟩
        · have hmanager := SubmissionManager.move_of_run hhook
          refine ⟨hmanager.bounded hr h.bounded, hmanager.horizon_le h.bounded, fun hwired => ?_⟩
          obtain hzero | hsame := hmanager.challengeManager
          · exact Or.inl hzero
          · rw [World.Wired, hsame] at hwired
            exact hwired
      refine ⟨hbounded, fun id => ?_, fun hw id => hdeal.status id (h.status (hwired hw) id)⟩
      have hin := hdeal.within id (hwithin id)
      exact ⟨hin.dispute.trans (hhorizon id), hin.release.trans (hhorizon id)⟩

theorem agreed_of_reachable {d : Deployment} {C : World → Action → Prop} {w : World}
    (h : d.protocol.Reachable C w) : Agreed d w := by
  refine h.invariant ?_ (fun w a w' hreach hP _ hstep => agreed_step (registered_of_reachable hreach) hP hstep)
  rintro _ ⟨block, wiring, -, -, rfl⟩
  refine ⟨fun id => ⟨fun _ => rfl, fun h => h.elim (nomatch ·) (nomatch ·),
    fun h => h.elim (nomatch ·) (nomatch ·)⟩, fun id => ⟨le_rfl, le_rfl⟩, fun _ id => ?_⟩
  exact iff_of_false nofun (fun hopen => hopen.1 rfl)

/-! ### Ending a dispute -/

theorem ChallengeManager.Move.balance_le {d : Deployment} {e : Env} {s s' : SubmissionManager}
    {c c' : ChallengeManager} {a : ChallengeCall} {f : List Frame} (h : Move d e s c a c' s' f) :
    c'.balance ≤ c.balance := by
  cases h with
  | withdraw => exact Nat.sub_le _ _
  | _ => exact le_rfl

theorem challenge_balance_lt {d : Deployment} {C : World → Action → Prop} {w : World}
    (h : d.protocol.Reachable C w) : w.cm.balance < 2 ^ 256 := by
  refine h.invariant (P := fun w => w.cm.balance < 2 ^ 256) ?_ ?_
  · rintro _ ⟨block, wiring, -, -, rfl⟩
    exact Nat.two_pow_pos 256
  · intro w a w' _ hP _ hstep
    cases challenge_stepped hstep with
    | quiet hcm _ _ _ => rw [hcm]; exact hP
    | eth amount hlt hcm _ _ => rw [hcm]; exact hlt
    | finish claimant amount _ hcm _ => rw [hcm]; exact hP
    | call e c f _ _ hsender _ hlt _ hrun _ _ _ =>
        exact lt_of_le_of_lt (ChallengeManager.move_of_run hsender.ne.1 hrun).balance_le hlt

/-- No credit of a posting bond overflows. -/
theorem bondFits_of_reachable {d : Deployment} {C : World → Action → Prop} {w : World}
    (h : d.protocol.Reachable C w) {id : ℕ} (hid : id ≤ w.sm.submissionCount) (a : Address) :
    w.sm.BondFits id a := by
  have hvault := postingVault_of_reachable h
  have hle : (w.sm.submissions id).bondWei + w.sm.claimableBondWei a ≤
      w.postingVault.escrow.total (range (w.sm.submissionCount + 1)) :=
    w.postingVault.escrow.held_add_claimable_le_total _ (mem_range.mpr (by omega)) a
  have hbalance : w.sm.balance = w.sm.forcedEth +
      w.postingVault.escrow.total (range (w.sm.submissionCount + 1)) := hvault.balance
  have hlt := manager_balance_lt h
  left
  omega

/-- Neither credit at the end of a dispute overflows. -/
theorem creditsFit_of_reachable {d : Deployment} {C : World → Action → Prop} {w : World}
    (h : d.protocol.Reachable C w) {id : ℕ} (hopen : w.cm.Disputes id) (W B : Address) :
    w.cm.claimableBondWei W + (w.cm.challenges id).challengeBondWei < 2 ^ 256 ∧
    (w.cm.creditTo W (w.cm.challenges id).challengeBondWei).claimableBondWei B +
      (w.cm.resolverBonds id).amountWei < 2 ^ 256 := by
  have hdisputes := soundDisputes_of_reachable h
  have hsettled := hdisputes.vault.settle (.inl id) W
  have hkeys := ChallengeManager.mem_bondKeys ((hdisputes.slots id).counted hopen.1)
  have hlt := challenge_balance_lt h
  have hcounter : w.cm.counterBond id = (w.cm.challenges id).challengeBondWei := if_pos hopen
  have hW : (w.disputeVault d).escrow.held (.inl id) + w.cm.claimableBondWei W ≤
      (w.disputeVault d).escrow.total (w.disputeVault d).keys :=
    (w.disputeVault d).escrow.held_add_claimable_le_total _ hkeys.1 W
  have hB : ((w.disputeVault d).settle (.inl id) W).escrow.held (.inr id) +
      ((w.disputeVault d).settle (.inl id) W).escrow.claimable B ≤
        ((w.disputeVault d).settle (.inl id) W).escrow.total (w.disputeVault d).keys :=
    ((w.disputeVault d).settle (.inl id) W).escrow.held_add_claimable_le_total _ hkeys.2 B
  have hbalance : w.cm.balance = w.cm.forcedEth +
      (w.disputeVault d).escrow.total (w.disputeVault d).keys := hdisputes.vault.balance
  have hbalance' : w.cm.balance = w.cm.forcedEth +
      ((w.disputeVault d).settle (.inl id) W).escrow.total (w.disputeVault d).keys :=
    hsettled.balance
  have hheld : (w.disputeVault d).escrow.held (.inl id) = (w.cm.challenges id).challengeBondWei :=
    hcounter
  have hdecision : ((w.disputeVault d).settle (.inl id) W).escrow.held (.inr id) =
      (w.cm.resolverBonds id).amountWei := by
    show update (w.disputeVault d).escrow.held (.inl id) 0 (.inr id) = _
    rw [update_of_ne (by simp)]
    rfl
  have hclaim : ((w.disputeVault d).settle (.inl id) W).escrow.claimable B =
      (w.cm.creditTo W (w.cm.challenges id).challengeBondWei).claimableBondWei B := by
    rw [← hheld]
    rfl
  refine ⟨?_, ?_⟩
  · omega
  · rw [← hclaim, ← hdecision]
    omega

/-- With a challenged submission around, another one can be revealed. -/
theorem SubmissionManager.Counted.revealed_add_one_le {s : SubmissionManager} (h : Counted s)
    (hr : Registered s.submissionCount s.entry) {id : ℕ}
    (hstatus : (s.submissions id).status = .challenged) :
    s.revealedSubmissionCount + 1 ≤ s.submissionCount := by
  have hnone : (s.submissions 0).status = .none := (hr.status 0).mpr (by
    by_contra hne
    have hle := ((hr.solver 0).mp hne).1
    omega)
  have hid : 1 ≤ id ∧ id ≤ s.submissionCount := hr.le (by
    show (s.submissions id).status ≠ .none
    rw [hstatus]
    decide)
  have hone : ∀ status, revealedWeight status ≤ 1 := by rintro (_ | _) <;> decide
  rw [h.revealed, tally, sum_range_succ', hnone]
  have hsplit := add_sum_erase (range s.submissionCount)
    (fun j => revealedWeight (s.submissions (j + 1)).status) (mem_range.mpr (by omega : id - 1 < _))
  have hzero : revealedWeight (s.submissions (id - 1 + 1)).status = 0 := by
    rw [Nat.sub_add_cancel hid.1, hstatus]
    rfl
  have hrest : ∑ j ∈ (range s.submissionCount).erase (id - 1),
      revealedWeight (s.submissions (j + 1)).status ≤
        ((range s.submissionCount).erase (id - 1)).card • 1 :=
    sum_le_card_nsmul _ _ 1 (fun j _ => hone _)
  rw [card_erase_of_mem (mem_range.mpr (by omega)), card_range, smul_eq_mul, mul_one] at hrest
  show ∑ j ∈ range s.submissionCount, revealedWeight (s.submissions (j + 1)).status + 0 + 1 ≤ _
  simp only [hzero] at hsplit
  omega

/-- The submission manager lets the challenge manager resolve what is disputed. -/
theorem resolveChallenge_of_reachable {d : Deployment} {C : World → Action → Prop} {w : World}
    (h : d.protocol.Reachable C w) (hwired : w.sm.challengeManager = d.challengeManager) {id : ℕ}
    (hstatus : (w.sm.submissions id).status = .challenged) (e : Env) (wins : Bool)
    (beneficiary : Address) (hbeneficiary : wins = true → beneficiary ≠ 0) :
    ∃ s', w.sm.resolveChallenge d (d.asChallenger e) id wins beneficiary = .ok s' := by
  have hr := registered_of_reachable h
  have hcounted := counted_of_reachable h
  have hne : (w.sm.entry id).sub.status ≠ .none := by
    show (w.sm.submissions id).status ≠ .none
    rw [hstatus]
    decide
  have hsolver : (w.sm.submissions id).solver ≠ 0 := (hr.solver id).mpr (hr.le hne)
  have hcount : 1 ≤ w.sm.challengedSubmissionCount := by
    rw [hcounted.challenged]
    have hle := SubmissionManager.le_tally (s := w.sm) SubmissionManager.challengedWeight (hr.le hne).2
    rw [hstatus] at hle
    exact hle
  have hfits := bondFits_of_reachable h (hr.le hne).2
  have hnow : e.now + d.sm.challengeWindowSeconds < 2 ^ 64 := by
    have h₁ := e.now_lt
    have h₂ := d.sm.window_lt
    omega
  have hrevealed : w.sm.revealedSubmissionCount + 1 < 2 ^ 256 :=
    lt_of_le_of_lt (hcounted.revealed_add_one_le hr hstatus) (submissionCount_lt h)
  cases wins with
  | true =>
      exact ⟨_, SubmissionManager.resolveChallenge_eq_ok.mpr ⟨hwired.symm, hsolver, hstatus, hcount, _,
        (if_pos rfl).mpr ⟨hbeneficiary rfl, hfits _, rfl⟩, rfl⟩⟩
  | false =>
      have hfalse : ¬ false = true := nofun
      by_cases hprio : w.sm.HasPriority id
      · exact ⟨_, SubmissionManager.resolveChallenge_eq_ok.mpr ⟨hwired.symm, hsolver, hstatus, hcount,
          _, ((if_neg hfalse).trans (if_pos hprio)).mpr ⟨hnow, hrevealed, rfl⟩, rfl⟩⟩
      · exact ⟨_, SubmissionManager.resolveChallenge_eq_ok.mpr ⟨hwired.symm, hsolver, hstatus, hcount,
          _, ((if_neg hfalse).trans (if_neg hprio)).mpr ⟨hfits _, rfl⟩, rfl⟩⟩

/-- The call goes through. -/
def World.Succeeds (d : Deployment) (w : World) (sender : Address) (ext : External)
    (c : ChallengeCall) : Prop :=
  ∃ w', w.step d (.call sender 0 ext (.challenge c)) = some w'

theorem World.succeeds_iff {d : Deployment} {C : World → Action → Prop} {w : World}
    (h : d.protocol.Reachable C w) {sender : Address} (hsender : d.IsExternal sender)
    {ext : External} {c : ChallengeCall} : w.Succeeds d sender ext c ↔
      ∃ r, c.run d ⟨w.block, sender, 0, ext⟩ w.ledger w.pool w.sm w.cm = .ok r := by
  constructor
  · rintro ⟨w', hstep⟩
    cases stepped_of_step hstep with
    | challenge _ _ _ hrun => exact ⟨_, hrun⟩
  · rintro ⟨⟨c', s', f⟩, hrun⟩
    refine ⟨{ w with cm := c', sm := s', frames := f ++ w.frames }, ?_⟩
    have hbalance : receive w.cm.balance 0 = .ok w.cm.balance :=
      checkedAdd_eq_ok.mpr ⟨challenge_balance_lt h, rfl⟩
    have hcall : (Call.challenge c).run d ⟨w.block, sender, 0, ext⟩ w =
        .ok { w with cm := c', sm := s', frames := f ++ w.frames } := by
      rw [Call.run, bind_eq_ok]
      refine ⟨_, hbalance, ?_⟩
      rw [bind_eq_ok]
      exact ⟨_, hrun, rfl⟩
    simp only [World.step, hsender, true_or, and_self, if_true, hcall, Except.toOption]

/-- The two calls anyone may make end the dispute they are about. -/
theorem not_challenged_of_step {d : Deployment} {w w' : World} {sender : Address} {value id : ℕ}
    {ext : External} {hash : Bytes32} {c : ChallengeCall}
    (hc : c = .expireChallenge id hash ∨ c = .finalizeResolution id hash)
    (hstep : w.step d (.call sender value ext (.challenge c)) = some w') :
    (w'.sm.submissions id).status ≠ .challenged := by
  have hhook : ∀ e : Env, (d.asChallenger e).sender ≠ 0 := fun _ => Ne.symm d.addresses_ne.2.1
  cases stepped_of_step hstep with
  | challenge _ _ _ hrun =>
      intro hne
      obtain rfl | rfl := hc
      · simp only [ChallengeCall.run, map_eq_ok, Prod.mk.injEq] at hrun
        obtain ⟨⟨_, _⟩, hrun, rfl, rfl, rfl⟩ := hrun
        obtain ⟨-, -, -, -, -, -, -, hs, -⟩ := ChallengeManager.expireChallenge_eq_ok.mp hrun
        exact (((SubmissionManager.released_of_resolve (hhook _) hs).challenged_iff id).mp hne).1 rfl
      · simp only [ChallengeCall.run, map_eq_ok, Prod.mk.injEq] at hrun
        obtain ⟨⟨_, _⟩, hrun, rfl, rfl, rfl⟩ := hrun
        obtain ⟨-, -, -, -, -, -, _, _, _, _, -, -, -, -, -, -, -, hs, -⟩ :=
          ChallengeManager.finalizeResolution_eq_ok.mp hrun
        exact (((SubmissionManager.released_of_resolve (hhook _) hs).challenged_iff id).mp hne).1 rfl

section horizon

variable {d : Deployment} {C : World → Action → Prop} {w : World} {sender : Address}
  {ext : External} {id : ℕ} {hash : Bytes32}

/-- Past the horizon an undecided dispute expires on anyone's call, and no other does. -/
theorem expire_succeeds_iff (h : d.protocol.Reachable C w)
    (hwired : w.sm.challengeManager = d.challengeManager) (hsender : d.IsExternal sender)
    (hstatus : (w.sm.submissions id).status = .challenged)
    (hnow : w.sm.maxDisputeEndsAtOf id ≤ w.block.timestamp) (hhash : w.cm.challengeInstanceHashOf id ≠ 0) :
    w.Succeeds d sender ext (.expireChallenge id hash) ↔
      hash = w.cm.challengeInstanceHashOf id ∧ (w.cm.challenges id).decisionPending = false := by
  have hagreed := agreed_of_reachable h
  have hopen := (hagreed.status (Or.inr hwired) id).mp hstatus
  rw [World.succeeds_iff h hsender]
  constructor
  · rintro ⟨⟨_, _, _⟩, hrun⟩
    simp only [ChallengeCall.run, map_eq_ok, Prod.mk.injEq] at hrun
    obtain ⟨⟨_, _⟩, hrun, -⟩ := hrun
    obtain ⟨-, -, hinstance, -, hpending, -⟩ := ChallengeManager.expireChallenge_eq_ok.mp hrun
    exact ⟨hinstance.symm, hpending⟩
  · rintro ⟨rfl, hpending⟩
    obtain ⟨s', hs⟩ := resolveChallenge_of_reachable h hwired hstatus ⟨w.block, sender, 0, ext⟩
      false 0 fun hwins => absurd hwins Bool.false_ne_true
    have hrun := ChallengeManager.expireChallenge_eq_ok.mpr ⟨hopen.1, hhash, rfl, hopen.2, hpending,
      (hagreed.within id).dispute.trans hnow, (creditsFit_of_reachable h hopen _ 0).1, hs, rfl⟩
    exact ⟨_, by rw [ChallengeCall.run, hrun]; rfl⟩

/-- Past the horizon a decided dispute is settled on anyone's call, and no other is. -/
theorem finalize_succeeds_iff (h : d.protocol.Reachable C w)
    (hwired : w.sm.challengeManager = d.challengeManager) (hsender : d.IsExternal sender)
    (hstatus : (w.sm.submissions id).status = .challenged)
    (hnow : w.sm.maxDisputeEndsAtOf id ≤ w.block.timestamp) (hhash : w.cm.challengeInstanceHashOf id ≠ 0) :
    w.Succeeds d sender ext (.finalizeResolution id hash) ↔
      hash = w.cm.challengeInstanceHashOf id ∧ (w.cm.challenges id).decisionPending = true := by
  have hagreed := agreed_of_reachable h
  have hslot := (soundDisputes_of_reachable h).slots id
  have hopen := (hagreed.status (Or.inr hwired) id).mp hstatus
  rw [World.succeeds_iff h hsender]
  constructor
  · rintro ⟨⟨_, _, _⟩, hrun⟩
    simp only [ChallengeCall.run, map_eq_ok, Prod.mk.injEq] at hrun
    obtain ⟨⟨_, _⟩, hrun, -⟩ := hrun
    obtain ⟨-, -, hinstance, hpending, -⟩ := ChallengeManager.finalizeResolution_eq_ok.mp hrun
    exact ⟨hinstance.symm, hpending⟩
  · rintro ⟨rfl, hpending⟩
    obtain ⟨s', hs⟩ := resolveChallenge_of_reachable h hwired hstatus ⟨w.block, sender, 0, ext⟩
      (w.cm.challenges id).challengerWins (w.cm.challenges id).challenger (fun _ => hopen.1)
    have hfit := creditsFit_of_reachable h hopen
      (ChallengeManager.winnerOf d (w.cm.challenges id) (w.cm.challenges id).challengerWins)
      (w.cm.resolverBondBeneficiaryOf id)
    have hrun := ChallengeManager.finalizeResolution_eq_ok.mpr ⟨hopen.1, hhash, rfl, hpending,
      hslot.amount.mpr hpending, (hagreed.within id).release.trans hnow, _, _, _, _, rfl, rfl, rfl,
      rfl, hfit.1, (hslot.pending hpending).2.2, hfit.2, hs, rfl⟩
    exact ⟨_, by rw [ChallengeCall.run, hrun]; rfl⟩

end horizon

/-- The laws of the disputes in one state of a board whose managers know each other. -/
structure DisputeLaws (d : Deployment) (w : World) : Prop where
  /-- The managers agree on what is disputed. -/
  status : ∀ id, (w.sm.submissions id).status = .challenged ↔
    (w.cm.challenges id).challenger ≠ 0 ∧ (w.cm.challenges id).resolved = false
  /-- A decision is pending exactly when its bond is held, and only in an open dispute. -/
  decision : ∀ id, (w.cm.challenges id).decisionPending = true ↔
    (w.sm.submissions id).status = .challenged ∧ 0 < (w.cm.resolverBonds id).amountWei
  horizon : ∀ id, (w.sm.submissions id).status = .revealed ∨
      (w.sm.submissions id).status = .challenged →
    w.sm.maxDisputeEndsAtOf id =
      (w.sm.submissions id).revealedAt + 3 * d.sm.challengeWindowSeconds
  window : ∀ id, (w.sm.submissions id).status = .revealed ∨
      (w.sm.submissions id).status = .challenged →
    (w.sm.submissions id).challengeEndsAt ≤ w.sm.maxDisputeEndsAtOf id ∨
      w.sm.objectiveClearedRevealInstanceHashOf id = w.sm.revealInstanceHashOf id
  dispute : ∀ id, (w.cm.challenges id).disputeEndsAt ≤ w.sm.maxDisputeEndsAtOf id
  release : ∀ id, (w.cm.resolverBonds id).releaseAt ≤ w.sm.maxDisputeEndsAtOf id
  /-- From the horizon on anyone can end the dispute, in exactly one of the two ways; the hash that
  names it is not zero. -/
  ends : ∀ id sender ext, (w.sm.submissions id).status = .challenged →
    w.sm.maxDisputeEndsAtOf id ≤ w.block.timestamp → w.cm.challengeInstanceHashOf id ≠ 0 →
    d.IsExternal sender →
    Xor (w.Succeeds d sender ext (.expireChallenge id (w.cm.challengeInstanceHashOf id)))
      (w.Succeeds d sender ext (.finalizeResolution id (w.cm.challengeInstanceHashOf id)))
  /-- Both ways lead out of the dispute. -/
  settled : ∀ id sender value ext hash c w', c = .expireChallenge id hash ∨ c = .finalizeResolution id hash →
    w.step d (.call sender value ext (.challenge c)) = some w' →
    (w'.sm.submissions id).status ≠ .challenged

/-- **Every dispute is bounded.** -/
theorem disputeLaws_of_reachable {d : Deployment} {w : World} (h : d.protocol.Reachable Free w)
    (hwired : w.sm.challengeManager = d.challengeManager) : DisputeLaws d w := by
  have hagreed := agreed_of_reachable h
  have hslots := (soundDisputes_of_reachable h).slots
  have hstatus := hagreed.status (Or.inr hwired)
  refine
    { status := hstatus
      decision := fun id => ?_
      horizon := fun id hid => ?_
      window := fun id hid => (hagreed.bounded id).window hid
      dispute := fun id => (hagreed.within id).dispute
      release := fun id => (hagreed.within id).release
      ends := fun id sender ext hid hnow hhash hsender => ?_
      settled := fun _ _ _ _ _ _ _ hc hstep => not_challenged_of_step hc hstep }
  · constructor
    · intro hpending
      have hopen := (hslots id).pending hpending
      exact ⟨(hstatus id).mpr ⟨hopen.1, hopen.2.1⟩,
        Nat.pos_of_ne_zero ((hslots id).amount.mpr hpending)⟩
    · rintro ⟨-, hamount⟩
      exact (hslots id).amount.mp hamount.ne'
  · have hhorizon := (hagreed.bounded id).horizon hid
    rw [maxCumulativeDisputeWindows, mul_comm] at hhorizon
    exact hhorizon
  · rw [expire_succeeds_iff h hwired hsender hid hnow hhash,
      finalize_succeeds_iff h hwired hsender hid hnow hhash]
    cases (w.cm.challenges id).decisionPending with
    | true => exact Or.inr ⟨⟨rfl, rfl⟩, fun hends => nomatch hends.2⟩
    | false => exact Or.inl ⟨⟨rfl, rfl⟩, fun hends => nomatch hends.2⟩

theorem disputeLaws_sample : ∃ w, Sample.board.protocol.exec Sample.genesis
      (Sample.disputedRun (12 + 3 * Sample.window)) = some w ∧
    (w.sm.submissions 1).status = .challenged ∧ DisputeLaws Sample.board w := by
  have hrun : (Sample.board.protocol.exec Sample.genesis
      (Sample.disputedRun (12 + 3 * Sample.window))).map (fun w =>
        decide ((w.sm.submissions 1).status = .challenged ∧
          w.sm.challengeManager = Sample.board.challengeManager)) = some true := by
    decide +kernel
  obtain ⟨w, hw, hfacts⟩ := Option.map_eq_some_iff.mp hrun
  obtain ⟨hstatus, hwired⟩ := of_decide_eq_true hfacts
  exact ⟨w, hw, hstatus, disputeLaws_of_reachable (.of_exec Sample.genesis_init.1 hw) hwired⟩

end P42Prizes
