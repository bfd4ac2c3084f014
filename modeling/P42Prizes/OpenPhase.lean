import P42Prizes.FundingAuthorization
import P42Prizes.PoolFunding

/-! # The open phase

A submission is paid if its commit found the funding armed, and only a paid submission ever earns
credit, however late it is revealed and finalized (`OpenPhaseLaws`).  The history of a run lists
its commits, with what they found, and its finalizes, with the frontier before and after them
(`Milestone`), newest first. -/

namespace P42Prizes

open Reverting Function Transition

inductive Milestone where
  | committed (id : ℕ) (armed : Bool) (t : ℕ)
  | finalized (id : ℕ) (before after : ℤ)

/-- What an accepted call adds to the history, between `s` and `s'`. -/
def ManagerCall.milestone (t : ℕ) (s s' : SubmissionManager) : ManagerCall → Option Milestone
  | commit .. => some (.committed s'.submissionCount s.fundingArmed t)
  | finalize id _ => some (.finalized id s.bestScoreAtoms s'.bestScoreAtoms)
  | _ => none

def World.milestones (w : World) (a : Action) (w' : World) (k : List Milestone) : List Milestone :=
  match a with
  | .call _ _ _ (.manager c) => (c.milestone w.block.timestamp w.sm w'.sm).toList ++ k
  | _ => k

/-- The board together with its milestones. -/
def Deployment.phasing (d : Deployment) : System (World × List Milestone) Action :=
  d.protocol.withHistory [] World.milestones

/-- The submission that the step asks to finalize or to void. -/
def Action.settles : Action → Option ℕ
  | .call _ _ _ (.manager (.finalize id _)) => some id
  | .call _ _ _ (.manager (.voidFinalize id)) => some id
  | _ => none

structure OpenPhaseLaws (d : Deployment) (w : World) (k : List Milestone) : Prop where
  once : ∀ id b t b' t', .committed id b t ∈ k → .committed id b' t' ∈ k → b = b' ∧ t = t'
  unpaid : ∀ id t, .committed id false t ∈ k → (w.sm.finalizeInfo id).creditAtoms = 0
  credits : ∀ a w', w.step d a = some w' → a.KeepsCredit →
    w'.ledger.creditAtomsOf ≠ w.ledger.creditAtomsOf →
    ∃ id t, a.settles = some id ∧ .committed id true t ∈ k
  earned : ∀ id, (w.sm.finalizeInfo id).creditAtoms ≠ 0 →
    (∃ t, .committed id true t ∈ k ∧ w.sm.armedAt ≤ t ∧ t ≤ PayoutLedger.fundingDeadline d) ∧
    d.sm.minImprovementAtoms ≤ (w.sm.finalizeInfo id).creditAtoms ∧
    ∃ before after, (∀ b a, .finalized id b a ∈ k ↔ b = before ∧ a = after) ∧
      ((w.sm.finalizeInfo id).creditAtoms : ℤ) = before - after
  funded : ∀ a w', w.step d a = some w' → w.pool.totalFunded < w'.pool.totalFunded →
    w.ledger.creditRecorder = d.submissionManager → w.sm.fundingArmed = true

/-! ### What a call adds -/

namespace SubmissionManager

variable {d : Deployment} {e : Env} {l l' : PayoutLedger} {p : BountyPool}
  {s s' : SubmissionManager} {c : ManagerCall} {f : List Frame}

/-- A submission is finalized, rejected or voided and stays so. -/
def Settled (x : Entry) : Prop :=
  x.sub.status = .finalized ∨ x.sub.status = .rejected ∨ x.sub.status = .voided

theorem Turn.settled {id : ℕ} {y : Entry} (h : Turn d e l s c id y) (hs : Settled (s.entry id)) :
    Settled y := by
  have hne : ∀ status, (s.submissions id).status = status →
      status = .finalized ∨ status = .rejected ∨ status = .voided := by
    rintro _ rfl
    exact hs
  cases h with
  | addBond hstatus =>
      obtain h | h | h := hstatus <;> simpa using hne _ h
  | reveal hstatus => simpa using hne _ hstatus
  | yield hstatus => exact Or.inr (Or.inl rfl)
  | retire => exact Or.inr (Or.inl rfl)
  | finalize => exact Or.inl rfl
  | release => exact hs
  | void => exact Or.inr (Or.inr rfl)
  | mark _ hstatus => simpa using hne _ hstatus
  | rearm _ _ hstatus => simpa using hne _ hstatus
  | clear _ hstatus => simpa using hne _ hstatus

/-- Only `finalize` writes the credit of a submission. -/
theorem Turn.info {id : ℕ} {y : Entry} (h : Turn d e l s c id y)
    (hc : ∀ hash, c ≠ .finalize id hash) : y.info = s.finalizeInfo id := by
  cases h with
  | finalize => exact absurd rfl (hc _)
  | _ => rfl

/-- Only `commit` adds a submission. -/
theorem Move.submissionCount (h : Move d e l p s c s' l' f) (hc : c.milestone e.now s s' = none) :
    s'.submissionCount = s.submissionCount := by
  by_cases hreveal : c.IsReveal
  · exact congrArg Reserve.submissionCount (h.reserve_of_reveal hreveal)
  cases h with
  | administer _ hadmin => exact congrArg RegisterState.submissionCount hadmin.register
  | commit => cases hc
  | reveal => exact absurd trivial hreveal
  | finalize => cases hc
  | _ => rfl

end SubmissionManager

/-! ### The invariant -/

/-- The history and the register agree. -/
structure PhaseTracked (d : Deployment) (now : ℕ) (q : FundingState) (n : ℕ) (x : ℕ → Entry)
    (k : List Milestone) : Prop where
  armedAt_le : q.armedAt ≤ now
  count : ∀ id b t, .committed id b t ∈ k → id ≤ n ∧ (x id).paid = b
  once : ∀ id b t b' t', .committed id b t ∈ k → .committed id b' t' ∈ k → t = t'
  paid : ∀ id t, .committed id true t ∈ k → q.fundingArmed = true ∧ q.armedAt ≤ t ∧
    t ≤ PayoutLedger.fundingDeadline d
  entered : ∀ id, (x id).sub.status ≠ .none → ∃ b t, .committed id b t ∈ k
  settled : ∀ id b a, .finalized id b a ∈ k → SubmissionManager.Settled (x id)
  single : ∀ id b a b' a', .finalized id b a ∈ k → .finalized id b' a' ∈ k → b = b' ∧ a = a'
  credit : ∀ id, (x id).info.creditAtoms ≠ 0 → (∃ t, .committed id true t ∈ k) ∧
    d.sm.minImprovementAtoms ≤ (x id).info.creditAtoms ∧
    ∃ b a, .finalized id b a ∈ k ∧ ((x id).info.creditAtoms : ℤ) = b - a

namespace SubmissionManager

variable {d : Deployment} {e : Env} {l l' : PayoutLedger} {p : BountyPool}
  {s s' : SubmissionManager} {c : ManagerCall} {f : List Frame}

/-- What a call without a milestone leaves of an entry. -/
structure Quiet (x y : Entry) : Prop where
  paid : y.paid = x.paid
  info : y.info = x.info
  settled : Settled x → Settled y
  entered : y.sub.status ≠ .none → x.sub.status ≠ .none

theorem Turn.quiet {id : ℕ} {y : Entry} (h : Turn d e l s c id y)
    (hc : ∀ id hash, c ≠ .finalize id hash) : Quiet (s.entry id) y :=
  ⟨h.fixed.2, h.info (hc id), h.settled, fun _ => h.registered.2.1⟩

theorem Turns.quiet {n : ℕ} {entries : ℕ → Entry} (h : Turns d e l s c n entries)
    (hn : n = s.submissionCount) (hc : ∀ id hash, c ≠ .finalize id hash) (id : ℕ) :
    Quiet (s.entry id) (entries id) := by
  have hsame : Quiet (s.entry id) (s.entry id) := ⟨rfl, rfl, fun h => h, fun h => h⟩
  cases h with
  | none => exact hsame
  | commit => omega
  | @one j y hy =>
      by_cases hj : id = j
      · subst hj
        rw [update_self]
        exact hy.quiet hc
      · rw [update_of_ne hj]
        exact hsame
  | @two j j' y y' hy hy' hne =>
      by_cases hj' : id = j'
      · subst hj'
        rw [update_self]
        exact hy'.quiet hc
      · rw [update_of_ne hj']
        by_cases hj : id = j
        · subst hj
          rw [update_self]
          exact hy.quiet hc
        · rw [update_of_ne hj]
          exact hsame

end SubmissionManager

namespace PhaseTracked

open SubmissionManager

variable {d : Deployment} {e : Env} {now n : ℕ} {q q' : FundingState} {x y : ℕ → Entry}
  {k : List Milestone} {l l' : PayoutLedger} {p : BountyPool} {s s' : SubmissionManager}
  {c : ManagerCall}

theorem later (h : PhaseTracked d now q n x k) {now' : ℕ} (hle : now ≤ now') :
    PhaseTracked d now' q n x k := { h with armedAt_le := h.armedAt_le.trans hle }

/-- The funding is armed once, and no paid commit comes before. -/
theorem funding (h : PhaseTracked d now q n x k) (hle : now ≤ e.now)
    (hmove : FundingMove d e q c q') : PhaseTracked d e.now q' n x k := by
  have hlater := h.later hle
  cases hmove with
  | keep => exact hlater
  | authorize => exact { hlater with }
  | cancel => exact { hlater with }
  | arm harmed =>
      refine { hlater with armedAt_le := le_rfl, paid := fun id t hk => ?_ }
      have hpaid := (h.paid id t hk).1
      rw [harmed] at hpaid
      cases hpaid

theorem quiet (h : PhaseTracked d now q n x k) (hq : ∀ id, Quiet (x id) (y id)) :
    PhaseTracked d now q n y k where
  armedAt_le := h.armedAt_le
  count id b t hk := ⟨(h.count id b t hk).1, (hq id).paid.trans (h.count id b t hk).2⟩
  once := h.once
  paid := h.paid
  entered id hne := h.entered id ((hq id).entered hne)
  settled id b a hk := (hq id).settled (h.settled id b a hk)
  single := h.single
  credit id hne := by
    rw [(hq id).info] at hne ⊢
    exact h.credit id hne

/-- A new submission is paid if the funding is armed. -/
theorem commit (h : PhaseTracked d now q n x k) (hr : Registered n x) {z : Entry}
    (hpaid : z.paid = q.fundingArmed) (hinfo : z.info = (x (n + 1)).info)
    (htime : now ≤ PayoutLedger.fundingDeadline d) :
    PhaseTracked d now q (n + 1) (update x (n + 1) z)
      (.committed (n + 1) q.fundingArmed now :: k) := by
  have hnew : ∀ b t, Milestone.committed (n + 1) b t ∉ k := by
    intro b t hk
    have hle := (h.count _ _ _ hk).1
    omega
  refine ⟨h.armedAt_le, ?_, ?_, ?_, ?_, ?_, ?_, ?_⟩
  · intro id b t hk
    obtain heq | hk := List.mem_cons.mp hk
    · cases heq
      rw [update_self]
      exact ⟨le_rfl, hpaid⟩
    · obtain ⟨hle, hb⟩ := h.count id b t hk
      rw [update_of_ne (by omega)]
      exact ⟨by omega, hb⟩
  · intro id b t b' t' hk hk'
    obtain heq | hk := List.mem_cons.mp hk
    · obtain heq' | hk' := List.mem_cons.mp hk'
      · cases heq
        cases heq'
        rfl
      · cases heq
        exact absurd hk' (hnew _ _)
    · obtain heq' | hk' := List.mem_cons.mp hk'
      · cases heq'
        exact absurd hk (hnew _ _)
      · exact h.once id b t b' t' hk hk'
  · intro id t hk
    obtain heq | hk := List.mem_cons.mp hk
    · simp only [Milestone.committed.injEq] at heq
      obtain ⟨-, harmed, rfl⟩ := heq
      exact ⟨harmed.symm, h.armedAt_le, htime⟩
    · exact h.paid id t hk
  · intro id hne
    by_cases hid : id = n + 1
    · subst hid
      exact ⟨_, _, List.mem_cons_self ..⟩
    · rw [update_of_ne hid] at hne
      obtain ⟨b, t, hk⟩ := h.entered id hne
      exact ⟨b, t, List.mem_cons_of_mem _ hk⟩
  · intro id b a hk
    obtain heq | hk := List.mem_cons.mp hk
    · cases heq
    · have hold := h.settled id b a hk
      have hne : (x id).sub.status ≠ .none := by
        obtain h | h | h := hold <;> rw [h] <;> decide
      have hid := (hr.le hne).2
      rw [update_of_ne (by omega)]
      exact hold
  · intro id b a b' a' hk hk'
    obtain heq | hk := List.mem_cons.mp hk
    · cases heq
    · obtain heq' | hk' := List.mem_cons.mp hk'
      · cases heq'
      · exact h.single id b a b' a' hk hk'
  · intro id hne
    have hold : (x id).info.creditAtoms ≠ 0 ∧ (update x (n + 1) z id).info = (x id).info := by
      by_cases hid : id = n + 1
      · subst hid
        rw [update_self] at hne ⊢
        exact ⟨hinfo ▸ hne, hinfo⟩
      · rw [update_of_ne hid] at hne ⊢
        exact ⟨hne, rfl⟩
    rw [hold.2]
    obtain ⟨⟨t, ht⟩, hmin, b, a, hk, hcredit⟩ := h.credit id hold.1
    exact ⟨⟨t, List.mem_cons_of_mem _ ht⟩, hmin, b, a, List.mem_cons_of_mem _ hk, hcredit⟩

/-- A revealed submission is finalized, or rejected as a duplicate. -/
theorem finalize (h : PhaseTracked d now q n x k) {id : ℕ} {z : Entry} {before after : ℤ}
    (hrevealed : (x id).sub.status = .revealed) (hpaid : z.paid = (x id).paid) (hz : Settled z)
    (hcredit : z.info.creditAtoms ≠ 0 → z.info = (x id).info ∨ z.paid = true ∧
      d.sm.minImprovementAtoms ≤ z.info.creditAtoms ∧ (z.info.creditAtoms : ℤ) = before - after) :
    PhaseTracked d now q n (update x id z) (.finalized id before after :: k) := by
  have hnew : ∀ b a, Milestone.finalized id b a ∉ k := by
    intro b a hk
    obtain h | h | h := h.settled id b a hk <;> rw [hrevealed] at h <;> cases h
  have hentered : ∃ b t, .committed id b t ∈ k :=
    h.entered id (by rw [hrevealed]; decide)
  refine ⟨h.armedAt_le, ?_, ?_, ?_, ?_, ?_, ?_, ?_⟩
  · intro j b t hk
    obtain heq | hk := List.mem_cons.mp hk
    · cases heq
    · obtain ⟨hle, hb⟩ := h.count j b t hk
      by_cases hj : j = id
      · subst hj
        rw [update_self]
        exact ⟨hle, hpaid.trans hb⟩
      · rw [update_of_ne hj]
        exact ⟨hle, hb⟩
  · intro j b t b' t' hk hk'
    obtain heq | hk := List.mem_cons.mp hk
    · cases heq
    · obtain heq' | hk' := List.mem_cons.mp hk'
      · cases heq'
      · exact h.once j b t b' t' hk hk'
  · intro j t hk
    obtain heq | hk := List.mem_cons.mp hk
    · cases heq
    · exact h.paid j t hk
  · intro j hne
    obtain ⟨b, t, hk⟩ : ∃ b t, .committed j b t ∈ k := by
      by_cases hj : j = id
      · subst hj
        exact hentered
      · rw [update_of_ne hj] at hne
        exact h.entered j hne
    exact ⟨b, t, List.mem_cons_of_mem _ hk⟩
  · intro j b a hk
    by_cases hj : j = id
    · subst hj
      rw [update_self]
      exact hz
    · rw [update_of_ne hj]
      obtain heq | hk := List.mem_cons.mp hk
      · cases heq
        exact absurd rfl hj
      · exact h.settled j b a hk
  · intro j b a b' a' hk hk'
    obtain heq | hk := List.mem_cons.mp hk
    · cases heq
      obtain heq' | hk' := List.mem_cons.mp hk'
      · cases heq'
        exact ⟨rfl, rfl⟩
      · exact absurd hk' (hnew _ _)
    · obtain heq' | hk' := List.mem_cons.mp hk'
      · cases heq'
        exact absurd hk (hnew _ _)
      · exact h.single j b a b' a' hk hk'
  · have hold : ∀ j, (x j).info.creditAtoms ≠ 0 → (∃ t, .committed j true t ∈
        (Milestone.finalized id before after :: k)) ∧
        d.sm.minImprovementAtoms ≤ (x j).info.creditAtoms ∧ ∃ b a, .finalized j b a ∈
          (Milestone.finalized id before after :: k) ∧ ((x j).info.creditAtoms : ℤ) = b - a := by
      intro j hne
      obtain ⟨⟨t, ht⟩, hmin, b, a, hk, hc⟩ := h.credit j hne
      exact ⟨⟨t, List.mem_cons_of_mem _ ht⟩, hmin, b, a, List.mem_cons_of_mem _ hk, hc⟩
    intro j hne
    by_cases hj : j = id
    · subst hj
      rw [update_self] at hne ⊢
      obtain hsame | ⟨htrue, hmin, hdiff⟩ := hcredit hne
      · rw [hsame] at hne ⊢
        exact hold j hne
      · obtain ⟨b, t, hk⟩ := hentered
        have hb : b = true := (h.count _ _ _ hk).2.symm.trans (hpaid.symm.trans htrue)
        subst hb
        exact ⟨⟨t, List.mem_cons_of_mem _ hk⟩, hmin, _, _, List.mem_cons_self .., hdiff⟩
    · rw [update_of_ne hj] at hne ⊢
      exact hold j hne

theorem committed (h : PhaseTracked d now s.toFundingState s.submissionCount s.entry k)
    (hr : Registered s.submissionCount s.entry) (hle : now ≤ e.now) {commitment daHash : Bytes32}
    (hrun : s.commit d e commitment daHash l p = .ok s') :
    PhaseTracked d e.now s'.toFundingState s'.submissionCount s'.entry
      (.committed s'.submissionCount s.fundingArmed e.now :: k) := by
  obtain ⟨-, -, -, required, activeAt, sub, -, -, -, htime, -, rfl⟩ := commit_ok hrun
  rw [entry_emit, entry_addCommit]
  exact (h.later hle).commit hr rfl rfl htime

theorem gain_eq {id m : ℕ} (hm : s.gain d (s.submissions id).claimedScoreAtoms = m) (hne : m ≠ 0) :
    d.sm.minImprovementAtoms ≤ m ∧
      (m : ℤ) = s.bestScoreAtoms - (s.submissions id).claimedScoreAtoms := by
  unfold gain at hm
  split at hm
  · rename_i hadv
    subst hm
    exact ⟨hadv.2, by omega⟩
  · exact absurd hm.symm hne

theorem finalized_best (id : ℕ) (hash : Bytes32) :
    (s.finalized d e id hash p).bestScoreAtoms =
      if s.gain d (s.submissions id).claimedScoreAtoms ≠ 0 then
        (s.submissions id).claimedScoreAtoms else s.bestScoreAtoms := by
  unfold finalized
  dsimp only
  split
  · rfl
  · rfl

theorem finalized_funding (id : ℕ) (hash : Bytes32) :
    (s.finalized d e id hash p).toFundingState = s.toFundingState := by
  unfold finalized
  dsimp only
  split
  · rfl
  · rfl

theorem finalizes (h : PhaseTracked d now s.toFundingState s.submissionCount s.entry k)
    (hle : now ≤ e.now) {id : ℕ} {hash : Bytes32} (hrun : s.finalize d e id hash l p = .ok (s', l')) :
    PhaseTracked d e.now s'.toFundingState s'.submissionCount s'.entry
      (.finalized id s.bestScoreAtoms s'.bestScoreAtoms :: k) := by
  obtain ⟨-, -, -, hstatus, -, hcase⟩ := finalize_eq_ok.mp hrun
  split at hcase
  · obtain ⟨-, -, -, rfl⟩ := finalizePriority_eq_ok.mp hcase
    rw [entry_finalized, finalized_submissionCount, finalized_funding]
    refine (h.later hle).finalize hstatus rfl (Or.inl rfl) (fun hne => Or.inr ?_)
    change s.creditOf d id ≠ 0 at hne
    obtain ⟨hpaid, hcredit⟩ := creditOf_ne_zero hne
    obtain ⟨hmin, hdiff⟩ := gain_eq hcredit.symm hne
    refine ⟨hpaid, hmin, ?_⟩
    rw [finalized_best, if_pos (hcredit ▸ hne)]
    exact hdiff
  · obtain ⟨hdup, -⟩ := hcase
    obtain ⟨-, -, rfl⟩ := finalizeDuplicate_eq_ok.mp hdup
    rw [rejectedEntry_eq]
    exact (h.later hle).finalize hstatus rfl (Or.inr (Or.inl rfl)) (fun _ => Or.inl rfl)

theorem call {f : List Frame}
    (h : PhaseTracked d now s.toFundingState s.submissionCount s.entry k)
    (hr : Registered s.submissionCount s.entry) (hle : now ≤ e.now)
    (hrun : c.run d e l p s = .ok (s', l', f)) :
    PhaseTracked d e.now s'.toFundingState s'.submissionCount s'.entry
      ((c.milestone e.now s s').toList ++ k) := by
  by_cases hc : c.milestone e.now s s' = none
  · have hmove := move_of_run hrun
    have hcount := hmove.submissionCount hc
    have hnot : ∀ id hash, c ≠ .finalize id hash := by
      rintro id hash rfl
      cases hc
    rw [hc, hcount]
    exact (h.funding hle (funding_of_run hrun)).quiet (hmove.turns.quiet hcount hnot)
  · cases c with
    | commit commitment daHash =>
        simp only [ManagerCall.run, map_eq_ok, Prod.mk.injEq] at hrun
        obtain ⟨_, hrun, rfl, -⟩ := hrun
        exact h.committed hr hle hrun
    | finalize id hash =>
        simp only [ManagerCall.run, map_eq_ok, Prod.mk.injEq] at hrun
        obtain ⟨⟨_, _⟩, hrun, rfl, -⟩ := hrun
        exact h.finalizes hle hrun
    | _ => exact absurd rfl hc

end PhaseTracked

/-! ### The laws along a run -/

theorem phaseTracked_step {d : Deployment} {w w' : World} {a : Action} {k : List Milestone}
    (hr : SubmissionManager.Registered w.sm.submissionCount w.sm.entry)
    (h : PhaseTracked d w.block.timestamp w.sm.toFundingState w.sm.submissionCount w.sm.entry k)
    (hstep : w.step d a = some w') :
    PhaseTracked d w'.block.timestamp w'.sm.toFundingState w'.sm.submissionCount w'.sm.entry
      (w.milestones a w' k) := by
  cases stepped_of_step hstep with
  | tick block _ _ hle => exact h.later hle
  | @manager sender value ext c s l f _ _ _ hrun =>
      have hdeposit : PhaseTracked d w.block.timestamp
          ({ w.sm with balance := w.sm.balance + value } : SubmissionManager).toFundingState
          ({ w.sm with balance := w.sm.balance + value } : SubmissionManager).submissionCount
          ({ w.sm with balance := w.sm.balance + value } : SubmissionManager).entry k := h
      exact hdeposit.call hr le_rfl hrun
  | @challenge sender value ext c c' s f hsender _ _ hrun =>
      obtain rfl | ⟨hook, hhook, his⟩ :=
        (ChallengeManager.move_of_run hsender.ne.1 hrun).hook w.ledger w.pool
      · exact h
      · have hnone : hook.milestone w.block.timestamp w.sm s = none := by
          cases his <;> rfl
        have hcall := h.call (e := d.asChallenger ⟨w.block, sender, value, ext⟩) hr le_rfl hhook
        have hk : (hook.milestone w.block.timestamp w.sm s).toList ++ k = k := by
          rw [hnone]
          rfl
        exact hk ▸ hcall
  | _ => exact h

theorem phaseTracked_of_reachable {d : Deployment} {p : World × List Milestone}
    (h : d.phasing.Reachable Free p) :
    PhaseTracked d p.1.block.timestamp p.1.sm.toFundingState p.1.sm.submissionCount p.1.sm.entry
      p.2 := by
  refine h.invariant (P := fun p => PhaseTracked d p.1.block.timestamp p.1.sm.toFundingState
    p.1.sm.submissionCount p.1.sm.entry p.2) ?_ (fun p a p' hreach htracked _ hstep => ?_)
  · rintro ⟨w, k⟩ ⟨⟨block, wiring, -, -, hw⟩, hk⟩
    obtain rfl : w = _ := hw
    obtain rfl : k = [] := hk
    exact ⟨Nat.zero_le _, nofun, nofun, nofun, fun _ hne => absurd rfl hne, nofun, nofun,
      fun _ hne => absurd rfl hne⟩
  · obtain ⟨hw, hk⟩ := System.withHistory_step.mp hstep
    rw [hk]
    exact phaseTracked_step (registered_of_reachable
      (System.Reachable.history_fst (C := Free) hreach)) htracked hw

/-- A call changes credit only if it finalizes or voids a paid submission. -/
theorem SubmissionManager.paid_of_credits {d : Deployment} {e : Env} {l l' : PayoutLedger}
    {p : BountyPool} {s s' : SubmissionManager} {c : ManagerCall} {f : List Frame}
    (hrun : c.run d e l p s = .ok (s', l', f)) (hne : l'.creditAtomsOf ≠ l.creditAtomsOf)
    (hcredit : ∀ id, (s.finalizeInfo id).creditAtoms ≠ 0 → s.paidAtCommit id = true) :
    ∃ id, ((∃ hash, c = .finalize id hash) ∨ c = .voidFinalize id) ∧ s.paidAtCommit id = true ∧
      (s.submissions id).status ≠ .none := by
  have hdiff : l' ≠ l := by
    rintro rfl
    exact hne rfl
  by_cases hc : ∀ id hash, c ≠ .finalize id hash
  · by_cases hv : ∀ id, c ≠ .voidFinalize id
    · exact absurd ((move_of_run hrun).rest hc hv).2 hdiff
    · simp only [not_forall, not_not] at hv
      obtain ⟨id, rfl⟩ := hv
      simp only [ManagerCall.run, map_eq_ok, Prod.mk.injEq] at hrun
      obtain ⟨⟨_, _⟩, hrun, rfl, rfl, -⟩ := hrun
      obtain ⟨-, -, -, -, -, hstatus, -, -, hl, -⟩ := voidFinalize_ok hrun
      refine ⟨id, Or.inr rfl, hcredit id (fun hzero => ?_), by rw [hstatus]; decide⟩
      rw [if_pos hzero] at hl
      exact hdiff hl
  · simp only [not_forall, not_not] at hc
    obtain ⟨id, hash, rfl⟩ := hc
    simp only [ManagerCall.run, map_eq_ok, Prod.mk.injEq] at hrun
    obtain ⟨⟨_, _⟩, hrun, rfl, rfl, -⟩ := hrun
    obtain ⟨-, -, -, hstatus, -, hcase⟩ := finalize_eq_ok.mp hrun
    split at hcase
    · obtain ⟨-, -, hl, -⟩ := finalizePriority_eq_ok.mp hcase
      by_cases hzero : s.creditOf d id = 0
      · rw [if_pos hzero] at hl
        exact absurd hl.2 hdiff
      · exact ⟨id, Or.inl ⟨hash, rfl⟩, (creditOf_ne_zero hzero).1, by rw [hstatus]; decide⟩
    · exact absurd hcase.2 hdiff

theorem paid_of_credits_step {d : Deployment} {w w' : World} {a : Action}
    (hstep : w.step d a = some w') (ha : a.KeepsCredit)
    (hne : w'.ledger.creditAtomsOf ≠ w.ledger.creditAtomsOf)
    (hcredit : ∀ id, (w.sm.finalizeInfo id).creditAtoms ≠ 0 → w.sm.paidAtCommit id = true) :
    ∃ id, a.settles = some id ∧ w.sm.paidAtCommit id = true ∧
      (w.sm.submissions id).status ≠ .none := by
  cases stepped_of_step hstep with
  | manager _ _ _ hrun =>
      obtain ⟨id, hc, hpaid, hstatus⟩ := SubmissionManager.paid_of_credits hrun hne hcredit
      refine ⟨id, ?_, hpaid, hstatus⟩
      obtain ⟨hash, rfl⟩ | rfl := hc
      · rfl
      · rfl
  | ledger _ hrun => exact absurd ((LedgerCall.move_of_run hrun).credits ha).2 hne
  | pool _ _ _ hrun => exact absurd ((PoolCall.move_of_run hrun).credits ha).2 hne
  | finishPayout _ hl =>
      obtain rfl | ⟨ev, rfl⟩ := hl
      · exact absurd rfl hne
      · exact absurd rfl hne
  | _ => exact absurd rfl hne

/-- **Open-phase work never earns.**  A submission committed before funding was armed never carries
credit, and no finalize or void of it changes a credit; a submission that carries credit was
committed after arming and by the funding deadline, and its credit is the reduction of the frontier
at its finalize; and the pool books ETH only while funding is armed. -/
theorem openPhaseLaws_of_reachable {d : Deployment} {p : World × List Milestone}
    (h : d.phasing.Reachable Free p) : OpenPhaseLaws d p.1 p.2 := by
  have htracked := phaseTracked_of_reachable h
  have hreach : d.protocol.Reachable Free p.1 := System.Reachable.history_fst (C := Free) h
  have hpaid : ∀ id b t, .committed id b t ∈ p.2 → p.1.sm.paidAtCommit id = b :=
    fun id b t hk => (htracked.count id b t hk).2
  refine ⟨?_, ?_, ?_, ?_, ?_⟩
  · intro id b t b' t' hk hk'
    exact ⟨(hpaid id b t hk).symm.trans (hpaid id b' t' hk'), htracked.once id b t b' t' hk hk'⟩
  · intro id t hk
    by_contra hne
    obtain ⟨⟨t', hk'⟩, -⟩ := htracked.credit id hne
    have hfalse := (hpaid id _ _ hk).symm.trans (hpaid id _ _ hk')
    cases hfalse
  · intro a w' hstep ha hne
    have hcredit : ∀ id, (p.1.sm.finalizeInfo id).creditAtoms ≠ 0 →
        p.1.sm.paidAtCommit id = true := by
      intro id hc
      obtain ⟨⟨t, hk⟩, -⟩ := htracked.credit id hc
      exact hpaid id _ _ hk
    obtain ⟨id, hsettles, htrue, hstatus⟩ := paid_of_credits_step hstep ha hne hcredit
    obtain ⟨b, t, hk⟩ := htracked.entered id hstatus
    obtain rfl : b = true := (hpaid id b t hk).symm.trans htrue
    exact ⟨id, t, hsettles, hk⟩
  · intro id hne
    obtain ⟨⟨t, hk⟩, hmin, b, a, hb, hdiff⟩ := htracked.credit id hne
    obtain ⟨-, harmedAt, htime⟩ := htracked.paid id t hk
    refine ⟨⟨t, hk, harmedAt, htime⟩, hmin, b, a, fun b' a' => ⟨fun hb' => ?_, ?_⟩, hdiff⟩
    · exact htracked.single id b' a' b a hb' hb
    · rintro ⟨rfl, rfl⟩
      exact hb
  · intro a w' hstep hlt hrec
    exact (armed_of_funded hreach hstep hlt hrec).1

theorem openPhaseLaws_sample : ∃ p, Sample.board.phasing.Reachable Free p ∧
    OpenPhaseLaws Sample.board p.1 p.2 ∧ p.1.pool.totalFunded = 1000 ∧
    (p.1.sm.finalizeInfo 1).creditAtoms = 50 := by
  have hrun : (Sample.board.phasing.exec (Sample.genesis, []) Sample.creditRun).map
      (fun p => (p.1.pool.totalFunded, (p.1.sm.finalizeInfo 1).creditAtoms)) = some (1000, 50) := by
    decide +kernel
  obtain ⟨p, hp, heq⟩ := Option.map_eq_some_iff.mp hrun
  simp only [Prod.mk.injEq] at heq
  have hreach : Sample.board.phasing.Reachable Free p :=
    System.Reachable.of_exec ⟨Sample.genesis_init.1, rfl⟩ hp
  exact ⟨p, hreach, openPhaseLaws_of_reachable hreach, heq⟩

end P42Prizes
