import P42Prizes.FrontierMoves

/-! # Telescoping and recovery

On a board whose ledger has the submission manager as its credit recorder, the score reduction
from the seed to `bestScoreAtoms` should be the sum of the marginals of the finalized submissions
that moved the frontier, the credit in the ledger the sum of the credit they were paid, and a
`voidFinalize` the exact inverse of the latest such finalize that is not voided (`FrontierLaws`,
`UndoesLatest`).

`voidFinalize` takes a submission for the live frontier if it has the best score and did not tie
the score it was measured against.  A finalize that did not move the frontier, because it was
worse or below the minimum improvement, can pass this check after other finalizes were voided and
the frontier has come back to its score.  As long as every `voidFinalize` hits a finalize that
moved the frontier the laws hold, and the first one that does not breaks them
(`frontierLaws_iff`). -/

namespace P42Prizes

open Reverting Function Transition Finset

namespace SubmissionManager

/-- The submission is finalized, not voided, and its finalize moved the frontier. -/
def Advanced (d : Deployment) (id : ℕ) (s : SubmissionManager) : Prop :=
  (s.submissions id).status = .finalized ∧
  (s.submissions id).claimedScoreAtoms < (s.finalizeInfo id).prevBestScoreAtoms ∧
  d.sm.minImprovementAtoms ≤
    ((s.finalizeInfo id).prevBestScoreAtoms - (s.submissions id).claimedScoreAtoms).toNat

instance (d : Deployment) (id : ℕ) (s : SubmissionManager) : Decidable (s.Advanced d id) :=
  inferInstanceAs (Decidable (_ ∧ _))

end SubmissionManager

def World.level (w : World) : Level :=
  ⟨w.sm.bestScoreAtoms, w.ledger.totalCreditAtoms, w.sm.creditRecoveryEndsAt⟩

/-- The finalizes that moved the frontier and are not voided, newest first, each with the level
just before it. -/
def World.advances (w : World) (a : Action) (w' : World) (k : List (ℕ × Level)) :
    List (ℕ × Level) :=
  match a with
  | .call _ _ _ (.manager (.finalize id _)) =>
      if w'.sm.bestScoreAtoms = w.sm.bestScoreAtoms then k else (id, w.level) :: k
  | .call _ _ _ (.manager (.voidFinalize id)) => k.filter (fun p => p.1 ≠ id)
  | _ => k

/-- The board together with its advances. -/
def Deployment.advancing (d : Deployment) : System (World × List (ℕ × Level)) Action :=
  d.wired.withHistory [] World.advances

structure FrontierLaws (d : Deployment) (w : World) (k : List (ℕ × Level)) : Prop where
  moved : ∀ id, w.sm.Advanced d id ↔ ∃ v, (id, v) ∈ k
  frontier : d.sm.seedScoreAtoms - w.sm.bestScoreAtoms =
    ∑ id ∈ range (w.sm.submissionCount + 1) with w.sm.Advanced d id,
      ((w.sm.finalizeInfo id).prevBestScoreAtoms - (w.sm.submissions id).claimedScoreAtoms)
  total : w.ledger.totalCreditAtoms =
    ∑ id ∈ range (w.sm.submissionCount + 1) with (w.sm.submissions id).status = .finalized,
      (w.sm.finalizeInfo id).creditAtoms
  credits : ∀ a, w.ledger.creditAtomsOf a =
    ∑ id ∈ range (w.sm.submissionCount + 1) with
      (w.sm.submissions id).status = .finalized ∧ (w.sm.submissions id).solver = a,
      (w.sm.finalizeInfo id).creditAtoms

/-- The submission that the step asks to void. -/
def Action.voids : Action → Option ℕ
  | .call _ _ _ (.manager (.voidFinalize id)) => some id
  | _ => none

/-- A `voidFinalize` is of the latest advance, and puts the level before it in force again. -/
def UndoesLatest (k : List (ℕ × Level)) (a : Action) (w' : World) : Prop :=
  ∀ id, a.voids = some id → k.head? = some (id, w'.level)

/-- A `voidFinalize` hits a submission whose finalize moved the frontier. -/
def VoidsAdvance (d : Deployment) (w : World) (a : Action) : Prop :=
  ∀ id, a.voids = some id → w.sm.Advanced d id

/-! ### The laws in terms of the frontier -/

section laws

variable {d : Deployment} {w : World} {k : List (ℕ × Level)}

theorem advanced_iff (id : ℕ) : w.sm.Advanced d id ↔
    ∃ r, w.frontier.records id = some r ∧ r.Advances d.sm.minImprovementAtoms := by
  show _ ↔ ∃ r, (w.sm.entry id).standing = some r ∧ _
  by_cases hs : (w.sm.submissions id).status = .finalized
  · rw [SubmissionManager.standing_of_finalized hs]
    simp only [Option.some.injEq, exists_eq_left', SubmissionManager.Advanced, hs, true_and,
      Record.Advances]
  · rw [SubmissionManager.standing_eq_none hs]
    simp only [SubmissionManager.Advanced, hs, false_and, reduceCtorEq, exists_false]

theorem sum_standing {M : Type} [AddCommMonoid M] (g : Record Address → M) (P : ℕ → Prop)
    [DecidablePred P] (v : ℕ → M)
    (hg : ∀ id, (w.sm.entry id).standing.elim 0 g = if P id then v id else 0) :
    w.frontier.sum g = ∑ id ∈ range (w.sm.submissionCount + 1) with P id, v id := by
  rw [sum_filter]
  exact sum_congr rfl (fun id _ => hg id)

theorem telescopes_iff :
    w.frontier.Telescopes d.sm.minImprovementAtoms d.sm.seedScoreAtoms ↔
      d.sm.seedScoreAtoms - w.sm.bestScoreAtoms =
        ∑ id ∈ range (w.sm.submissionCount + 1) with w.sm.Advanced d id,
          ((w.sm.finalizeInfo id).prevBestScoreAtoms - (w.sm.submissions id).claimedScoreAtoms) := by
  unfold Frontier.Telescopes
  rw [sum_standing _ (fun id => w.sm.Advanced d id) _ (fun id => ?_)]
  · rfl
  · by_cases hs : (w.sm.submissions id).status = .finalized
    · rw [SubmissionManager.standing_of_finalized hs]
      by_cases hadv : w.sm.Advanced d id
      · rw [if_pos hadv]
        exact if_pos hadv.2
      · rw [if_neg hadv]
        exact if_neg (fun h => hadv ⟨hs, h⟩)
    · rw [SubmissionManager.standing_eq_none hs, if_neg (fun h => hs h.1)]
      rfl

/-- What is kept along a run: the frontier is sound and its advances are its chain. -/
structure Kept (d : Deployment) (w : World) (k : List (ℕ × Level)) : Prop where
  recorder : w.ledger.creditRecorder = d.submissionManager
  accounts : w.frontier.Accounts d.sm.minImprovementAtoms
  telescopes : w.frontier.Telescopes d.sm.minImprovementAtoms d.sm.seedScoreAtoms
  chain : Frontier.Chain d.sm.minImprovementAtoms w.frontier.records ⟨d.sm.seedScoreAtoms, 0, 0⟩ k
    w.frontier.toLevel
  complete : w.frontier.Complete d.sm.minImprovementAtoms k

theorem Kept.laws (h : Kept d w k) : FrontierLaws d w k where
  moved id := by
    rw [advanced_iff]
    constructor
    · rintro ⟨r, hr, hadv⟩
      exact h.complete id r hr hadv
    · rintro ⟨v, hv⟩
      obtain ⟨r, hr, hadv, -⟩ := h.chain.best_le _ hv
      exact ⟨r, hr, hadv⟩
  frontier := telescopes_iff.mp h.telescopes
  total := by
    rw [← sum_standing Record.credit _ _ (fun id => ?_)]
    · exact h.accounts.total
    · by_cases hs : (w.sm.submissions id).status = .finalized
      · rw [SubmissionManager.standing_of_finalized hs, if_pos hs]
        rfl
      · rw [SubmissionManager.standing_eq_none hs, if_neg hs]
        rfl
  credits a := by
    rw [← sum_standing (Record.creditTo · a) _ _ (fun id => ?_)]
    · exact h.accounts.credits a
    · by_cases hs : (w.sm.submissions id).status = .finalized
      · rw [SubmissionManager.standing_of_finalized hs]
        simp only [Option.elim_some, Record.creditTo, hs, true_and]
      · rw [SubmissionManager.standing_eq_none hs, if_neg (fun h => hs h.1)]
        rfl

end laws

/-! ### Along a run -/

section run

variable {d : Deployment} {w w' : World} {a : Action} {k : List (ℕ × Level)}

theorem kept_genesis {w : World} (h : d.wired.init w) : Kept d w [] := by
  obtain ⟨⟨block, wiring, -, -, rfl⟩, hrec⟩ := h
  have hnone : ∀ id, ((d.genesis block wiring).frontier).records id = none := fun _ => rfl
  have hsum : ∀ {M : Type} [AddCommMonoid M] (g : Record Address → M),
      (d.genesis block wiring).frontier.sum g = 0 := by
    intro M _ g
    exact sum_eq_zero (fun id _ => by rw [hnone id]; rfl)
  refine ⟨hrec, ⟨?_, fun a => ?_, fun id r hr => ?_, fun id _ => hnone id⟩, ?_, .nil,
    fun id r hr => ?_⟩
  · rw [hsum]
    rfl
  · rw [hsum]
    rfl
  · rw [hnone id] at hr
    cases hr
  · unfold Frontier.Telescopes
    rw [hsum]
    exact sub_self _
  · rw [hnone id] at hr
    cases hr

theorem advances_of_not_manager (h : ∀ sender value ext c, a ≠ .call sender value ext (.manager c)) :
    w.advances a w' k = k := by
  unfold World.advances
  split
  · exact absurd rfl (h _ _ _ _)
  · exact absurd rfl (h _ _ _ _)
  · rfl

theorem voids_eq_none (h : ∀ sender value ext c, a ≠ .call sender value ext (.manager c)) :
    a.voids = none := by
  unfold Action.voids
  split
  · exact absurd rfl (h _ _ _ _)
  · rfl

theorem voids_eq_some {sender : Address} {value : ℕ} {ext : External} {c : ManagerCall} {id : ℕ}
    (h : (Action.call sender value ext (.manager c)).voids = some id) : c = .voidFinalize id := by
  cases c with
  | voidFinalize j => rw [Option.some.inj h]
  | _ => cases h

/-- A step that voids no finalize but one that moved the frontier keeps the frontier sound. -/
theorem Kept.step (h : Kept d w k)
    (hr : SubmissionManager.Registered w.sm.submissionCount w.sm.entry)
    (hstep : w.step d a = some w') (hvoid : VoidsAdvance d w a) :
    Kept d w' (w.advances a w' k) ∧ UndoesLatest k a w' := by
  have hne : w.ledger.creditRecorder ≠ 0 := by
    rw [h.recorder]
    exact Ne.symm d.addresses_ne.1
  have hrec : w'.ledger.creditRecorder = d.submissionManager := by
    rw [creditRecorder_step hstep hne, h.recorder]
  have hkeep : w.advances a w' k = k → ∀ ids, w.frontier.ids ⊆ ids →
      w'.frontier = w.frontier.widen ids → Kept d w' (w.advances a w' k) := by
    intro hk ids hids heq
    rw [hk]
    refine ⟨hrec, ?_, ?_, ?_, ?_⟩
    · rw [heq]
      exact h.accounts.widen hids
    · rw [heq]
      exact h.telescopes.widen h.accounts hids
    · rw [heq]
      exact h.chain
    · rw [heq]
      exact h.complete
  cases frontier_stepped hstep hr (keepsCredit_of_wired hstep h.recorder) with
  | quiet ids hnot hids heq =>
      exact ⟨hkeep (advances_of_not_manager hnot) ids hids heq,
        fun id hid => by rw [voids_eq_none hnot] at hid; cases hid⟩
  | @call sender value ext c ha hmove =>
      subst ha
      have hbest : w'.sm.bestScoreAtoms = w'.frontier.best := rfl
      have hlevel : w'.level = w'.frontier.toLevel := rfl
      generalize hf : w'.frontier = f' at hmove
      cases hmove with
      | rest hnot hids =>
          have hk : w.advances (.call sender value ext (.manager c)) w' k = k := by
            unfold World.advances
            split
            · rw [if_pos]
              rw [hbest, hf]
              rfl
            · rename_i heq
              cases heq
              exact absurd rfl (hnot _)
            · rfl
          exact ⟨hkeep hk _ hids hf, fun id hid => absurd (voids_eq_some hid) (hnot id)⟩
      | @set id hash r t hid hnone hm =>
          have hk : w.advances (.call sender value ext (.manager (.finalize id hash))) w' k =
              if r.Advances d.sm.minImprovementAtoms then (id, w.frontier.toLevel) :: k else k := by
            have hbefore : r.before = w.sm.bestScoreAtoms := hm.before
            show (if w'.sm.bestScoreAtoms = w.sm.bestScoreAtoms then k else (id, w.level) :: k) = _
            rw [hbest, hf]
            show (if (if r.Advances _ then r.score else w.sm.bestScoreAtoms) = _ then _ else _) = _
            by_cases hadv : r.Advances d.sm.minImprovementAtoms
            · have hlt := hadv.1
              rw [if_pos hadv, if_pos hadv, if_neg (by omega)]
              rfl
            · rw [if_neg hadv, if_neg hadv, if_pos rfl]
          rw [hk]
          refine ⟨⟨hrec, ?_, ?_, ?_, ?_⟩, fun _ hid => nomatch hid⟩
          · rw [hf]
            exact h.accounts.set hid hnone hm.fair t
          · rw [hf]
            exact h.telescopes.set hid hnone hm.before
          · rw [hf]
            exact h.chain.set hnone hm
          · rw [hf]
            exact h.complete.set
      | @retract id r hrecord hscore hprev =>
          have hadv := hvoid id rfl
          obtain ⟨r', hr', hadv'⟩ := (advanced_iff id).mp hadv
          obtain rfl : r = r' := by
            rw [hrecord] at hr'
            exact Option.some.inj hr'
          obtain ⟨b, hb⟩ := h.complete id r hrecord hadv'
          have hhead := h.chain.eq_head hb hrecord hscore
          obtain ⟨tail, rfl⟩ : ∃ tail, k = (id, b) :: tail := by
            cases k with
            | nil => cases hhead
            | cons q tail => exact ⟨tail, by rw [Option.some.inj hhead]⟩
          have hk : w.advances (.call sender value ext (.manager (.voidFinalize id))) w'
              ((id, b) :: tail) = tail := h.chain.filter_head
          have hback := h.chain.retract hrecord
          refine ⟨⟨hrec, ?_, ?_, ?_, ?_⟩, fun _ hid => ?_⟩
          · rw [hf]
            exact h.accounts.retract hrecord
          · rw [hf]
            exact (h.telescopes.retract_iff h.accounts hrecord hscore hprev).mpr hadv'
          · rw [hk, hf, hback]
            exact h.chain.tail
          · have hcomplete := h.complete.retract (i := id) (r := r)
            rw [h.chain.filter_head] at hcomplete
            rw [hk, hf]
            exact hcomplete
          · cases hid
            rw [hlevel, hf, hback]
            rfl

/-- A `voidFinalize` that keeps the telescoping hits a finalize that moved the frontier. -/
theorem Kept.voidsAdvance (h : Kept d w k)
    (hr : SubmissionManager.Registered w.sm.submissionCount w.sm.entry)
    (hstep : w.step d a = some w') {k' : List (ℕ × Level)} (hlaws : FrontierLaws d w' k') :
    VoidsAdvance d w a := by
  intro id hid
  cases frontier_stepped hstep hr (keepsCredit_of_wired hstep h.recorder) with
  | quiet ids hnot _ _ =>
      rw [voids_eq_none hnot] at hid
      cases hid
  | call c ha hmove =>
      rw [ha] at hid
      obtain rfl := voids_eq_some hid
      generalize hf : w'.frontier = f' at hmove
      cases hmove with
      | rest hnot _ => exact absurd rfl (hnot id)
      | @retract _ r hrecord hscore hprev =>
          have htel := telescopes_iff.mpr hlaws.frontier
          rw [hf] at htel
          exact (advanced_iff id).mpr ⟨r, hrecord,
            (h.telescopes.retract_iff h.accounts hrecord hscore hprev).mp htel⟩

end run

/-- As long as every `voidFinalize` hit a finalize that moved the frontier, the laws hold, and a
further step keeps them if and only if it does the same. -/
theorem frontierLaws_iff {d : Deployment} {p : World × List (ℕ × Level)}
    (h : d.advancing.Reachable (fun p a => VoidsAdvance d p.1 a) p) :
    FrontierLaws d p.1 p.2 ∧ ∀ a q, d.advancing.step p a = some q →
      (VoidsAdvance d p.1 a ↔ FrontierLaws d q.1 q.2 ∧ UndoesLatest p.2 a q.1) := by
  have hreg : ∀ {p : World × List (ℕ × Level)},
      d.advancing.Reachable (fun p a => VoidsAdvance d p.1 a) p →
      SubmissionManager.Registered p.1.sm.submissionCount p.1.sm.entry :=
    fun hp => registered_of_reachable (Deployment.wired_protocol (System.Reachable.history_fst (C := VoidsAdvance d) hp))
  have hkept : Kept d p.1 p.2 := by
    refine h.invariant (P := fun p => Kept d p.1 p.2) ?_ ?_
    · rintro ⟨w, k⟩ ⟨hinit, hk⟩
      change k = [] at hk
      subst hk
      exact kept_genesis hinit
    · intro p a q hp hkept hvoid hstep
      obtain ⟨hs, hq⟩ := System.withHistory_step.mp hstep
      rw [hq]
      exact (hkept.step (hreg hp) hs hvoid).1
  refine ⟨hkept.laws, fun a q hstep => ?_⟩
  obtain ⟨hs, hq⟩ := System.withHistory_step.mp hstep
  constructor
  · intro hvoid
    obtain ⟨hkept', hundo⟩ := hkept.step (hreg h) hs hvoid
    rw [hq]
    exact ⟨hkept'.laws, hundo⟩
  · rintro ⟨hlaws, -⟩
    exact hkept.voidsAdvance (hreg h) hs hlaws

namespace Sample

/-- `solutionY` and the worse `solutionX` have the same score.  `solutionX` was finalized when
`solutionA` stood; when `solutionA` is voided and `solutionY` finalized, `solutionX` has the best
score without having moved the frontier. -/
def staleRun : List Action :=
  [solutionA.commit 1, solutionX.commit 1, .tick (blockAt 12 2 mature_fits), solutionA.reveal 1,
    solutionX.reveal 2, .tick (blockAt (12 + window) 3 closed_fits), solutionA.finalize 1,
    solutionX.finalize 2, solutionY.commit 1, byOwner (.setPausedAll true),
    byOwner (.voidFinalize 1), byOwner (.setPausedAll false), .tick (blockAt (24 + window) 4),
    solutionY.reveal 3, .tick (blockAt (24 + 2 * window) 5), solutionY.finalize 3,
    byOwner (.setPausedAll true), byOwner (.voidFinalize 2)]

/-- `solutionA` is finalized and the board paused. -/
def advancedRun : List Action :=
  [solutionA.commit 1, .tick (blockAt 12 2 mature_fits), solutionA.reveal 1,
    .tick (blockAt (12 + window) 3 closed_fits), solutionA.finalize 1, byOwner (.setPausedAll true)]

end Sample

/-- Voiding a finalize that did not move the frontier: the best score is off by twenty. -/
theorem frontierLaws_stale : ∃ w, Sample.board.wired.exec Sample.genesis Sample.staleRun = some w ∧
    Sample.board.wired.Reachable Free w ∧ ∀ k, ¬ FrontierLaws Sample.board w k := by
  have hrun : (Sample.board.wired.exec Sample.genesis Sample.staleRun).map (fun w =>
      decide (Sample.board.sm.seedScoreAtoms - w.sm.bestScoreAtoms =
        ∑ id ∈ range (w.sm.submissionCount + 1) with w.sm.Advanced Sample.board id,
          ((w.sm.finalizeInfo id).prevBestScoreAtoms -
            (w.sm.submissions id).claimedScoreAtoms))) = some false := by decide +kernel
  obtain ⟨w, hw, hfacts⟩ := Option.map_eq_some_iff.mp hrun
  exact ⟨w, hw, .of_exec Sample.genesis_init hw,
    fun k hlaws => of_decide_eq_false hfacts hlaws.frontier⟩

theorem frontierLaws_sample : ∃ p q,
    Sample.board.advancing.exec (Sample.genesis, []) Sample.advancedRun = some p ∧
    Sample.board.advancing.step p (Sample.byOwner (.voidFinalize 1)) = some q ∧
    FrontierLaws Sample.board q.1 q.2 ∧
    UndoesLatest p.2 (Sample.byOwner (.voidFinalize 1)) q.1 := by
  have hrun : (Sample.board.advancing.exec (Sample.genesis, []) Sample.advancedRun).bind (fun p =>
      (Sample.board.advancing.step p (Sample.byOwner (.voidFinalize 1))).map (fun _ =>
        decide (p.1.sm.Advanced Sample.board 1))) = some true := by decide +kernel
  obtain ⟨p, hp, hrun⟩ := Option.bind_eq_some_iff.mp hrun
  obtain ⟨q, hq, hfacts⟩ := Option.map_eq_some_iff.mp hrun
  have hnone : ∀ a ∈ Sample.advancedRun, a.voids = none := by decide
  have hreach : Sample.board.advancing.Reachable (fun p a => VoidsAdvance Sample.board p.1 a) p :=
    ⟨_, _, ⟨Sample.genesis_init, rfl⟩, System.run_of_exec_of hp (fun s a ha id hid => by
      rw [hnone a ha] at hid
      cases hid)⟩
  have hvoid : VoidsAdvance Sample.board p.1 (Sample.byOwner (.voidFinalize 1)) := by
    intro id hid
    cases hid
    exact of_decide_eq_true hfacts
  exact ⟨p, q, hp, hq, ((frontierLaws_iff hreach).2 _ q hq).mp hvoid⟩

end P42Prizes
