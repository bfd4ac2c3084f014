import P42Prizes.Register

/-! # A fresh window for the solver who prevails

A submission that goes back from challenged to revealed gets a new challenge window, clipped to
the dispute horizon that was fixed at its reveal.  If the settlement comes before the horizon
(or during or right after a full pause, or by an objective proof) then nobody can expire the
submission within a challenge window from the settlement (`freshWindow`).  A settlement after
the horizon sets a deadline in the past (`freshWindow_late`). -/

namespace P42Prizes

open Reverting Function Transition SubmissionManager

/-- An objective proof decides the dispute. -/
def Action.IsObjective : Action → Prop
  | .call _ _ _ (.challenge (.applyObjectiveResolution ..)) => True
  | .call _ _ _ (.manager (.resolveObjectiveChallenge ..)) => True
  | _ => False

/-- The submission `id` was challenged and is revealed again. -/
def Returns (id : ℕ) (w w' : World) : Prop :=
  (w.sm.submissions id).status = .challenged ∧ (w'.sm.submissions id).status = .revealed

/-- In every continuation from `w` nobody expires the revealed submission `id` before `deadline`. -/
def NoExpiryBefore (d : Deployment) (id deadline : ℕ) (w : World) : Prop :=
  ∀ as v e s, d.protocol.Run Free w as v → e.block = v.block →
    v.sm.expireRevealed d e id = .ok s → deadline ≤ v.block.timestamp

/-- The settlement `a` of the dispute on `id` happens before the dispute horizon, or it does not
need to. -/
def Timely (d : Deployment) (id : ℕ) (w : World) (a : Action) : Prop :=
  w.block.timestamp ≤ w.sm.maxDisputeEndsAtOf id ∨ w.sm.pausedAll = true ∨
    w.block.timestamp + d.sm.challengeWindowSeconds ≤ w.sm.expiryGraceUntil ∨ a.IsObjective

/-! ### What shelters a submission -/

/-- Everything is paused, or was so recently that nothing expires before `deadline`. -/
def PauseState.Shelters (deadline : ℕ) (p : PauseState) : Prop :=
  p.pausedAll = true ∨ deadline ≤ p.expiryGraceUntil

/-- A submission whose disputes leave it a window that starts at `t` or later. -/
structure Entry.Protected (t : ℕ) (x : Entry) : Prop where
  past : x.sub.status ≠ .none ∧ x.sub.status ≠ .committed
  revealed : x.sub.status = .revealed →
    t ≤ x.sub.challengeEndsAt ∧ (t ≤ x.maxDisputeEndsAt ∨ x.clearedHash = x.revealHash)
  challenged : x.sub.status = .challenged → t ≤ x.maxDisputeEndsAt

/-- The submission `id` cannot expire within a window from `t`. -/
def SubmissionManager.Sheltered (d : Deployment) (t id : ℕ) (s : SubmissionManager) : Prop :=
  s.toPauseState.Shelters (t + d.sm.challengeWindowSeconds) ∨ (s.entry id).Protected t

section steps

variable {d : Deployment} {e : Env} {l l' : PayoutLedger} {p : BountyPool}
  {s s' : SubmissionManager} {c : ManagerCall} {f : List Frame} {t id : ℕ}

theorem SubmissionManager.PauseMove.shelters {q q' : PauseState} (h : PauseMove d e q q')
    (hnow : t ≤ e.now) (hq : q.Shelters (t + d.sm.challengeWindowSeconds)) :
    q'.Shelters (t + d.sm.challengeWindowSeconds) := by
  cases h with
  | keep b => exact hq
  | arm => exact Or.inl rfl
  | clear =>
      right
      show t + d.sm.challengeWindowSeconds ≤ e.now + d.sm.challengeWindowSeconds
      omega

theorem SubmissionManager.Turn.protected {y : Entry} (h : Turn d e l s c id y) (hnow : t ≤ e.now)
    (hp : (s.entry id).Protected t) : y.Protected t := by
  have hpast : (s.submissions id).status ≠ .committed := hp.past.2
  cases h with
  | addBond => exact ⟨hp.past, hp.revealed, hp.challenged⟩
  | release => exact ⟨hp.past, hp.revealed, hp.challenged⟩
  | reveal hstatus => exact absurd hstatus hpast
  | yield hstatus => exact absurd hstatus hpast
  | retire =>
      exact ⟨⟨(nomatch ·), (nomatch ·)⟩, (nomatch ·), (nomatch ·)⟩
  | finalize => exact ⟨⟨(nomatch ·), (nomatch ·)⟩, (nomatch ·), (nomatch ·)⟩
  | void => exact ⟨⟨(nomatch ·), (nomatch ·)⟩, (nomatch ·), (nomatch ·)⟩
  | mark _ hstatus hclear _ =>
      refine ⟨⟨(nomatch ·), (nomatch ·)⟩, (nomatch ·), fun _ => ?_⟩
      obtain hmax | hcleared := (hp.revealed hstatus).2
      · exact hmax
      · exact absurd hcleared hclear
  | rearm _ _ hstatus _ =>
      have hmax : t ≤ s.maxDisputeEndsAtOf id := hp.challenged hstatus
      refine ⟨⟨(nomatch ·), (nomatch ·)⟩, fun _ => ⟨?_, Or.inl hmax⟩, (nomatch ·)⟩
      exact le_min (le_trans hnow (Nat.le_add_right _ _)) hmax
  | clear => exact ⟨⟨(nomatch ·), (nomatch ·)⟩, fun _ => ⟨hnow, Or.inr rfl⟩, (nomatch ·)⟩

theorem SubmissionManager.Move.sheltered (hmove : Move d e l p s c s' l' f)
    (hr : Registered s.submissionCount s.entry) (hnow : t ≤ e.now) (hs : s.Sheltered d t id) :
    s'.Sheltered d t id := by
  obtain hpause | hprotected := hs
  · exact Or.inl (hmove.pause.shelters hnow hpause)
  · right
    obtain heq | hturn := hmove.turns.of_le (hr.le hprotected.past.1).2
    · rw [heq]
      exact hprotected
    · exact hturn.protected hnow hprotected

end steps

variable {d : Deployment} {w w' v : World} {a : Action} {t id : ℕ}

theorem sheltered_step (hreach : d.protocol.Reachable Free w) (hstep : w.step d a = some w')
    (h : t ≤ w.block.timestamp ∧ w.sm.Sheltered d t id) :
    t ≤ w'.block.timestamp ∧ w'.sm.Sheltered d t id := by
  have hr := registered_of_reachable hreach
  obtain ⟨hnow, hs⟩ := h
  cases manager_stepped hstep with
  | quiet hle hsm _ _ =>
      rw [hsm]
      exact ⟨le_trans hnow hle, hs⟩
  | eth amount hblock _ hsm _ _ =>
      rw [hblock, hsm]
      exact ⟨hnow, hs⟩
  | finish claimant amount hblock _ _ hsm =>
      rw [hblock, hsm]
      exact ⟨hnow, hs⟩
  | call e c f hblock hblock' _ _ _ hrun _ _ _ =>
      have hnow' : t ≤ e.now := by
        show t ≤ e.block.timestamp
        rw [hblock]
        exact hnow
      rw [hblock']
      exact ⟨hnow, (SubmissionManager.move_of_run hrun).sheltered hr hnow' hs⟩

/-- An objective decision for the solver clears the reveal. -/
theorem objective_clears (hreach : d.protocol.Reachable Free w) (hstep : w.step d a = some w')
    (hreturns : Returns id w w') (ha : a.IsObjective) :
    (w'.sm.submissions id).challengeEndsAt = w.block.timestamp ∧
      w'.sm.objectiveClearedRevealInstanceHashOf id = w'.sm.revealInstanceHashOf id := by
  have hr := registered_of_reachable hreach
  have hchange : w'.sm.submissions id ≠ w.sm.submissions id := by
    intro heq
    have hstatus := hreturns.2
    rw [heq, hreturns.1] at hstatus
    cases hstatus
  cases manager_stepped hstep with
  | quiet _ hsm _ _ => exact absurd (by rw [hsm]) hchange
  | eth amount _ _ hsm _ _ => exact absurd (by rw [hsm]) hchange
  | finish claimant amount _ _ _ hsm => exact absurd (by rw [hsm]; rfl) hchange
  | call e c f hblock _ _ _ _ hrun _ _ horigin =>
      have hcall : ∃ id' wins beneficiary, c = .resolveObjectiveChallenge id' wins beneficiary := by
        obtain ⟨rfl, -⟩ | ⟨-, -, _, _, _, q, rfl, hhook⟩ := horigin
        · cases c with
          | resolveObjectiveChallenge => exact ⟨_, _, _, rfl⟩
          | _ => exact ha.elim
        · cases hhook with
          | objective => exact ⟨_, _, _, rfl⟩
          | _ => exact ha.elim
      obtain ⟨id', wins, beneficiary, rfl⟩ := hcall
      have hnone : (w.sm.entry id).sub.status ≠ .none := by
        rw [SubmissionManager.entry, hreturns.1]
        decide
      have hturns := (SubmissionManager.move_of_run hrun).turns
      have hle : id ≤ w.sm.submissionCount := (hr.le hnone).2
      obtain heq | hturn := hturns.of_le hle
      · exact absurd (congrArg Entry.sub heq) hchange
      · have hstatus : (w'.sm.entry id).sub.status = .revealed := hreturns.2
        have hends : (w'.sm.entry id).sub.challengeEndsAt = (w'.sm.submissions id).challengeEndsAt := rfl
        have hcleared : (w'.sm.entry id).clearedHash = w'.sm.objectiveClearedRevealInstanceHashOf id := rfl
        have hreveal : (w'.sm.entry id).revealHash = w'.sm.revealInstanceHashOf id := rfl
        rw [← hends, ← hcleared, ← hreveal]
        generalize w'.sm.entry id = y at hturn hstatus
        cases hturn with
        | retire => cases hstatus
        | rearm hcall =>
            obtain ⟨_, hcall⟩ | hcall := hcall <;> cases hcall
        | clear => exact ⟨congrArg Block.timestamp hblock, rfl⟩

/-- **A fresh window.**  After a timely settlement the submission cannot be expired for a
challenge window. -/
theorem freshWindow (hreach : d.protocol.Reachable Free w) (hstep : w.step d a = some w')
    (hreturns : Returns id w w') (htimely : Timely d id w a) :
    NoExpiryBefore d id (w.block.timestamp + d.sm.challengeWindowSeconds) w' := by
  intro as v e s hrun hblock hexpire
  have hsheltered : w.block.timestamp ≤ w'.block.timestamp ∧
      w'.sm.Sheltered d w.block.timestamp id := by
    have hkeep : w.sm.Sheltered d w.block.timestamp id → _ :=
      fun hs => sheltered_step hreach hstep ⟨le_rfl, hs⟩
    obtain hmax | hpaused | hgrace | hobjective := htimely
    · refine hkeep (Or.inr ⟨?_, ?_, fun _ => hmax⟩)
      · show (w.sm.submissions id).status ≠ .none ∧ (w.sm.submissions id).status ≠ .committed
        rw [hreturns.1]
        decide
      · intro hstatus
        have hchallenged : (w.sm.submissions id).status = .revealed := hstatus
        rw [hreturns.1] at hchallenged
        cases hchallenged
    · exact hkeep (Or.inl (Or.inl hpaused))
    · exact hkeep (Or.inl (Or.inr hgrace))
    · obtain ⟨hends, hcleared⟩ := objective_clears hreach hstep hreturns hobjective
      have hle : w.block.timestamp ≤ w'.block.timestamp := by
        cases manager_stepped hstep with
        | quiet hle _ _ _ => exact hle
        | eth amount hblock _ _ _ _ => rw [hblock]
        | finish claimant amount hblock _ _ _ => rw [hblock]
        | call e c f _ hblock _ _ _ _ _ _ _ => rw [hblock]
      refine ⟨hle, Or.inr ⟨?_, fun _ => ⟨hends.ge, Or.inr hcleared⟩, ?_⟩⟩
      · show (w'.sm.submissions id).status ≠ .none ∧ (w'.sm.submissions id).status ≠ .committed
        rw [hreturns.2]
        decide
      · intro hstatus
        have hrevealed : (w'.sm.submissions id).status = .challenged := hstatus
        rw [hreturns.2] at hrevealed
        cases hrevealed
  have hlast := hrun.invariant_of (J := fun w => d.protocol.Reachable Free w)
    (P := fun v => w.block.timestamp ≤ v.block.timestamp ∧ v.sm.Sheltered d w.block.timestamp id)
    (fun _ _ _ hj hc hs => hj.step hc hs) (fun _ _ _ hj hp _ hs => sheltered_step hj hs hp)
    (hreach.step trivial hstep) hsheltered
  have hnow : e.now = v.block.timestamp := congrArg Block.timestamp hblock
  obtain ⟨hpaused, -, hstatus, -, hends, hgrace, -⟩ := expireRevealed_eq_ok.mp hexpire
  obtain (hp | hg) | hprotected := hlast.2
  · have hp' : v.sm.pausedAll = true := hp
    rw [hpaused] at hp'
    cases hp'
  · exact le_trans hg (hnow ▸ hgrace)
  · have hle : w.block.timestamp ≤ (v.sm.submissions id).challengeEndsAt := (hprotected.revealed hstatus).1
    omega

/-! ### A late and a timely settlement -/

namespace Sample

def challenger : Address := 0xc1

/-- `solutionA` is revealed twelve seconds after its commit. -/
def revealHashA : Bytes32 :=
  board.revealInstanceHash ⟨1, solutionA.solver,
    crypto.keccak256 (commitPreimageWithDa solutionA.cid solutionA.solver 0xda [1]), 0xda,
    solutionA.cid, solutionA.claimed, 50, start + 12 + window⟩

def challengeHashA : Bytes32 :=
  board.challengeInstanceHash ⟨1, revealHashA, challenger, 7, start + 24, start + 24 + window⟩

/-- `solutionA` is revealed and challenged, and `seconds` after the deployment the dispute is
still open. -/
def disputedRun (seconds : ℕ) (h : start + seconds < 2 ^ 63 := by decide) : List Action :=
  [solutionA.commit 1, .tick (blockAt 12 2 mature_fits), solutionA.reveal 1,
    .tick (blockAt 24 3 revealed_fits), .call challenger 1 {} (.challenge (.challenge 1 revealHashA 7)),
    .tick (blockAt seconds 4 h)]

/-- The resolver was silent. -/
def expireChallengeA : Action := .call challenger 0 {} (.challenge (.expireChallenge 1 challengeHashA))

end Sample

/-- Settled a window after its dispute horizon, the submission expires at once. -/
theorem freshWindow_late : ∃ w w', Sample.board.protocol.Reachable Free w ∧
    w.step Sample.board Sample.expireChallengeA = some w' ∧ Returns 1 w w' ∧
    ¬ NoExpiryBefore Sample.board 1
      (w.block.timestamp + Sample.board.sm.challengeWindowSeconds) w' := by
  let e : Env := ⟨Sample.blockAt (12 + 4 * Sample.window) 4, Sample.challenger, 0, {}⟩
  have hrun : (Sample.board.protocol.exec Sample.genesis
      (Sample.disputedRun (12 + 4 * Sample.window))).bind (fun w =>
        (w.step Sample.board Sample.expireChallengeA).map (fun w' =>
          decide (w.block.timestamp = e.now ∧ w'.block.timestamp = e.now ∧
            w'.block.number = e.block.number ∧
            (w.sm.submissions 1).status = .challenged ∧ (w'.sm.submissions 1).status = .revealed ∧
            (w'.sm.expireRevealed Sample.board e 1).toOption.isSome))) = some true := by
    decide +kernel
  obtain ⟨w, hw, hrun⟩ := Option.bind_eq_some_iff.mp hrun
  obtain ⟨w', hw', hfacts⟩ := Option.map_eq_some_iff.mp hrun
  obtain ⟨hnow, hnow', hnumber, hbefore, hafter, hexpire⟩ := of_decide_eq_true hfacts
  refine ⟨w, w', .of_exec Sample.genesis_init.1 hw, hw', ⟨hbefore, hafter⟩, fun hno => ?_⟩
  have hblock : e.block = w'.block := by
    cases hb : w'.block
    rw [hb] at hnow' hnumber
    simp only at hnow' hnumber
    subst hnow' hnumber
    rfl
  cases hexpired : w'.sm.expireRevealed Sample.board e 1 with
  | error r => rw [hexpired] at hexpire; cases hexpire
  | ok s =>
      have hle := hno [] w' e s (.refl _) hblock hexpired
      rw [hnow, hnow'] at hle
      have hwindow := Sample.board.sm.window_pos
      omega

theorem freshWindow_sample : ∃ w w', Sample.board.protocol.exec Sample.genesis
      (Sample.disputedRun (24 + Sample.window)) = some w ∧
    w.step Sample.board Sample.expireChallengeA = some w' ∧
    NoExpiryBefore Sample.board 1
      (w.block.timestamp + Sample.board.sm.challengeWindowSeconds) w' := by
  have hrun : (Sample.board.protocol.exec Sample.genesis
      (Sample.disputedRun (24 + Sample.window))).bind (fun w =>
        (w.step Sample.board Sample.expireChallengeA).map (fun w' =>
          decide (w.block.timestamp ≤ w.sm.maxDisputeEndsAtOf 1 ∧
            (w.sm.submissions 1).status = .challenged ∧
            (w'.sm.submissions 1).status = .revealed))) = some true := by
    decide +kernel
  obtain ⟨w, hw, hrun⟩ := Option.bind_eq_some_iff.mp hrun
  obtain ⟨w', hw', hfacts⟩ := Option.map_eq_some_iff.mp hrun
  obtain ⟨hmax, hbefore, hafter⟩ := of_decide_eq_true hfacts
  exact ⟨w, w', hw, hw', freshWindow (.of_exec Sample.genesis_init.1 hw) hw' ⟨hbefore, hafter⟩
    (Or.inl hmax)⟩

end P42Prizes
