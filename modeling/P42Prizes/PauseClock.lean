import P42Prizes.Register

/-! # The clock that stops during a full pause

The reveal deadline is counted on a clock that stands still while everything is paused
(`PauseState.active`, which `activeTimestamp` computes).  A history of the run records what an
observer with a stopwatch sees (`PauseHistory`): the unpaused seconds since each commit, and
when the pauses began and ended.  `pauseLaws_of_reachable` compares the two in every reachable
state. -/

namespace P42Prizes

open Reverting Function Transition SubmissionManager

/-! ### The stopped clock -/

namespace PauseState

/-- The time on the stopped clock. -/
def active (now : ℕ) (p : PauseState) : ℕ :=
  (if p.pausedAll then p.pausedAllAt else now) - p.totalPausedAllSeconds

/-- The bookkeeping of the pauses is consistent at time `now`. -/
structure Sound (now : ℕ) (p : PauseState) : Prop where
  total : p.totalPausedAllSeconds ≤ if p.pausedAll then p.pausedAllAt else now
  began : p.pausedAll = true → p.pausedAllAt ≤ now

variable {d : Deployment} {e : Env} {p p' : PauseState} {now now' : ℕ}

theorem Sound.total_le (h : p.Sound now) : p.totalPausedAllSeconds ≤ now := by
  have htotal := h.total
  split at htotal
  · rename_i hp
    exact le_trans htotal (h.began hp)
  · exact htotal

theorem Sound.later (h : p.Sound now) (hle : now ≤ now') : p.Sound now' where
  total := by
    refine le_trans h.total ?_
    split
    · exact le_rfl
    · exact hle
  began hp := le_trans (h.began hp) hle

/-- The clock runs exactly while nothing is paused. -/
theorem active_later (h : p.Sound now) (hle : now ≤ now') :
    p.active now' = p.active now + if p.pausedAll then 0 else now' - now := by
  have htotal := h.total
  unfold active
  split at htotal <;> rename_i hp
  · simp only [hp, if_true, add_zero]
  · simp only [hp, if_false, Bool.false_eq_true]
    omega

theorem active_le (h : p.Sound now) : p.active now ≤ now := by
  have hbegan := h.began
  unfold active
  split
  · rename_i hp
    exact le_trans (Nat.sub_le _ _) (hbegan hp)
  · exact Nat.sub_le _ _

end PauseState

theorem SubmissionManager.PauseMove.sound {d : Deployment} {e : Env} {p p' : PauseState} (h : PauseMove d e p p')
    (hp : p.Sound e.now) : p'.Sound e.now := by
  have htotal := hp.total
  cases h with
  | keep b => exact ⟨htotal, hp.began⟩
  | arm hpaused _ =>
      refine ⟨?_, fun _ => le_rfl⟩
      rw [hpaused] at htotal
      exact htotal
  | clear hpaused hat =>
      refine ⟨?_, fun h => by cases h⟩
      rw [hpaused, if_pos rfl] at htotal
      simp only [Bool.false_eq_true, if_false]
      omega

/-- Pausing and unpausing take no time on the clock. -/
theorem SubmissionManager.PauseMove.active_eq {d : Deployment} {e : Env} {p p' : PauseState} (h : PauseMove d e p p')
    (hp : p.Sound e.now) : p'.active e.now = p.active e.now := by
  have htotal := hp.total
  cases h with
  | keep b => rfl
  | arm hpaused _ => simp only [PauseState.active, hpaused, if_true, Bool.false_eq_true, if_false]
  | clear hpaused hat =>
      rw [hpaused, if_pos rfl] at htotal
      simp only [PauseState.active, hpaused, if_true, Bool.false_eq_true, if_false]
      omega

/-- A full pause goes on, begins or ends. -/
theorem SubmissionManager.PauseMove.cases_pausedAll {d : Deployment} {e : Env} {p p' : PauseState}
    (h : PauseMove d e p p') :
    (p'.pausedAll = p.pausedAll ∧ p'.pausedAllAt = p.pausedAllAt ∧
      p'.expiryGraceUntil = p.expiryGraceUntil) ∨
    (p.pausedAll = false ∧ p'.pausedAll = true ∧ p'.pausedAllAt = e.now ∧
      p.expiryGraceUntil ≤ e.now) ∨
    (p.pausedAll = true ∧ p'.pausedAll = false ∧
      p'.expiryGraceUntil = e.now + d.sm.challengeWindowSeconds) := by
  cases h with
  | keep b => exact Or.inl ⟨rfl, rfl, rfl⟩
  | arm hpaused hgrace => exact Or.inr (Or.inl ⟨hpaused, rfl, rfl, hgrace⟩)
  | clear hpaused _ => exact Or.inr (Or.inr ⟨hpaused, rfl, rfl⟩)

namespace SubmissionManager

variable {d : Deployment} {e e' : Env} {s s' : SubmissionManager} {id : ℕ}

/-- `activeTimestamp` never reverts and reads the stopped clock. -/
theorem activeTimestamp_eq (h : s.toPauseState.Sound e.now) :
    s.activeTimestamp e = .ok (s.toPauseState.active e.now) := by
  have htotal := h.total
  have hnow := e.now_lt
  unfold activeTimestamp PauseState.active
  split <;> rename_i hp
  · have hbegan := h.began hp
    rw [if_pos hp] at htotal
    simp only [bind_eq_ok, checkedSub_eq_ok, checkedAdd_eq_ok, and_assoc, exists_and_left,
      exists_eq_left']
    omega
  · rw [if_neg hp] at htotal
    simp only [checkedSub_eq_ok, htotal, and_self]

/-- The reveal deadline of `id` on the stopped clock. -/
def revealDeadline (d : Deployment) (id : ℕ) (s : SubmissionManager) : ℕ :=
  s.committedActiveAtOf id + d.sm.challengeWindowSeconds

/-- `_requireCommitOpen` failed for lateness. -/
def TooLate (d : Deployment) (e : Env) (id : ℕ) (s : SubmissionManager) : Prop :=
  ∃ args, s.requireCommitOpen d e id = .error (fail .commitExpired args)

theorem wallTimestampForActive_ok {deadline activeNow : ℕ} (hdeadline : deadline < 2 ^ 63)
    (hactive : activeNow ≤ e.now) : ∃ t, wallTimestampForActive e deadline activeNow = .ok t := by
  have hnow := e.now_lt
  unfold wallTimestampForActive
  split
  · refine ⟨e.now + deadline - activeNow, ?_⟩
    simp only [bind_eq_ok, checkedSub_eq_ok, checkedAdd_eq_ok, and_assoc, exists_and_left,
      exists_eq_left', and_true]
    omega
  · refine ⟨e.now - (activeNow - deadline), ?_⟩
    simp only [bind_eq_ok, checkedSub_eq_ok, and_assoc, exists_and_left, exists_eq_left', and_true]
    omega

/-- The reveal deadline is met or missed, and nothing else can happen. -/
theorem requireCommitOpen_cases (hsound : s.toPauseState.Sound e.now)
    (hcommit : s.committedActiveAtOf id ≤ s.toPauseState.active e.now) :
    (s.requireCommitOpen d e id = .ok () ↔ s.toPauseState.active e.now < s.revealDeadline d id) ∧
    (s.TooLate d e id ↔ s.revealDeadline d id ≤ s.toPauseState.active e.now) := by
  have hnow := e.now_lt
  have hwindow := d.sm.window_lt
  have hle := PauseState.active_le hsound
  have hadd : addU64 (s.committedActiveAtOf id) d.sm.challengeWindowSeconds =
      .ok (s.revealDeadline d id) := by
    simp only [checkedAdd_eq_ok, revealDeadline, and_true]
    omega
  have hdeadline : s.revealDeadline d id < 2 ^ 64 := by
    unfold revealDeadline
    omega
  unfold TooLate requireCommitOpen
  rw [activeTimestamp_eq hsound]
  by_cases hlate : s.revealDeadline d id ≤ s.toPauseState.active e.now
  · obtain ⟨t, ht⟩ : ∃ t, wallTimestampForActive e (s.revealDeadline d id)
        (s.toPauseState.active e.now) = .ok t := wallTimestampForActive_ok (by omega) hle
    simp only [Except.bind, bind, hadd, ge_iff_le, hlate, if_true, ht]
    constructor
    · simp only [reduceCtorEq, false_iff]
      omega
    · simp only [iff_true]
      exact ⟨_, rfl⟩
  · simp only [Except.bind, bind, hadd, ge_iff_le, hlate, if_false]
    constructor
    · simp only [pure_eq_ok, true_iff]
      omega
    · simp only [iff_false, not_exists]
      intro args h
      cases h

theorem expireCommitted_late (hsound : s.toPauseState.Sound e.now)
    (h : s.expireCommitted d e id = .ok s') :
    s.revealDeadline d id ≤ s.toPauseState.active e.now := by
  obtain ⟨-, -, -, ⟨activeNow, hactive, hle⟩, -⟩ := expireCommitted_ok h
  rw [activeTimestamp_eq hsound] at hactive
  cases hactive
  exact hle

end SubmissionManager

/-! ### The stopwatch -/

/-- What an observer of the run records: the unpaused seconds since the commit of each
submission, when the current full pause began, and when the last one ended. -/
structure PauseHistory where
  unpaused : ℕ → ℕ := fun _ => 0
  began : ℕ := 0
  ended : Option ℕ := none

namespace PauseHistory

def record (w : World) (_ : Action) (w' : World) (k : PauseHistory) : PauseHistory where
  unpaused id :=
    if id ≤ w.sm.submissionCount then
      k.unpaused id + if w.sm.pausedAll then 0 else w'.block.timestamp - w.block.timestamp
    else 0
  began := if w.sm.pausedAll = false ∧ w'.sm.pausedAll = true then w'.block.timestamp else k.began
  ended := if w.sm.pausedAll = true ∧ w'.sm.pausedAll = false then some w'.block.timestamp
    else k.ended

/-- The storage agrees with the stopwatch. -/
structure Agrees (d : Deployment) (w : World) (k : PauseHistory) : Prop where
  sound : w.sm.toPauseState.Sound w.block.timestamp
  clock : ∀ id, 1 ≤ id → id ≤ w.sm.submissionCount →
    w.sm.committedActiveAtOf id + k.unpaused id = w.sm.toPauseState.active w.block.timestamp
  began : w.sm.pausedAll = true → w.sm.pausedAllAt = k.began
  ended : ∀ t, k.ended = some t → w.sm.pausedAll = false →
    t + d.sm.challengeWindowSeconds ≤ w.sm.expiryGraceUntil

end PauseHistory

/-- The board and its stopwatch. -/
def Deployment.timed (d : Deployment) : System (World × PauseHistory) Action :=
  d.protocol.withHistory {} PauseHistory.record

namespace PauseHistory

variable {d : Deployment} {w w' : World} {a : Action} {k : PauseHistory}

/-- Time passes, and nothing else happens to the pauses and the commits. -/
theorem Agrees.idle (h : Agrees d w k) (hle : w.block.timestamp ≤ w'.block.timestamp)
    (hpause : w'.sm.toPauseState = w.sm.toPauseState)
    (hregister : w'.sm.toRegisterState = w.sm.toRegisterState) : Agrees d w' (record w a w' k) := by
  have hpaused : w'.sm.pausedAll = w.sm.pausedAll := congrArg PauseState.pausedAll hpause
  refine ⟨hpause ▸ h.sound.later hle, ?_, ?_, ?_⟩
  · intro id hpos hid
    have hcount : w'.sm.submissionCount = w.sm.submissionCount :=
      congrArg RegisterState.submissionCount hregister
    have hcommit : w'.sm.committedActiveAtOf id = w.sm.committedActiveAtOf id :=
      congrArg (fun r => r.committedActiveAtOf id) hregister
    rw [hcount] at hid
    rw [hcommit, hpause, PauseState.active_later h.sound hle, ← h.clock id hpos hid]
    simp only [record, hid, if_true]
    omega
  · intro hp
    rw [hpaused] at hp
    have hbegan := h.began hp
    simp only [record, hp, Bool.true_eq_false, false_and, if_false]
    rw [← hbegan]
    exact congrArg PauseState.pausedAllAt hpause
  · intro t ht hp
    rw [hpaused] at hp
    simp only [record, hp, Bool.false_eq_true, false_and, if_false] at ht
    have hgrace : w'.sm.expiryGraceUntil = w.sm.expiryGraceUntil :=
      congrArg PauseState.expiryGraceUntil hpause
    rw [hgrace]
    exact h.ended t ht hp

/-- A call of the submission manager takes no time. -/
theorem Agrees.call {e : Env} {c : ManagerCall} {f : List Frame} {s : SubmissionManager}
    (h : Agrees d w k) (hblock : e.block = w.block) (hblock' : w'.block = w.block)
    (hpause : s.toPauseState = w.sm.toPauseState)
    (hregister : s.toRegisterState = w.sm.toRegisterState)
    (hmove : SubmissionManager.Move d e w.ledger w.pool s c w'.sm w'.ledger f) :
    Agrees d w' (record w a w' k) := by
  have hnow : e.now = w.block.timestamp := congrArg Block.timestamp hblock
  have hnow' : w'.block.timestamp = e.now := by rw [hblock', hnow]
  have hmoved := hmove.pause
  have hsound : s.toPauseState.Sound e.now := by rw [hpause, hnow]; exact h.sound
  have hcommitted : s.committedActiveAtOf = w.sm.committedActiveAtOf :=
    congrArg RegisterState.committedActiveAtOf hregister
  have hcount : s.submissionCount = w.sm.submissionCount :=
    congrArg RegisterState.submissionCount hregister
  have hactive := hmoved.active_eq hsound
  have hold : s.toPauseState.active e.now = w.sm.toPauseState.active w.block.timestamp := by
    rw [hpause, hnow]
  refine ⟨?_, ?_, ?_, ?_⟩
  · rw [hnow']
    exact hmoved.sound hsound
  · intro id hpos hid
    rw [hnow', hactive]
    by_cases hle : id ≤ w.sm.submissionCount
    · have hsame : w'.sm.committedActiveAtOf id = w.sm.committedActiveAtOf id := by
        rw [← hcommitted]
        have hle' : id ≤ s.submissionCount := by omega
        obtain heq | hturn := hmove.turns.of_le hle'
        · exact congrArg Entry.committedActiveAt heq
        · exact hturn.fixed.1
      rw [hsame, hold, ← h.clock id hpos hle]
      simp only [record, hle, if_true, hblock', Nat.sub_self, ite_self, add_zero]
    · have hnew : w'.sm.committedActiveAtOf id = s.toPauseState.active e.now := by
        have hturns := hmove.turns
        generalize hn : w'.sm.submissionCount = n at hturns hid
        generalize hentries : w'.sm.entry = entries at hturns
        cases hturns with
        | @commit sub t ht _ _ _ =>
            rw [SubmissionManager.activeTimestamp_eq hsound] at ht
            cases ht
            obtain rfl : id = s.submissionCount + 1 := by omega
            have hentry := congrFun hentries (s.submissionCount + 1)
            rw [update_self] at hentry
            exact congrArg Entry.committedActiveAt hentry
        | _ => omega
      rw [hnew]
      simp only [record, hle, if_false, add_zero]
  · intro hp
    obtain ⟨hsame, hat, -⟩ | ⟨hbefore, -, hat, -⟩ | ⟨-, hafter, -⟩ := hmoved.cases_pausedAll
    · have hp₀ : w.sm.pausedAll = true := by
        rw [← congrArg PauseState.pausedAll hpause]
        exact hsame ▸ hp
      simp only [record, hp₀, Bool.true_eq_false, false_and, if_false]
      rw [← h.began hp₀, hat]
      exact congrArg PauseState.pausedAllAt hpause
    · have hp₀ : w.sm.pausedAll = false := by
        rw [← congrArg PauseState.pausedAll hpause]
        exact hbefore
      simp only [record, hp₀, hp, and_self, if_true]
      rw [hat, hnow']
    · rw [hp] at hafter
      cases hafter
  · intro t ht hp
    obtain ⟨hsame, -, hgrace⟩ | ⟨-, hafter, -, -⟩ | ⟨hbefore, -, hgrace⟩ := hmoved.cases_pausedAll
    · have hp₀ : w.sm.pausedAll = false := by
        rw [← congrArg PauseState.pausedAll hpause]
        exact hsame ▸ hp
      simp only [record, hp₀, Bool.false_eq_true, false_and, if_false] at ht
      rw [hgrace, congrArg PauseState.expiryGraceUntil hpause]
      exact h.ended t ht hp₀
    · rw [hp] at hafter
      cases hafter
    · have hp₀ : w.sm.pausedAll = true := by
        rw [← congrArg PauseState.pausedAll hpause]
        exact hbefore
      simp only [record, hp₀, hp, and_self, if_true, Option.some.injEq] at ht
      rw [hgrace, ← ht, hnow']

theorem Agrees.step (h : Agrees d w k) (hstep : w.step d a = some w') :
    Agrees d w' (record w a w' k) := by
  cases manager_stepped hstep with
  | quiet hle hsm _ _ => exact h.idle hle (by rw [hsm]) (by rw [hsm])
  | eth amount hblock _ hsm _ _ => refine h.idle (by rw [hblock]) ?_ ?_ <;> rw [hsm]
  | finish claimant amount hblock _ _ hsm =>
      refine h.idle (by rw [hblock]) ?_ ?_ <;> rw [hsm] <;> rfl
  | call e c f hblock hblock' _ _ _ hrun _ _ _ =>
      exact h.call hblock hblock' (s := { w.sm with balance := w.sm.balance + e.value }) rfl rfl
        (SubmissionManager.move_of_run hrun)

theorem agrees_of_reachable (h : d.timed.Reachable Free (w, k)) : Agrees d w k := by
  refine h.invariant (P := fun q => Agrees d q.1 q.2) ?_ ?_
  · rintro ⟨w, k⟩ ⟨⟨block, wiring, -, -, rfl⟩, rfl⟩
    refine ⟨⟨Nat.zero_le _, fun hp => (nomatch hp)⟩, fun id hpos hid => ?_, fun hp => (nomatch hp),
      fun t ht => (nomatch ht)⟩
    have hle : id ≤ 0 := hid
    omega
  · rintro ⟨w, k⟩ a ⟨w', k'⟩ _ hagrees _ hstep
    obtain ⟨hstep, hk⟩ := System.withHistory_step.mp hstep
    change k' = record w a w' k at hk
    subst hk
    exact hagrees.step hstep

/-- The stopwatch of a submission never goes back. -/
theorem unpaused_le {id : ℕ} {as : List Action} {k' : PauseHistory}
    (h : d.timed.Run Free (w, k) as (w', k')) (hid : id ≤ w.sm.submissionCount) :
    id ≤ w'.sm.submissionCount ∧ k.unpaused id ≤ k'.unpaused id := by
  refine h.invariant
    (P := fun q => id ≤ q.1.sm.submissionCount ∧ k.unpaused id ≤ q.2.unpaused id) ?_ ⟨hid, le_rfl⟩
  rintro ⟨w₁, k₁⟩ a ⟨w₂, k₂⟩ ⟨hle, hk⟩ _ hstep
  obtain ⟨hstep, hk₂⟩ := System.withHistory_step.mp hstep
  change k₂ = record w₁ a w₂ k₁ at hk₂
  subst hk₂
  refine ⟨le_trans hle (submissionCount_le hstep), le_trans hk ?_⟩
  have hle' : id ≤ w₁.sm.submissionCount := hle
  simp only [record, hle', if_true]
  exact Nat.le_add_right _ _

end PauseHistory

/-! ### The laws of the pauses -/

/-- The state after `recoverPausedAll` by anyone, once the delay has passed. -/
theorem recoverPausedAll_succeeds {d : Deployment} {w : World} {sender : Address} {ext : External}
    (hsound : w.sm.toPauseState.Sound w.block.timestamp) (hbalance : w.sm.balance < 2 ^ 256)
    (hsender : d.IsExternal sender) (hp : w.sm.pausedAll = true)
    (hdelay : w.sm.pausedAllAt + pausedAllRecoveryDelay ≤ w.block.timestamp) :
    ∃ w', w.step d (.call sender 0 ext (.manager .recoverPausedAll)) = some w' ∧
      w'.sm.pausedAll = false := by
  have hnow := w.block.timestamp_lt
  have hwindow := d.sm.window_lt
  have htotal := hsound.total_le
  have hbegan := hsound.began hp
  have hrun : ∃ s, w.sm.recoverPausedAll d ⟨w.block, sender, 0, ext⟩ = .ok s ∧
      s.pausedAll = false := by
    refine ⟨_, SubmissionManager.recoverPausedAll_eq_ok.mpr ⟨hp, ?_, hdelay, _,
      SubmissionManager.clearPausedAll_eq_ok.mpr ⟨hbegan, ?_, ?_, rfl⟩, rfl⟩, rfl⟩
    · omega
    · show w.sm.totalPausedAllSeconds + (w.block.timestamp - w.sm.pausedAllAt) < 2 ^ 64
      omega
    · show w.block.timestamp + d.sm.challengeWindowSeconds < 2 ^ 64
      omega
  obtain ⟨s, hs, hclear⟩ := hrun
  refine ⟨{ w with sm := s }, ?_, hclear⟩
  have hcall : Call.run d ⟨w.block, sender, 0, ext⟩ w (.manager .recoverPausedAll) =
      .ok { w with sm := s } := by
    simp only [Call.run, receive, ManagerCall.run, bind_eq_ok, map_eq_ok, checkedAdd_eq_ok,
      pure_eq_ok, and_assoc, exists_and_left, exists_eq_left', add_zero]
    exact ⟨hbalance, _, ⟨s, hs, rfl⟩, rfl⟩
  simp only [World.step, hsender, true_or, and_self, if_true, hcall, Except.toOption]

/-- The laws of the pauses in one state. -/
structure PauseLaws (d : Deployment) (w : World) (k : PauseHistory) : Prop where
  /-- The active time since a commit is the unpaused time since it. -/
  tolling : ∀ id e, 1 ≤ id → id ≤ w.sm.submissionCount → e.block = w.block →
    ∃ t, w.sm.activeTimestamp e = .ok t ∧ w.sm.committedActiveAtOf id ≤ t ∧
      t - w.sm.committedActiveAtOf id = k.unpaused id
  /-- A submission that can be revealed cannot be expired. -/
  exclusive : ∀ id e e' s', e.block = w.block → e'.block = w.block →
    w.sm.requireCommitMature e id = .ok () → w.sm.requireCommitOpen d e id = .ok () →
    w.sm.expireCommitted d e' id ≠ .ok s'
  /-- What is too late to be revealed stays too late. -/
  stays_late : ∀ id e as w' e', 1 ≤ id → id ≤ w.sm.submissionCount → e.block = w.block →
    w.sm.TooLate d e id → d.protocol.Run Free w as w' → e'.block = w'.block →
    w'.sm.TooLate d e' id ∧ w'.sm.requireCommitOpen d e' id ≠ .ok ()
  /-- A revealed submission can be challenged or finalized, never both. -/
  partition : ∀ id e, e.block = w.block → w.sm.pausedAll = false →
    (w.sm.submissions id).status = .revealed →
    Xor (requireWindowOpen e (w.sm.submissions id) = .ok ())
      (requireWindowPassed e (w.sm.submissions id) = .ok ())
  /-- Two full pauses are a challenge window apart. -/
  apart : ∀ a w' t, w.step d a = some w' → w.sm.pausedAll = false → w'.sm.pausedAll = true →
    k.ended = some t → t + d.sm.challengeWindowSeconds ≤ w'.block.timestamp
  /-- Anyone can end a full pause that has lasted for the recovery delay. -/
  recoverable : ∀ sender ext, d.IsExternal sender → w.sm.pausedAll = true →
    k.began + pausedAllRecoveryDelay ≤ w.block.timestamp →
    ∃ w', w.step d (.call sender 0 ext (.manager .recoverPausedAll)) = some w' ∧
      w'.sm.pausedAll = false

/-- In a reachable state a submission can be revealed as long as it has had less than a window of
unpaused time. -/
theorem PauseHistory.Agrees.requireCommitOpen {d : Deployment} {w : World} {k : PauseHistory}
    (h : k.Agrees d w) {id : ℕ} {e : Env} (hpos : 1 ≤ id) (hid : id ≤ w.sm.submissionCount)
    (hblock : e.block = w.block) :
    (w.sm.requireCommitOpen d e id = .ok () ↔ k.unpaused id < d.sm.challengeWindowSeconds) ∧
    (w.sm.TooLate d e id ↔ d.sm.challengeWindowSeconds ≤ k.unpaused id) := by
  have hnow : e.now = w.block.timestamp := congrArg Block.timestamp hblock
  have hsound := h.sound
  have hclock := h.clock id hpos hid
  rw [← hnow] at hsound hclock
  have hle : w.sm.committedActiveAtOf id ≤ w.sm.toPauseState.active e.now := by omega
  obtain ⟨hopen, hlate⟩ := SubmissionManager.requireCommitOpen_cases (d := d) hsound hle
  rw [hopen, hlate, SubmissionManager.revealDeadline, ← hclock]
  omega

theorem Deployment.timed_reachable {d : Deployment} {w : World} {k : PauseHistory}
    (h : d.timed.Reachable Free (w, k)) : d.protocol.Reachable Free w :=
  @System.Reachable.history_fst _ _ d.protocol Free _ _ _ _ h

/-- **The laws of the pauses** hold in every reachable state. -/
theorem pauseLaws_of_reachable {d : Deployment} {w : World} {k : PauseHistory}
    (h : d.timed.Reachable Free (w, k)) : PauseLaws d w k := by
  have hagrees := PauseHistory.agrees_of_reachable h
  have hreach : d.protocol.Reachable Free w := d.timed_reachable h
  constructor
  · intro id e hpos hid hblock
    have hnow : e.now = w.block.timestamp := congrArg Block.timestamp hblock
    have hsound := hagrees.sound
    have hclock := hagrees.clock id hpos hid
    rw [← hnow] at hsound hclock
    refine ⟨_, SubmissionManager.activeTimestamp_eq hsound, ?_, ?_⟩ <;> omega
  · intro id e e' s' hblock hblock' _ hopen hexpire
    have hnow : e'.now = w.block.timestamp := congrArg Block.timestamp hblock'
    have hsound := hagrees.sound
    rw [← hnow] at hsound
    have hlate := SubmissionManager.expireCommitted_late hsound hexpire
    have hstatus := (expireCommitted_ok hexpire).2.2.1
    have hregistered := registered_of_reachable hreach
    have hne : (w.sm.entry id).sub.status ≠ .none := by
      rw [SubmissionManager.entry, hstatus]
      decide
    obtain ⟨hpos, hid⟩ := hregistered.le hne
    have hclock := hagrees.clock id hpos hid
    have hunpaused := ((hagrees.requireCommitOpen hpos hid hblock).1).mp hopen
    rw [SubmissionManager.revealDeadline, hnow, ← hclock] at hlate
    omega
  · intro id e as w' e' hpos hid hblock hlate hrun hblock'
    obtain ⟨k', hrun'⟩ : ∃ k', d.timed.Run Free (w, k) as (w', k') := hrun.history_exists k
    obtain ⟨hid', hle⟩ := PauseHistory.unpaused_le hrun' hid
    have hagrees' := PauseHistory.agrees_of_reachable (h.run hrun')
    have hunpaused := ((hagrees.requireCommitOpen hpos hid hblock).2).mp hlate
    have hcases := hagrees'.requireCommitOpen hpos hid' hblock'
    refine ⟨hcases.2.mpr (le_trans hunpaused hle), fun hopen => ?_⟩
    have hlt := hcases.1.mp hopen
    omega
  · intro id e _ _ _
    unfold requireWindowOpen requireWindowPassed
    rw [revertIf_eq_ok, revertIf_eq_ok, xor_iff_not_iff]
    omega
  · intro a w' t hstep hbefore hafter hended
    refine le_trans (hagrees.ended t hended hbefore) ?_
    have hchange : w'.sm.pausedAll ≠ w.sm.pausedAll := by
      rw [hbefore, hafter]
      decide
    cases manager_stepped hstep with
    | quiet _ hsm _ _ => exact absurd (by rw [hsm]) hchange
    | eth amount _ _ hsm _ _ => exact absurd (by rw [hsm]) hchange
    | finish claimant amount _ _ _ hsm => exact absurd (by rw [hsm]; rfl) hchange
    | call e c f hblock hblock' _ _ _ hrun _ _ _ =>
        have hnow : w'.block.timestamp = e.now := by rw [hblock', ← hblock]
        obtain ⟨hsame, -⟩ | ⟨-, -, -, hgrace⟩ | ⟨hpaused, -⟩ :=
          (SubmissionManager.move_of_run hrun).pause.cases_pausedAll
        · exact absurd hsame hchange
        · rw [hnow]
          exact hgrace
        · rw [hbefore] at hpaused
          cases hpaused
  · intro sender ext hsender hp hdelay
    refine recoverPausedAll_succeeds hagrees.sound (manager_balance_lt hreach) hsender hp ?_
    rw [hagrees.began hp]
    exact hdelay

/-- A commit, a full pause of an hour and some more time. -/
def Sample.pauseRun : List Action :=
  [solutionA.commit 1, byOwner (.setPausedAll true), .tick (blockAt 3600 2 hour_fits),
    byOwner (.setPausedAll false), .tick (blockAt 5000 3)]

theorem pauseLaws_sample : ∃ q, Sample.board.timed.exec (Sample.genesis, {}) Sample.pauseRun = some q ∧
    q.2.unpaused 1 = 1400 ∧ PauseLaws Sample.board q.1 q.2 := by
  have hrun : (Sample.board.timed.exec (Sample.genesis, {}) Sample.pauseRun).map
      (fun q => q.2.unpaused 1) = some 1400 := by decide +kernel
  obtain ⟨q, hq, hunpaused⟩ := Option.map_eq_some_iff.mp hrun
  exact ⟨q, hq, hunpaused, pauseLaws_of_reachable (.of_exec ⟨Sample.genesis_init.1, rfl⟩ hq)⟩

end P42Prizes
