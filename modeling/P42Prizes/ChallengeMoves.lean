import P42Prizes.ManagerMoves

/-! # What a call of the challenge manager does

The counterpart of `ManagerMoves`: the successful calls of the challenge manager as updates of
its storage (`openDispute`, `decide`, `settleDispute`, `refundDispute`, `withdraw`), together
with the hook they call on the submission manager. -/

namespace P42Prizes

open Reverting Function

/-- The hook of the submission manager in which a call of the challenge manager ends. -/
inductive ChallengeCall.Hooks : ChallengeCall → ManagerCall → Prop
  | challenge {id : ℕ} {revealHash reasonHash : Bytes32} :
      Hooks (.challenge id revealHash reasonHash) (.markChallenged id)
  | finalizeResolution {id : ℕ} {hash : Bytes32} {wins : Bool} {beneficiary : Address} :
      Hooks (.finalizeResolution id hash) (.resolveChallenge id wins beneficiary)
  | expire {id : ℕ} {hash : Bytes32} :
      Hooks (.expireChallenge id hash) (.resolveChallenge id false 0)
  | slash {id : ℕ} {hash proofHash : Bytes32} :
      Hooks (.slashResolverBond id hash proofHash) (.cancelChallenge id)
  | objective {id : ℕ} {hash proofHash : Bytes32} {wins : Bool} {proofBeneficiary beneficiary : Address} :
      Hooks (.applyObjectiveResolution id hash wins proofHash proofBeneficiary)
        (.resolveObjectiveChallenge id wins beneficiary)

/-- The call posts a decision of the resolver. -/
def ChallengeCall.Decides : ChallengeCall → Prop
  | .resolve .. => True
  | .resolveFor .. => True
  | _ => False

namespace ChallengeManager

variable {d : Deployment} {e : Env} {l : PayoutLedger} {p : BountyPool}
  {s s' : SubmissionManager} {c c' : ChallengeManager}

/-! ### The updates -/

/-- The effect of `credit`. -/
def creditTo (claimant : Address) (amount : ℕ) (c : ChallengeManager) : ChallengeManager :=
  { c with claimableBondWei :=
      update c.claimableBondWei claimant (c.claimableBondWei claimant + amount) }

def setBond (id : ℕ) (bond : ResolverBond) (beneficiary : Address) (c : ChallengeManager) :
    ChallengeManager :=
  { c with
    resolverBonds := update c.resolverBonds id bond
    resolverBondBeneficiaryOf := update c.resolverBondBeneficiaryOf id beneficiary }

def setInstance (id : ℕ) (revealHash challengeHash : Bytes32) (c : ChallengeManager) :
    ChallengeManager :=
  { c with
    challengeRevealInstanceHashOf := update c.challengeRevealInstanceHashOf id revealHash
    challengeInstanceHashOf := update c.challengeInstanceHashOf id challengeHash }

def note (evs : List ChallengeEvent) (c : ChallengeManager) : ChallengeManager :=
  { c with logs := evs ++ c.logs }

/-- The dispute on `id` ends in the slot `ch`: the counter-bond goes to `winner`, the decision
bond to `beneficiary`. -/
def settleDispute (id : ℕ) (ch : Challenge) (bond : ResolverBond) (winner beneficiary : Address)
    (c : ChallengeManager) : ChallengeManager :=
  ((((c.setChallenge id ch).setBond id bond 0).creditTo winner
    (c.challenges id).challengeBondWei).creditTo beneficiary (c.resolverBonds id).amountWei)

/-- The counter-bond on `id` goes back to its challenger. -/
def refundDispute (id : ℕ) (c : ChallengeManager) : ChallengeManager :=
  (c.setChallenge id {}).creditTo (c.challenges id).challenger (c.challenges id).challengeBondWei

def withdraw (claimant : Address) (c : ChallengeManager) : ChallengeManager :=
  { c with
    claiming := true
    claimableBondWei := update c.claimableBondWei claimant 0
    balance := c.balance - c.claimableBondWei claimant }

theorem creditTo_comm (a b : Address) (x y : ℕ) :
    (c.creditTo a x).creditTo b y = (c.creditTo b y).creditTo a x := by
  have h : update (update c.claimableBondWei a (c.claimableBondWei a + x)) b
        (update c.claimableBondWei a (c.claimableBondWei a + x) b + y) =
      update (update c.claimableBondWei b (c.claimableBondWei b + y)) a
        (update c.claimableBondWei b (c.claimableBondWei b + y) a + x) := by
    by_cases hab : a = b
    · subst hab
      simp only [update_self, update_idem]
      congr 1
      omega
    · rw [update_of_ne (Ne.symm hab), update_of_ne hab, update_comm hab]
  simp only [creditTo]
  rw [h]

/-! ### Internal functions -/

theorem credit_eq_ok {claimant : Address} {amount : ℕ} :
    c.credit claimant amount = .ok c' ↔
      c.claimableBondWei claimant + amount < 2 ^ 256 ∧ c.creditTo claimant amount = c' := by
  simp only [credit, creditTo, bind_eq_ok, checkedAdd_eq_ok, pure_eq_ok, and_assoc,
    exists_and_left, exists_eq_left']

theorem requireChallenge_eq_ok {id : ℕ} {expected : Bytes32} {ch : Challenge} :
    c.requireChallenge id expected = .ok ch ↔
      (c.challenges id).challenger ≠ 0 ∧ expected ≠ 0 ∧
      c.challengeInstanceHashOf id = expected ∧ c.challenges id = ch := by
  simp only [requireChallenge, requireChallengeInstance, bind_eq_ok, revertIf_eq_ok, pure_eq_ok,
    exists_const, ne_eq, not_not, and_assoc]

theorem onlyResolver_eq_ok {u : Unit} : onlyResolver d e = .ok u ↔ e.sender = d.cm.resolver := by
  simp only [onlyResolver, revertIf_eq_ok, ne_eq, not_not]

theorem maxDisputeDeadline_eq_ok {id t : ℕ} : s.maxDisputeDeadline id = .ok t ↔
    (s.submissions id).solver ≠ 0 ∧ s.maxDisputeEndsAtOf id = t := by
  simp only [SubmissionManager.maxDisputeDeadline, bind_eq_ok,
    SubmissionManager.requireSubmission_eq_ok, pure_eq_ok, and_assoc, exists_and_left,
    exists_eq_left']

/-! ### Calls -/

/-- The challenge opened by `e.sender`. -/
def newChallenge (e : Env) (id : ℕ) (reasonHash : Bytes32) (disputeEndsAt : ℕ) : Challenge :=
  { submissionId := id
    challenger := e.sender
    reasonHash := reasonHash
    challengeBondWei := e.value
    challengedAt := e.now
    disputeEndsAt := disputeEndsAt }

theorem challenge_ok {id : ℕ} {revealHash reasonHash : Bytes32}
    (h : c.challenge d e id revealHash reasonHash l p s = .ok (c', s')) :
    id ≠ 0 ∧ (c.challenges id).challenger = 0 ∧ s.revealInstanceHashOf id = revealHash ∧
    s.markChallenged (d.asChallenger e) id = .ok s' ∧
    ∃ endsAt hash, endsAt = min (e.now + d.cm.challengeWindowSeconds) (s'.maxDisputeEndsAtOf id) ∧
      hash = d.challengeInstanceHash ⟨id, revealHash, e.sender, reasonHash, e.now, endsAt⟩ ∧
      c' = ((c.setInstance id revealHash hash).setChallenge id
        (newChallenge e id reasonHash endsAt)).note
          [.challenged id e.sender reasonHash e.value endsAt revealHash hash] := by
  simp only [challenge, bind_eq_ok, revertIf_eq_ok, Unique.exists_iff, openChallenge,
    requireRevealInstance, checkedAdd_eq_ok, maxDisputeDeadline_eq_ok, pure_eq_ok, and_assoc,
    exists_and_left, exists_eq_left', Prod.mk.injEq, ne_eq, not_not] at h
  obtain ⟨-, hid, -, hslot, _, -, -, -, hreveal, _, -, _, -, -, s₁, hmark, -, -, rfl, rfl⟩ := h
  exact ⟨hid, hslot, hreveal, hmark, _, _, rfl, rfl, rfl⟩

theorem resolveAs_ok {id : ℕ} {hash transcriptHash verdictHash : Bytes32} {wins : Bool}
    {uri : Bytes} {beneficiary : Address}
    (h : c.resolveAs d e id hash wins transcriptHash uri verdictHash beneficiary s = .ok c') :
    (c.challenges id).challenger ≠ 0 ∧ (c.challenges id).resolved = false ∧
    (c.challenges id).decisionPending = false ∧ d.cm.resolverDecisionBondWei ≤ e.value ∧
    c.challengeInstanceHashOf id ≠ 0 ∧ (uri ≠ [] ∧ uri.length ≤ maxTranscriptUriBytes) ∧
    ∃ ch bond ev, ch = { c.challenges id with
        decisionPending := true, challengerWins := wins, transcriptHash := transcriptHash
        transcriptURI := uri, verdictHash := verdictHash } ∧
      bond.amountWei = e.value ∧ bond.releaseAt ≤ s.maxDisputeEndsAtOf id ∧
      bond.releaseAt = e.now + d.cm.resolverFraudWindowSeconds ∧
      ev = .resolverTranscriptPosted id e.sender transcriptHash uri verdictHash beneficiary e.value
        bond.releaseAt wins (c.challengeInstanceHashOf id) ∧
      c' = ((c.setChallenge id ch).setBond id bond beneficiary).note [ev] := by
  simp only [resolveAs, bind_eq_ok, revertIf_eq_ok, requireChallenge_eq_ok, resolverBondReleaseAt,
    checkedAdd_eq_ok, maxDisputeDeadline_eq_ok, pure_eq_ok, Unique.exists_iff, and_assoc,
    exists_and_left, exists_eq_left', List.length_eq_zero_iff, not_or, not_lt, gt_iff_lt,
    Bool.not_eq_true] at h
  obtain ⟨hch, hne, hhash, hres, hpend, -, hval, -, huri, hurile, -, -, -, hle, rfl⟩ := h
  exact ⟨hch, hres, hpend, hval, hhash ▸ hne, ⟨huri, hurile⟩, _, _, _, rfl, rfl, hle, rfl, rfl, rfl⟩

/-- The party the counter-bond goes to. -/
def winnerOf (d : Deployment) (ch : Challenge) (challengerWins : Bool) : Address :=
  if challengerWins then ch.challenger else d.cm.treasury

/-- The slot left by a dispute that ended with the given decision. -/
def closedSlot (ch : Challenge) (challengerWins : Bool) : Challenge :=
  if challengerWins then ch.settle challengerWins else {}

theorem setChallenge_closedSlot (c : ChallengeManager) (id : ℕ) (ch : Challenge) (wins : Bool)
    (W B : Address) (x y : ℕ) (bond : ResolverBond) :
    (if wins then ((((c.setChallenge id (ch.settle wins)).creditTo W x).setBond id bond 0).creditTo B y)
      else ((((c.setChallenge id (ch.settle wins)).creditTo W x).setBond id bond 0).creditTo B y).setChallenge
        id {}) =
      ((((c.setChallenge id (closedSlot ch wins)).setBond id bond 0).creditTo W x).creditTo B y) := by
  cases wins with
  | true => rfl
  | false =>
      simp only [Bool.false_eq_true, if_false, closedSlot, setChallenge, creditTo, setBond,
        update_idem]

theorem finalizeResolution_eq_ok {id : ℕ} {hash : Bytes32} :
    c.finalizeResolution d e id hash s = .ok (c', s') ↔
      (c.challenges id).challenger ≠ 0 ∧ hash ≠ 0 ∧ c.challengeInstanceHashOf id = hash ∧
      (c.challenges id).decisionPending = true ∧ (c.resolverBonds id).amountWei ≠ 0 ∧
      (c.resolverBonds id).releaseAt ≤ e.now ∧
      ∃ ch wins W B, ch = c.challenges id ∧ wins = ch.challengerWins ∧ W = winnerOf d ch wins ∧
        B = c.resolverBondBeneficiaryOf id ∧
        c.claimableBondWei W + ch.challengeBondWei < 2 ^ 256 ∧ B ≠ 0 ∧
        (c.creditTo W ch.challengeBondWei).claimableBondWei B + (c.resolverBonds id).amountWei
          < 2 ^ 256 ∧
        s.resolveChallenge d (d.asChallenger e) id wins ch.challenger = .ok s' ∧
        (c.settleDispute id (closedSlot ch wins) { c.resolverBonds id with amountWei := 0 } W B).note
          [.resolved id wins hash,
            .resolverBondReleased id B (c.resolverBonds id).amountWei hash] = c' := by
  simp only [finalizeResolution, bind_eq_ok, revertIf_eq_ok, requireChallenge_eq_ok, credit_eq_ok,
    pure_eq_ok, exists_const, and_assoc, exists_and_left, exists_eq_left', not_lt, ne_eq,
    Bool.not_eq_false, Prod.mk.injEq, exists_eq_left]
  refine and_congr_right (fun _ => and_congr_right (fun _ => and_congr_right (fun _ =>
    and_congr_right (fun _ => and_congr_right (fun _ => and_congr_right (fun _ =>
    and_congr_right (fun _ => and_congr_right (fun _ => and_congr_right (fun _ => ?_)))))))))
  have hslot := setChallenge_closedSlot c id (c.challenges id) (c.challenges id).challengerWins
    (winnerOf d (c.challenges id) (c.challenges id).challengerWins)
    (c.resolverBondBeneficiaryOf id) (c.challenges id).challengeBondWei
    (c.resolverBonds id).amountWei { c.resolverBonds id with amountWei := 0 }
  constructor
  · rintro ⟨_, hs, rfl, rfl⟩
    refine ⟨hs, ?_⟩
    rw [settleDispute, ← hslot]
    rfl
  · rintro ⟨hs, rfl⟩
    refine ⟨_, hs, ?_, rfl⟩
    rw [settleDispute, ← hslot]
    rfl

theorem expireChallenge_eq_ok {id : ℕ} {hash : Bytes32} :
    c.expireChallenge d e id hash s = .ok (c', s') ↔
      (c.challenges id).challenger ≠ 0 ∧ hash ≠ 0 ∧ c.challengeInstanceHashOf id = hash ∧
      (c.challenges id).resolved = false ∧ (c.challenges id).decisionPending = false ∧
      (c.challenges id).disputeEndsAt ≤ e.now ∧
      c.claimableBondWei (c.challenges id).challenger + (c.challenges id).challengeBondWei
        < 2 ^ 256 ∧
      s.resolveChallenge d (d.asChallenger e) id false 0 = .ok s' ∧
      (c.refundDispute id).note [.resolved id false hash,
        .challengeExpired id (c.challenges id).challenger (c.challenges id).challengeBondWei hash] =
        c' := by
  simp only [expireChallenge, bind_eq_ok, revertIf_eq_ok, requireChallenge_eq_ok, credit_eq_ok,
    pure_eq_ok, exists_const, and_assoc, exists_and_left, exists_eq_left', not_lt, ne_eq,
    Bool.not_eq_true, Prod.mk.injEq]
  refine and_congr_right (fun _ => and_congr_right (fun _ => and_congr_right (fun _ =>
    and_congr_right (fun _ => and_congr_right (fun _ => and_congr_right (fun _ =>
    and_congr_right (fun _ => ?_)))))))
  constructor
  · rintro ⟨_, hs, rfl, rfl⟩
    exact ⟨hs, rfl⟩
  · rintro ⟨hs, rfl⟩
    exact ⟨_, hs, rfl, rfl⟩

theorem requireSlashable_eq_ok {id : ℕ} {hash proofHash : Bytes32} {ch : Challenge} :
    c.requireSlashable id hash proofHash = .ok ch ↔
      (c.challenges id).challenger ≠ 0 ∧ hash ≠ 0 ∧ c.challengeInstanceHashOf id = hash ∧
      (c.challenges id).decisionPending = true ∧ proofHash ≠ 0 ∧ c.challenges id = ch := by
  simp only [requireSlashable, bind_eq_ok, revertIf_eq_ok, requireChallenge_eq_ok, pure_eq_ok,
    exists_const, and_assoc, exists_and_left, exists_eq_left', ne_eq, Bool.not_eq_false]

theorem requireLockedBond_eq_ok {id : ℕ} {bond : ResolverBond} :
    c.requireLockedBond e id = .ok bond ↔
      (c.resolverBonds id).amountWei ≠ 0 ∧ e.now < (c.resolverBonds id).releaseAt ∧
      c.resolverBonds id = bond := by
  simp only [requireLockedBond, bind_eq_ok, revertIf_eq_ok, pure_eq_ok, exists_const, ne_eq,
    ge_iff_le, not_le]

/-- Clearing a decision bond and noting the proof against it is one write. -/
theorem clearResolverBond_slash (c : ChallengeManager) (id : ℕ) (proofHash : Bytes32) :
    (c.clearResolverBond id).setSlashProofHash id proofHash =
      c.setBond id { c.resolverBonds id with amountWei := 0, slashProofHash := proofHash } 0 := by
  simp only [setSlashProofHash, clearResolverBond, setBond, update_self, update_idem]

theorem slashResolverBond_ok {id : ℕ} {hash proofHash : Bytes32}
    (h : c.slashResolverBond d e id hash proofHash s = .ok (c', s')) :
    (c.challenges id).challenger ≠ 0 ∧ (c.challenges id).decisionPending = true ∧
    s.cancelChallenge d (d.asChallenger e) id = .ok s' ∧
    c' = (c.settleDispute id {} { c.resolverBonds id with amountWei := 0, slashProofHash := proofHash }
        (c.challenges id).challenger d.cm.treasury).note
      [.resolverDecisionCancelled id (c.challenges id).challenger proofHash hash,
        .resolverBondSlashed id d.cm.treasury (c.resolverBonds id).amountWei proofHash hash] := by
  simp only [slashResolverBond, bind_eq_ok, onlyResolver_eq_ok, requireSlashable_eq_ok,
    requireLockedBond_eq_ok, credit_eq_ok, pure_eq_ok, exists_const, and_assoc, exists_and_left,
    exists_eq_left', Prod.mk.injEq] at h
  obtain ⟨-, hch, -, -, hpend, -, -, -, -, -, _, hs, rfl, rfl⟩ := h
  refine ⟨hch, hpend, hs, ?_⟩
  rw [settleDispute, creditTo_comm, clearResolverBond_slash]
  rfl

theorem applyObjectiveResolution_ok {id : ℕ} {hash proofHash : Bytes32} {wins : Bool} {B : Address}
    (h : c.applyObjectiveResolution d e id hash wins proofHash B s = .ok (c', s')) :
    (c.challenges id).challenger ≠ 0 ∧ (c.challenges id).decisionPending = true ∧
    s.resolveObjectiveChallenge (d.asChallenger e) id wins (c.challenges id).challenger = .ok s' ∧
    c' = (c.settleDispute id (closedSlot (c.challenges id) wins)
        { c.resolverBonds id with amountWei := 0, slashProofHash := proofHash }
        (winnerOf d (c.challenges id) wins) B).note
      [.resolved id wins hash,
        .objectiveFraudProven id B proofHash wins (c.resolverBonds id).amountWei hash,
        .resolverBondSlashed id B (c.resolverBonds id).amountWei proofHash hash] := by
  simp only [applyObjectiveResolution, bind_eq_ok, onlyResolver_eq_ok, requireSlashable_eq_ok,
    requireLockedBond_eq_ok, credit_eq_ok, revertIf_eq_ok, pure_eq_ok, exists_const, and_assoc,
    exists_and_left, exists_eq_left', Prod.mk.injEq] at h
  obtain ⟨-, hch, -, -, hpend, -, -, -, -, -, -, -, _, hs, rfl, rfl⟩ := h
  refine ⟨hch, hpend, hs, ?_⟩
  rw [settleDispute, ← setChallenge_closedSlot, clearResolverBond_slash, creditTo_comm]
  rfl

theorem claimBond_ok {amount : ℕ} (h : c.claimBond e = .ok (amount, c')) :
    c.claiming = false ∧ amount = c.claimableBondWei e.sender ∧ amount ≠ 0 ∧
    amount ≤ c.balance ∧ c' = c.withdraw e.sender := by
  simp only [claimBond, bind_eq_ok, require_eq_ok, revertIf_eq_ok, pure_eq_ok, exists_const,
    not_or, not_lt, Prod.mk.injEq] at h
  obtain ⟨hclaiming, hne, ⟨hle, -⟩, rfl, rfl⟩ := h
  exact ⟨hclaiming, rfl, hne, hle, rfl⟩

/-! ### The moves -/

/-- What a successful call does to the challenge manager and, through a hook, to the submission
manager, and the call it leaves suspended. -/
inductive Move (d : Deployment) (e : Env) (s : SubmissionManager) (c : ChallengeManager) :
    ChallengeCall → ChallengeManager → SubmissionManager → List Frame → Prop
  | administer {paused : Bool} :
      Move d e s c (.setPausedNewActions paused)
        ({ c with pausedNewActions := paused }.note [.newActionsPaused paused]) s []
  | challenge {id endsAt : ℕ} {revealHash reasonHash hash : Bytes32} {s' : SubmissionManager} :
      id ≠ 0 → (c.challenges id).challenger = 0 →
      s.markChallenged (d.asChallenger e) id = .ok s' →
      endsAt = min (e.now + d.cm.challengeWindowSeconds) (s'.maxDisputeEndsAtOf id) →
      hash = d.challengeInstanceHash ⟨id, revealHash, e.sender, reasonHash, e.now, endsAt⟩ →
      s.revealInstanceHashOf id = revealHash → Move d e s c (.challenge id revealHash reasonHash)
        (((c.setInstance id revealHash hash).setChallenge id
          (newChallenge e id reasonHash endsAt)).note
            [.challenged id e.sender reasonHash e.value endsAt revealHash hash]) s' []
  | decide {a : ChallengeCall} {id : ℕ} {ch : Challenge} {bond : ResolverBond}
      {beneficiary : Address} {transcriptHash verdictHash : Bytes32} {uri : Bytes} {wins : Bool} :
      (c.challenges id).challenger ≠ 0 → (c.challenges id).resolved = false →
      (c.challenges id).decisionPending = false → 0 < e.value → beneficiary ≠ 0 →
      ch = { c.challenges id with
        decisionPending := true, challengerWins := wins, transcriptHash := transcriptHash
        transcriptURI := uri, verdictHash := verdictHash } →
      bond.amountWei = e.value → bond.releaseAt ≤ s.maxDisputeEndsAtOf id → e.now < bond.releaseAt →
      a.Decides → c.challengeInstanceHashOf id ≠ 0 →
      uri ≠ [] ∧ uri.length ≤ maxTranscriptUriBytes → Move d e s c a (((c.setChallenge id ch).setBond id bond beneficiary).note
        [.resolverTranscriptPosted id e.sender transcriptHash uri verdictHash beneficiary e.value
          bond.releaseAt wins (c.challengeInstanceHashOf id)]) s []
  | finalizeResolution {id : ℕ} {hash : Bytes32} {wins : Bool} {W B : Address}
      {s' : SubmissionManager} :
      (c.challenges id).challenger ≠ 0 → (c.challenges id).decisionPending = true →
      wins = (c.challenges id).challengerWins → W = winnerOf d (c.challenges id) wins →
      B = c.resolverBondBeneficiaryOf id → (c.resolverBonds id).releaseAt ≤ e.now →
      s.resolveChallenge d (d.asChallenger e) id wins (c.challenges id).challenger = .ok s' →
      Move d e s c (.finalizeResolution id hash)
        ((c.settleDispute id (closedSlot (c.challenges id) wins)
          { c.resolverBonds id with amountWei := 0 } W B).note
            [.resolved id wins hash,
              .resolverBondReleased id B (c.resolverBonds id).amountWei hash]) s' []
  | expire {id : ℕ} {hash : Bytes32} {s' : SubmissionManager} :
      (c.challenges id).challenger ≠ 0 → (c.challenges id).resolved = false →
      (c.challenges id).decisionPending = false → (c.challenges id).disputeEndsAt ≤ e.now →
      s.resolveChallenge d (d.asChallenger e) id false 0 = .ok s' →
      Move d e s c (.expireChallenge id hash)
        ((c.refundDispute id).note [.resolved id false hash,
          .challengeExpired id (c.challenges id).challenger (c.challenges id).challengeBondWei hash])
        s' []
  | slash {id : ℕ} {hash proofHash : Bytes32} {s' : SubmissionManager} :
      (c.challenges id).challenger ≠ 0 → (c.challenges id).decisionPending = true →
      s.cancelChallenge d (d.asChallenger e) id = .ok s' →
      Move d e s c (.slashResolverBond id hash proofHash)
        ((c.settleDispute id {}
          { c.resolverBonds id with amountWei := 0, slashProofHash := proofHash }
          (c.challenges id).challenger d.cm.treasury).note
            [.resolverDecisionCancelled id (c.challenges id).challenger proofHash hash,
              .resolverBondSlashed id d.cm.treasury (c.resolverBonds id).amountWei proofHash hash])
        s' []
  | objective {id : ℕ} {hash proofHash : Bytes32} {wins : Bool} {B : Address}
      {s' : SubmissionManager} :
      (c.challenges id).challenger ≠ 0 → (c.challenges id).decisionPending = true →
      s.resolveObjectiveChallenge (d.asChallenger e) id wins (c.challenges id).challenger = .ok s' →
      Move d e s c (.applyObjectiveResolution id hash wins proofHash B)
        ((c.settleDispute id (closedSlot (c.challenges id) wins)
          { c.resolverBonds id with amountWei := 0, slashProofHash := proofHash }
          (winnerOf d (c.challenges id) wins) B).note
            [.resolved id wins hash,
              .objectiveFraudProven id B proofHash wins (c.resolverBonds id).amountWei hash,
              .resolverBondSlashed id B (c.resolverBonds id).amountWei proofHash hash]) s' []
  | withdraw :
      c.claiming = false → c.claimableBondWei e.sender ≠ 0 →
      c.claimableBondWei e.sender ≤ c.balance →
      Move d e s c .claimBond (c.withdraw e.sender) s
        [.challengeBond e.sender (c.claimableBondWei e.sender)]

/-- Every successful call of the challenge manager is a move. -/
theorem move_of_run {a : ChallengeCall} {f : List Frame} (hsender : e.sender ≠ 0)
    (h : a.run d e l p s c = .ok (c', s', f)) : Move d e s c a c' s' f := by
  cases a with
  | setPausedNewActions paused =>
      simp only [ChallengeCall.run, map_eq_ok, Prod.mk.injEq] at h
      obtain ⟨_, h, rfl, rfl, rfl⟩ := h
      simp only [setPausedNewActions, bind_eq_ok, pure_eq_ok, Unique.exists_iff] at h
      obtain ⟨-, rfl⟩ := h
      exact .administer
  | challenge id revealHash reasonHash =>
      simp only [ChallengeCall.run, map_eq_ok, Prod.mk.injEq] at h
      obtain ⟨⟨_, _⟩, h, rfl, rfl, rfl⟩ := h
      obtain ⟨hid, hslot, hreveal, hmark, endsAt, hash, hends, hhash, rfl⟩ := challenge_ok h
      exact .challenge hid hslot hmark hends hhash hreveal
  | resolve id hash wins transcriptHash uri verdictHash =>
      simp only [ChallengeCall.run, map_eq_ok, Prod.mk.injEq] at h
      obtain ⟨_, h, rfl, rfl, rfl⟩ := h
      simp only [resolve, bind_eq_ok, Unique.exists_iff] at h
      obtain ⟨hch, hres, hpend, hval, hhash, huri, ch, bond, ev, hch', hamount, hrel, hat, rfl, rfl⟩ :=
        resolveAs_ok h.2
      exact .decide hch hres hpend (lt_of_lt_of_le d.cm.resolverDecisionBond_pos hval) hsender hch'
        hamount hrel (hat ▸ Nat.lt_add_of_pos_right d.cm.fraudWindow_pos) trivial
        hhash huri
  | resolveFor id hash wins transcriptHash uri verdictHash beneficiary =>
      simp only [ChallengeCall.run, map_eq_ok, Prod.mk.injEq] at h
      obtain ⟨_, h, rfl, rfl, rfl⟩ := h
      simp only [resolveFor, bind_eq_ok, revertIf_eq_ok, Unique.exists_iff] at h
      obtain ⟨hch, hres, hpend, hval, hhash, huri, ch, bond, ev, hch', hamount, hrel, hat, rfl, rfl⟩ :=
        resolveAs_ok h.2.2
      exact .decide hch hres hpend (lt_of_lt_of_le d.cm.resolverDecisionBond_pos hval) h.2.1 hch'
        hamount hrel (hat ▸ Nat.lt_add_of_pos_right d.cm.fraudWindow_pos) trivial
        hhash huri
  | finalizeResolution id hash =>
      simp only [ChallengeCall.run, map_eq_ok, Prod.mk.injEq] at h
      obtain ⟨⟨_, _⟩, h, rfl, rfl, rfl⟩ := h
      obtain ⟨hch, -, -, hpend, -, hrel, _, wins, W, B, rfl, hwins, hW, hB, -, -, -, hs, rfl⟩ :=
        finalizeResolution_eq_ok.mp h
      exact .finalizeResolution hch hpend hwins hW hB hrel hs
  | expireChallenge id hash =>
      simp only [ChallengeCall.run, map_eq_ok, Prod.mk.injEq] at h
      obtain ⟨⟨_, _⟩, h, rfl, rfl, rfl⟩ := h
      obtain ⟨hch, -, -, hres, hpend, hends, -, hs, rfl⟩ := expireChallenge_eq_ok.mp h
      exact .expire hch hres hpend hends hs
  | slashResolverBond id hash proofHash =>
      simp only [ChallengeCall.run, map_eq_ok, Prod.mk.injEq] at h
      obtain ⟨⟨_, _⟩, h, rfl, rfl, rfl⟩ := h
      obtain ⟨hch, hpend, hs, rfl⟩ := slashResolverBond_ok h
      exact .slash hch hpend hs
  | applyObjectiveResolution id hash wins proofHash beneficiary =>
      simp only [ChallengeCall.run, map_eq_ok, Prod.mk.injEq] at h
      obtain ⟨⟨_, _⟩, h, rfl, rfl, rfl⟩ := h
      obtain ⟨hch, hpend, hs, rfl⟩ := applyObjectiveResolution_ok h
      exact .objective hch hpend hs
  | claimBond =>
      simp only [ChallengeCall.run, map_eq_ok, Prod.mk.injEq] at h
      obtain ⟨⟨_, _⟩, h, rfl, rfl, rfl⟩ := h
      obtain ⟨hclaiming, rfl, hne, hle, rfl⟩ := claimBond_ok h
      exact .withdraw hclaiming hne hle

/-- A move of the challenge manager leaves the submission manager alone or calls the hook that
belongs to the call. -/
theorem Move.hook {a : ChallengeCall} {f : List Frame} (h : Move d e s c a c' s' f)
    (l : PayoutLedger) (p : BountyPool) :
    s' = s ∨ ∃ hook : ManagerCall, hook.run d (d.asChallenger e) l p s = .ok (s', l, []) ∧
      a.Hooks hook := by
  cases h with
  | administer => exact Or.inl rfl
  | @challenge id _ _ _ _ _ _ _ hs =>
      exact Or.inr ⟨.markChallenged id, by simp only [ManagerCall.run, hs]; rfl, .challenge⟩
  | decide => exact Or.inl rfl
  | @finalizeResolution id hash wins W B s₁ _ _ _ _ _ _ hs =>
      exact Or.inr ⟨.resolveChallenge id wins (c.challenges id).challenger,
        by simp only [ManagerCall.run, hs]; rfl, .finalizeResolution⟩
  | @expire id hash s₁ _ _ _ _ hs =>
      exact Or.inr ⟨.resolveChallenge id false 0, by simp only [ManagerCall.run, hs]; rfl, .expire⟩
  | @slash id hash proofHash s₁ _ _ hs =>
      exact Or.inr ⟨.cancelChallenge id, by simp only [ManagerCall.run, hs]; rfl, .slash⟩
  | @objective id hash proofHash wins B s₁ _ _ hs =>
      exact Or.inr ⟨.resolveObjectiveChallenge id wins (c.challenges id).challenger,
        by simp only [ManagerCall.run, hs]; rfl, .objective⟩
  | withdraw => exact Or.inl rfl

end ChallengeManager
end P42Prizes
