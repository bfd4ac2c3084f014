import P42Prizes.QuorumProtocol

/-! # What a call of the quorum can do

`QuorumMove` lists the successful calls of the quorum: what each has checked, what it changes in
the signers and in the decisions taken, and the call it makes to a board.  A step of the quorum
moves every board along its own protocol (`boards_of_reachable`). -/

namespace P42Prizes

open Reverting Function Transition

/-- The signers and the decisions taken are the same. -/
structure ResolverQuorum.Kept (q q' : ResolverQuorum) : Prop where
  signerEpoch : q'.signerEpoch = q.signerEpoch
  isEpochSigner : q'.isEpochSigner = q.isEpochSigner
  epochSigners : q'.epochSigners = q.epochSigners
  epochThreshold : q'.epochThreshold = q.epochThreshold
  nonceUsed : q'.nonceUsed = q.nonceUsed
  challengeDecided : q'.challengeDecided = q.challengeDecided

namespace QuorumWorld

variable (Q : QuorumDeployment) (e : Env)

/-- The board of `m` after a call by the quorum. -/
def Called (w : QuorumWorld) (m : Address) (value : ℕ) (c : ChallengeCall) (b : World) : Prop :=
  Call.run (Q.board m) ⟨e.block, Q.adapter, value, { e.ext with accepts := true }⟩ (w.boards m)
    (.challenge c) = .ok b

/-- A successful call of the quorum. -/
inductive Move (w : QuorumWorld) : QuorumCall → QuorumWorld → Prop
  | rotate {signers : List Address} {threshold : ℕ} {q : ResolverQuorum} :
      w.quorum.rotateSigners Q e signers threshold = .ok q →
      Move w (.rotateSigners signers threshold) (w.setQuorum q)
  | pause {paused : Bool} {q : ResolverQuorum} :
      w.quorum.Kept q → Move w (.setPaused paused) (w.setQuorum q)
  | fund {q : ResolverQuorum} : w.quorum.Kept q → Move w .fundStake (w.setQuorum q)
  | resolve {x : Decision} {uri : Bytes} {signatures : List Bytes} {q : ResolverQuorum}
      {b : World} :
      w.quorum.requireDecisionBinding Q e x true = .ok () →
      Q.crypto.keccak256 uri = x.transcriptURIHash →
      w.quorum.nonceUsed x.manager x.nonce = false →
      w.quorum.challengeDecided x.manager x.challengeInstanceHash = false →
      w.quorum.requireQuorum Q x.signerEpoch (Q.decisionDigest x) signatures = .ok () →
      w.Called Q e x.manager (Q.board x.manager).cm.resolverDecisionBondWei
        (.resolveFor x.submissionId x.challengeInstanceHash x.challengerWins x.transcriptHash uri
          x.verdictHash Q.adapter) b →
      { w.quorum with
        nonceUsed := update w.quorum.nonceUsed x.manager
          (update (w.quorum.nonceUsed x.manager) x.nonce true)
        challengeDecided := update w.quorum.challengeDecided x.manager
          (update (w.quorum.challengeDecided x.manager) x.challengeInstanceHash true) }.Kept q →
      Move w (.resolve x uri signatures)
        { w with quorum := q, boards := update w.boards x.manager b }
  | reclaim {m : Address} {q : ResolverQuorum} {b b' : World} :
      m ∈ Q.managers → w.Called Q e m 0 .claimBond b → b.step (Q.board m) .finish = some b' →
      w.quorum.Kept q →
      Move w (.reclaimStake m) { w with quorum := q, boards := update w.boards m b' }
  | equivocation {x y : Decision} {signatures₁ signatures₂ : List Bytes} {proofHash : Bytes32}
      {q : ResolverQuorum} {b : World} :
      w.quorum.requireDecisionBinding Q e x false = .ok () →
      w.quorum.requireDecisionBinding Q e y false = .ok () →
      x.manager = y.manager → x.submissionId = y.submissionId →
      x.challengeInstanceHash = y.challengeInstanceHash → x.signerEpoch = y.signerEpoch →
      Q.crypto.decisionContentHash x ≠ Q.crypto.decisionContentHash y →
      w.quorum.requireQuorum Q x.signerEpoch (Q.decisionDigest x) signatures₁ = .ok () →
      w.quorum.requireQuorum Q y.signerEpoch (Q.decisionDigest y) signatures₂ = .ok () →
      w.Called Q e x.manager 0 (.slashResolverBond x.submissionId x.challengeInstanceHash proofHash)
        b →
      w.quorum.Kept q →
      Move w (.proveEquivocation x signatures₁ y signatures₂)
        { w with quorum := q, boards := update w.boards x.manager b }
  | fraud {claim : ObjectiveClaim} {proof : Bytes} {contextHash proofHash : Bytes32}
      {pendingChallengerWins : Bool} {q : ResolverQuorum} {b : World} :
      claim.manager ∈ Q.managers → claim.proofBeneficiary ≠ 0 →
      (w.boards claim.manager).cm.objectiveProofContext (Q.board claim.manager)
        (Q.binding claim.manager) claim.submissionId claim.challengeInstanceHash =
          .ok (contextHash, pendingChallengerWins) →
      claim.correctedChallengerWins ≠ pendingChallengerWins →
      e.ext.verify Q.objectiveVerifier (Q.binding claim.manager).programVKey
        (Q.journalDigest claim contextHash) proof = true →
      w.Called Q e claim.manager 0 (.applyObjectiveResolution claim.submissionId
        claim.challengeInstanceHash claim.correctedChallengerWins proofHash
        claim.proofBeneficiary) b →
      w.quorum.Kept q →
      Move w (.proveObjectiveFraud claim proof)
        { w with quorum := q, boards := update w.boards claim.manager b }

variable {Q e} {w w' : QuorumWorld}

theorem callManager_eq_ok {m : Address} {value : ℕ} {c : ChallengeCall} :
    w.callManager Q e m value c = .ok w' ↔ ∃ b, w.Called Q e m value c b ∧
      { w with
        quorum := { w.quorum with balance := w.quorum.balance - value }
        boards := update w.boards m b } = w' := by
  simp only [callManager, Called, bind_eq_ok, pure_eq_ok]

/-- The manager waits for the return of the quorum, to which it pays a bond. -/
theorem Called.finish {m : Address} {b : World} (h : w.Called Q e m 0 .claimBond b) :
    ∃ b', b.step (Q.board m) .finish = some b' := by
  simp only [Called, Call.run, ChallengeCall.run, bind_eq_ok, map_eq_ok, pure_eq_ok] at h
  obtain ⟨_, -, _, ⟨r, -, rfl⟩, rfl⟩ := h
  exact ⟨_, rfl⟩

theorem returnPayment_eq {m : Address} {b b' : World} (hb : w.boards m = b)
    (h : b.step (Q.board m) .finish = some b') :
    w.returnPayment Q m = { w with boards := update w.boards m b' } := by
  subst hb
  unfold returnPayment
  cases hframes : (w.boards m).frames with
  | nil => simp [World.step, hframes] at h
  | cons f frames =>
      simp only [World.step, hframes, Option.some.injEq] at h
      subst h
      rfl

/-- Every successful call of the quorum is a move. -/
theorem move_of_run {c : QuorumCall} (h : c.run Q e w = .ok w') : w.Move Q e c w' := by
  cases c with
  | rotateSigners signers threshold =>
      simp only [QuorumCall.run, map_eq_ok] at h
      obtain ⟨q, hq, rfl⟩ := h
      exact .rotate hq
  | setPaused paused =>
      simp only [QuorumCall.run, map_eq_ok] at h
      obtain ⟨q, hq, rfl⟩ := h
      refine .pause ?_
      cases paused
      · simp only [ResolverQuorum.setPaused, bind_eq_ok, Unique.exists_iff, Bool.false_eq_true,
          if_false, pure_eq_ok] at hq
        obtain ⟨-, rfl⟩ := hq
        exact ⟨rfl, rfl, rfl, rfl, rfl, rfl⟩
      · simp only [ResolverQuorum.setPaused, bind_eq_ok, Unique.exists_iff, if_true,
          pure_eq_ok] at hq
        obtain ⟨-, -, -, _, -, _, -, rfl⟩ := hq
        exact ⟨rfl, rfl, rfl, rfl, rfl, rfl⟩
  | fundStake =>
      simp only [QuorumCall.run, map_eq_ok] at h
      obtain ⟨q, hq, rfl⟩ := h
      simp only [ResolverQuorum.fundStake, bind_eq_ok, pure_eq_ok, Unique.exists_iff] at hq
      obtain ⟨-, -, rfl⟩ := hq
      exact .fund ⟨rfl, rfl, rfl, rfl, rfl, rfl⟩
  | resolve x uri signatures =>
      simp only [QuorumCall.run, QuorumWorld.resolve, forwardDecision, bind_eq_ok, revertIf_eq_ok,
        pure_eq_ok, callManager_eq_ok, Unique.exists_iff, not_not, Bool.not_eq_true] at h
      obtain ⟨-, hbinding, -, huri, hnonce, hdecided, hquorum, _, ⟨-, b, hb, rfl⟩, rfl⟩ := h
      exact .resolve hbinding huri hnonce hdecided hquorum hb ⟨rfl, rfl, rfl, rfl, rfl, rfl⟩
  | reclaimStake m =>
      simp only [QuorumCall.run, QuorumWorld.reclaimStake, bind_eq_ok, revertIf_eq_ok,
        pure_eq_ok, callManager_eq_ok, Unique.exists_iff, not_not] at h
      obtain ⟨hm, _, ⟨b, hb, rfl⟩, balance, -, rfl⟩ := h
      obtain ⟨b', hfinish⟩ := hb.finish
      rw [returnPayment_eq (update_self ..) hfinish, update_idem]
      exact .reclaim hm hb hfinish ⟨rfl, rfl, rfl, rfl, rfl, rfl⟩
  | proveEquivocation x signatures₁ y signatures₂ =>
      simp only [QuorumCall.run, QuorumWorld.proveEquivocation, bind_eq_ok, revertIf_eq_ok,
        pure_eq_ok, callManager_eq_ok, Unique.exists_iff, not_or, not_not, ne_eq] at h
      obtain ⟨hx, hy, ⟨hm, hid, hhash, hepoch⟩, ⟨-, hcontent⟩, hq₁, hq₂, -, _, ⟨b, hb, rfl⟩, rfl⟩ := h
      exact .equivocation hx hy hm hid hhash hepoch hcontent hq₁ hq₂ hb ⟨rfl, rfl, rfl, rfl, rfl, rfl⟩
  | proveObjectiveFraud claim proof =>
      simp only [QuorumCall.run, QuorumWorld.proveObjectiveFraud, bind_eq_ok, revertIf_eq_ok,
        pure_eq_ok, callManager_eq_ok, Unique.exists_iff, not_not, Bool.not_eq_false] at h
      obtain ⟨-, hm, hbeneficiary, -, ⟨contextHash, pending⟩, hcontext, hne, hverify, _, ⟨b, hb, rfl⟩,
        rfl⟩ := h
      exact .fraud hm hbeneficiary hcontext hne hverify hb ⟨rfl, rfl, rfl, rfl, rfl, rfl⟩

theorem move_of_step {sender : Address} {value : ℕ} {ext : External} {c : QuorumCall}
    (h : w.step Q (.call sender value ext c) = some w') :
    ∃ balance, (w.setQuorum { w.quorum with balance := balance }).Move Q
      ⟨w.block, sender, value, ext⟩ c w' := by
  simp only [QuorumWorld.step] at h
  split at h
  · obtain ⟨balance, -, hrun⟩ := bind_eq_ok.mp (toOption_eq_some.mp h)
    exact ⟨balance, move_of_run hrun⟩
  · cases h

end QuorumWorld
end P42Prizes
