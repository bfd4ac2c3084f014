import P42Prizes.PoolConservation

/-! # Funding the pool

ETH is booked by the pool in `_fund` only (`funded_of_step`), whose guards are `FundingGuards`: the
submission manager of the pool is armed and its authorization in force, the owner accepts funds,
the problem of the pool is frozen, and the ledger is open and before its funding deadline.  The
owner can accept funds only while the submission manager of the pool is the credit recorder of the
ledger, and neither pointer changes again (`AcceptingWired`). -/

namespace P42Prizes

open Reverting Function Transition

/-- What `_fund` checks. -/
structure FundingGuards (d : Deployment) (e : Env) (manager : SubmissionManagerArmed)
    (l : PayoutLedger) (p : BountyPool) : Prop where
  value : 0 < e.value
  managerSet : p.submissionManager ≠ 0
  armed : manager.fundingArmed = true
  capability : manager.objectiveProofCapabilityActive = true
  accepting : p.acceptingFunds = true
  registrySet : p.registry ≠ 0
  binding : e.ext.problemPool p.registry p.problemId = d.pool
  frozen : e.ext.explicitlyFrozen p.registry p.problemId = true
  ledgerSet : p.ledger ≠ 0
  opened : l.closed = false
  authorized : e.now ≤ manager.fundingAuthorizationExpiresAt
  inTime : e.now ≤ PayoutLedger.fundingDeadline d

namespace BountyPool

variable {d : Deployment} {e : Env} {l l' : PayoutLedger} {p p' : BountyPool}

theorem fundAs_guards {manager : SubmissionManagerArmed} {sponsor : Address}
    (h : p.fundAs d e manager sponsor l = .ok p') : FundingGuards d e manager l p := by
  simp only [fundAs, requireFrozenRegistryBinding, bind_eq_ok, require_eq_ok, revertIf_eq_ok,
    Unique.exists_iff, not_or, not_and, Bool.not_eq_false, Bool.not_eq_true, not_lt, ne_eq,
    not_not] at h
  obtain ⟨hvalue, ⟨hmanager, harmed⟩, hcap, haccepting, hregistry, ⟨hbinding, hfrozen⟩, hclosed,
    hexpires, hledger, htime, -⟩ := h
  exact ⟨hvalue, hmanager, harmed, hcap, haccepting, hregistry, hbinding, hfrozen, hledger,
    hclosed hledger, hexpires, htime⟩

/-- A payout books no new ETH. -/
theorem Booked.totalFunded {payout : Payout} (h : Booked d e l p payout l' p') :
    p'.totalFunded = p.totalFunded := by
  cases h <;> rfl

end BountyPool

/-- The calls by which ETH is booked. -/
def PoolCall.Funds : PoolCall → Prop
  | fund => True
  | fundFor _ => True
  | _ => False

theorem PoolCall.guards_of_run {d : Deployment} {e : Env} {s : SubmissionManager}
    {l l' : PayoutLedger} {p p' : BountyPool} {c : PoolCall} {f : List Frame}
    (h : c.run d e s l p = .ok (p', l', f)) (hc : c.Funds) :
    FundingGuards d e (armedManager d e p s) l p := by
  cases c with
  | fund =>
      simp only [PoolCall.run, map_eq_ok, BountyPool.fund] at h
      obtain ⟨_, h, -⟩ := h
      exact BountyPool.fundAs_guards h
  | fundFor sponsor =>
      simp only [PoolCall.run, map_eq_ok, BountyPool.fundFor, bind_eq_ok] at h
      obtain ⟨_, ⟨-, -, h⟩, -⟩ := h
      exact BountyPool.fundAs_guards h
  | _ => exact hc.elim

namespace BountyPool.PoolMove

variable {d : Deployment} {e : Env} {l l' : PayoutLedger} {p p' : BountyPool} {c : Call}
  {f : List Frame}

/-- Only the funding calls raise `totalFunded`. -/
theorem totalFunded (h : PoolMove d e l p c l' p' f) (hc : ∀ q : PoolCall, q.Funds → c ≠ .pool q)
    (hearly : l.closed = false → p.accruedFeeBalance = 0) : p'.totalFunded = p.totalFunded := by
  cases h with
  | poolAdmin hadmin =>
      obtain ⟨_, _, _, _, _, _, -, -, -, -, -, rfl⟩ := hadmin
      rfl
  | fund _ hcall =>
      obtain rfl | rfl := hcall
      · exact absurd rfl (hc .fund trivial)
      · exact absurd rfl (hc (.fundFor _) trivial)
  | payout hbooked => exact hbooked.totalFunded
  | earlyFee hl hfee => exact absurd (hearly hl) hfee
  | _ => rfl

end BountyPool.PoolMove

/-- ETH is booked by a funding call that passes the guards. -/
theorem funded_of_step {d : Deployment} {C : World → Action → Prop} {w w' : World} {a : Action}
    (hreach : d.protocol.Reachable C w) (h : w.step d a = some w')
    (hlt : w.pool.totalFunded < w'.pool.totalFunded) :
    ∃ sender value ext q, a = .call sender value ext (.pool q) ∧ q.Funds ∧
      FundingGuards d ⟨w.block, sender, value, ext⟩
        (armedManager d ⟨w.block, sender, value, ext⟩ w.pool w.sm) w.ledger w.pool := by
  have hearly : w.ledger.closed = false → w.pool.accruedFeeBalance = 0 :=
    fun hc => ((solvent_of_reachable hreach).idle (Or.inl hc)).2.1
  cases stepped_of_step h with
  | ledger _ hrun =>
      have hsame := (LedgerCall.move_of_run hrun).totalFunded (fun _ _ => nofun) hearly
      exact absurd hsame hlt.ne'
  | @pool sender value ext c p l f _ _ _ hrun =>
      by_cases hc : c.Funds
      · have hguards := PoolCall.guards_of_run hrun hc
        exact ⟨sender, value, ext, c, rfl, hc, { hguards with }⟩
      · have hsame := (PoolCall.move_of_run hrun).totalFunded
          (fun q hq heq => hc (Call.pool.inj heq ▸ hq)) hearly
        exact absurd hsame hlt.ne'
  | finishPayout => exact absurd hlt (lt_irrefl _)
  | _ => exact absurd hlt (lt_irrefl _)

/-! ### The pointers of a pool that accepts funds -/

/-- A pool that accepts funds knows the credit recorder of its ledger. -/
def AcceptingWired (l : PayoutLedger) (p : BountyPool) : Prop :=
  p.acceptingFunds = true → l.creditRecorder = p.submissionManager ∧ p.submissionManager ≠ 0

namespace AcceptingWired

variable {d : Deployment} {e : Env} {l l' : PayoutLedger} {p p' : BountyPool} {c : Call}
  {f : List Frame} {payout : Payout}

theorem booked (h : AcceptingWired l p) (hbooked : BountyPool.Booked d e l p payout l' p') :
    AcceptingWired l' p' := by
  have hl := hbooked.credits.2.2
  have hp : p'.acceptingFunds = p.acceptingFunds ∧ p'.submissionManager = p.submissionManager := by
    cases hbooked <;> exact ⟨rfl, rfl⟩
  unfold AcceptingWired
  rw [hl, hp.1, hp.2]
  exact h

theorem move (h : AcceptingWired l p) (hmove : BountyPool.PoolMove d e l p c l' p' f)
    (hearly : l.closed = false → p.accruedFeeBalance = 0) : AcceptingWired l' p' := by
  cases hmove with
  | ledgerAdmin _ hkeep =>
      intro haccepting
      obtain ⟨hrec, hne⟩ := h haccepting
      exact ⟨(hkeep (hrec ▸ hne)).trans hrec, hne⟩
  | poolAdmin hadmin =>
      obtain ⟨_, manager, _, _, accepting, _, -, -, hmanager, -, haccept, rfl⟩ := hadmin
      intro haccepting
      have hwired : l.creditRecorder = p.submissionManager ∧ p.submissionManager ≠ 0 := by
        obtain hold | hnew := haccept haccepting
        · exact h hold
        · exact hnew
      show l.creditRecorder = manager ∧ manager ≠ 0
      rw [hmanager hwired.2]
      exact hwired
  | payout hbooked =>
      have hwired := h.booked hbooked
      exact hwired
  | earlyFee hl hfee => exact absurd (hearly hl) hfee
  | _ => exact h

end AcceptingWired

theorem acceptingWired_of_reachable {d : Deployment} {C : World → Action → Prop} {w : World}
    (h : d.protocol.Reachable C w) : AcceptingWired w.ledger w.pool := by
  refine h.invariant (P := fun w => AcceptingWired w.ledger w.pool) ?_ ?_
  · rintro _ ⟨block, wiring, -, -, rfl⟩
    intro haccepting
    cases haccepting
  · intro w a w' hreach hP _ hstep
    have hearly : w.ledger.closed = false → w.pool.accruedFeeBalance = 0 :=
      fun hc => ((solvent_of_reachable hreach).idle (Or.inl hc)).2.1
    cases stepped_of_step hstep with
    | manager _ _ _ hrun =>
        have hrec := (SubmissionManager.move_of_run hrun).creditRecorder
        intro haccepting
        exact hrec ▸ hP haccepting
    | ledger _ hrun => exact AcceptingWired.move hP (LedgerCall.move_of_run hrun) hearly
    | @pool _ value _ _ _ _ _ _ _ _ hrun =>
        have hdeposit : AcceptingWired w.ledger { w.pool with balance := w.pool.balance + value } := hP
        exact hdeposit.move (PoolCall.move_of_run hrun) hearly
    | finishPayout _ hl =>
        obtain rfl | ⟨ev, rfl⟩ := hl
        · exact hP
        · exact hP
    | _ => exact hP

/-- With the submission manager as the credit recorder, ETH is booked only while its funding is
armed and its authorization is in force. -/
theorem armed_of_funded {d : Deployment} {C : World → Action → Prop} {w w' : World} {a : Action}
    (hreach : d.protocol.Reachable C w) (h : w.step d a = some w')
    (hlt : w.pool.totalFunded < w'.pool.totalFunded)
    (hrec : w.ledger.creditRecorder = d.submissionManager) :
    w.sm.fundingArmed = true ∧ w.block.timestamp ≤ w.sm.fundingAuthorizationExpiresAt := by
  obtain ⟨sender, value, ext, q, -, -, hguards⟩ := funded_of_step hreach h hlt
  have hmanager : w.pool.submissionManager = d.submissionManager :=
    ((acceptingWired_of_reachable hreach) hguards.accepting).1.symm.trans hrec
  have harmed := hguards.armed
  have hexpires := hguards.authorized
  simp only [armedManager, hmanager, if_true] at harmed hexpires
  exact ⟨harmed, hexpires⟩

end P42Prizes
