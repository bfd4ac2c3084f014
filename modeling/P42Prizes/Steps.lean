import P42Prizes.PoolMoves

/-! # What a step of the board does

`Stepped` lists the kinds of steps with everything they change, and `stepped_of_step` reads them
off `World.step`.  `ManagerStepped` and `ChallengeStepped` say what a step means for one of the
two managers alone.  The challenge manager acts on the submission manager only through the four
hooks, so for the submission manager every step is a call, some ETH or nothing
(`manager_stepped`). -/

namespace P42Prizes

open Reverting Function Transition

/-- The steps of the board. -/
inductive Stepped (d : Deployment) (w : World) : Action → World → Prop
  | tick (block : Block) : w.frames = [] → w.block.number < block.number →
      w.block.timestamp ≤ block.timestamp → Stepped d w (.tick block) { w with block := block }
  | forceManager (amount : ℕ) : w.sm.balance + amount < 2 ^ 256 →
      Stepped d w (.force .submissionManager amount)
        { w with sm := { w.sm with
            balance := w.sm.balance + amount, forcedEth := w.sm.forcedEth + amount } }
  | forceChallenge (amount : ℕ) : w.cm.balance + amount < 2 ^ 256 →
      Stepped d w (.force .challengeManager amount)
        { w with cm := { w.cm with
            balance := w.cm.balance + amount, forcedEth := w.cm.forcedEth + amount } }
  | forcePool (amount : ℕ) : w.pool.balance + amount < 2 ^ 256 →
      Stepped d w (.force .pool amount)
        { w with pool := { w.pool with balance := w.pool.balance + amount } }
  | manager {sender : Address} {value : ℕ} {ext : External} {c : ManagerCall}
      {s : SubmissionManager} {l : PayoutLedger} {f : List Frame} :
      d.IsExternal sender → (value = 0 ∨ (Call.manager c).payable = true) →
      w.sm.balance + value < 2 ^ 256 →
      c.run d ⟨w.block, sender, value, ext⟩ w.ledger w.pool
        { w.sm with balance := w.sm.balance + value } = .ok (s, l, f) →
      Stepped d w (.call sender value ext (.manager c))
        { w with sm := s, ledger := l, frames := f ++ w.frames }
  | challenge {sender : Address} {value : ℕ} {ext : External} {c : ChallengeCall}
      {c' : ChallengeManager} {s : SubmissionManager} {f : List Frame} :
      d.IsExternal sender → (value = 0 ∨ (Call.challenge c).payable = true) →
      w.cm.balance + value < 2 ^ 256 →
      c.run d ⟨w.block, sender, value, ext⟩ w.ledger w.pool w.sm
        { w.cm with balance := w.cm.balance + value } = .ok (c', s, f) →
      Stepped d w (.call sender value ext (.challenge c))
        { w with cm := c', sm := s, frames := f ++ w.frames }
  | ledger {sender : Address} {ext : External} {c : LedgerCall} {p : BountyPool}
      {l : PayoutLedger} {f : List Frame} :
      d.IsExternal sender →
      c.run d ⟨w.block, sender, 0, ext⟩ w.sm w.ledger w.pool = .ok (p, l, f) →
      Stepped d w (.call sender 0 ext (.ledger c))
        { w with pool := p, ledger := l, frames := f ++ w.frames }
  | pool {sender : Address} {value : ℕ} {ext : External} {c : PoolCall} {p : BountyPool}
      {l : PayoutLedger} {f : List Frame} :
      d.IsExternal sender → (value = 0 ∨ (Call.pool c).payable = true) →
      w.pool.balance + value < 2 ^ 256 →
      c.run d ⟨w.block, sender, value, ext⟩ w.sm w.ledger
        { w.pool with balance := w.pool.balance + value } = .ok (p, l, f) →
      Stepped d w (.call sender value ext (.pool c))
        { w with pool := p, ledger := l, frames := f ++ w.frames }
  | finishManager {claimant : Address} {amount : ℕ} {frames : List Frame} :
      w.frames = .managerBond claimant amount :: frames →
      Stepped d w .finish
        { w with sm := w.sm.finishClaimBond claimant amount, frames := frames }
  | finishChallenge {claimant : Address} {amount : ℕ} {frames : List Frame} :
      w.frames = .challengeBond claimant amount :: frames →
      Stepped d w .finish
        { w with cm := w.cm.finishClaimBond claimant amount, frames := frames }
  | finishPayout {payout : Payout} {frames : List Frame} {l : PayoutLedger} :
      w.frames = .payout payout :: frames →
      (l = w.ledger ∨ ∃ ev, l = w.ledger.emit ev) →
      Stepped d w .finish
        { w with pool := w.pool.finish d payout, ledger := l, frames := frames }

theorem stepped_of_step {d : Deployment} {w w' : World} {a : Action}
    (h : w.step d a = some w') : Stepped d w a w' := by
  cases a with
  | tick block =>
      simp only [World.step] at h
      split at h
      · rename_i hg
        cases h
        exact .tick block hg.1 hg.2.1 hg.2.2
      · cases h
  | force holder amount =>
      simp only [World.step, Except.toOption] at h
      split at h
      · rename_i v hv
        cases h
        cases holder with
        | submissionManager =>
            simp only [World.force, receive, bind_eq_ok, checkedAdd_eq_ok, pure_eq_ok, and_assoc,
              exists_and_left, exists_eq_left'] at hv
            obtain ⟨hlt, rfl⟩ := hv
            exact .forceManager amount hlt
        | challengeManager =>
            simp only [World.force, receive, bind_eq_ok, checkedAdd_eq_ok, pure_eq_ok, and_assoc,
              exists_and_left, exists_eq_left'] at hv
            obtain ⟨hlt, rfl⟩ := hv
            exact .forceChallenge amount hlt
        | pool =>
            simp only [World.force, receive, bind_eq_ok, checkedAdd_eq_ok, pure_eq_ok, and_assoc,
              exists_and_left, exists_eq_left'] at hv
            obtain ⟨hlt, rfl⟩ := hv
            exact .forcePool amount hlt
      · cases h
  | call sender value ext c =>
      simp only [World.step, Except.toOption] at h
      split at h
      · rename_i hg
        obtain ⟨hsender, hpay⟩ := hg
        split at h
        · rename_i v hv
          cases h
          cases c with
          | manager c =>
              simp only [Call.run, receive, bind_eq_ok, checkedAdd_eq_ok, pure_eq_ok, and_assoc,
                exists_and_left, exists_eq_left', Prod.exists] at hv
              obtain ⟨hlt, s, l, f, hrun, rfl⟩ := hv
              exact .manager hsender hpay hlt hrun
          | challenge c =>
              simp only [Call.run, receive, bind_eq_ok, checkedAdd_eq_ok, pure_eq_ok, and_assoc,
                exists_and_left, exists_eq_left', Prod.exists] at hv
              obtain ⟨hlt, c', s, f, hrun, rfl⟩ := hv
              exact .challenge hsender hpay hlt hrun
          | ledger c =>
              simp only [Call.run, bind_eq_ok, pure_eq_ok, Prod.exists] at hv
              obtain ⟨p, l, f, hrun, rfl⟩ := hv
              obtain rfl : value = 0 := by simpa [Call.payable] using hpay
              exact .ledger hsender hrun
          | pool c =>
              simp only [Call.run, receive, bind_eq_ok, checkedAdd_eq_ok, pure_eq_ok, and_assoc,
                exists_and_left, exists_eq_left', Prod.exists] at hv
              obtain ⟨hlt, p, l, f, hrun, rfl⟩ := hv
              exact .pool hsender hpay hlt hrun
        · cases h
      · cases h
  | finish =>
      simp only [World.step] at h
      split at h
      · cases h
      · rename_i f frames hf
        cases h
        cases f with
        | managerBond claimant amount => exact .finishManager hf
        | challengeBond claimant amount => exact .finishChallenge hf
        | payout payout =>
            cases payout with
            | rollover recipient amount => exact .finishPayout hf (Or.inr ⟨_, rfl⟩)
            | claim => exact .finishPayout hf (Or.inl rfl)
            | donation => exact .finishPayout hf (Or.inl rfl)
            | refund => exact .finishPayout hf (Or.inl rfl)
            | fee => exact .finishPayout hf (Or.inl rfl)
            | forced => exact .finishPayout hf (Or.inl rfl)

/-! ### Bonds in flight -/

/-- What a suspended `claimBond` of the submission manager has sent to `a`. -/
def Frame.managerBondOf (a : Address) : Frame → ℕ
  | managerBond claimant amount => if claimant = a then amount else 0
  | _ => 0

/-- What a suspended `claimBond` of the challenge manager has sent to `a`. -/
def Frame.challengeBondOf (a : Address) : Frame → ℕ
  | challengeBond claimant amount => if claimant = a then amount else 0
  | _ => 0

/-- What the suspended calls of a kind have sent. -/
def inFlight (sent : Frame → ℕ) (frames : List Frame) : ℕ := (frames.map sent).sum

@[simp] theorem inFlight_nil (sent : Frame → ℕ) : inFlight sent [] = 0 := rfl

@[simp] theorem inFlight_cons (sent : Frame → ℕ) (f : Frame) (frames : List Frame) :
    inFlight sent (f :: frames) = sent f + inFlight sent frames := by
  simp only [inFlight, List.map_cons, List.sum_cons]

@[simp] theorem inFlight_append (sent : Frame → ℕ) (f frames : List Frame) :
    inFlight sent (f ++ frames) = inFlight sent f + inFlight sent frames := by
  simp only [inFlight, List.map_append, List.sum_append]

theorem inFlight_eq_zero {sent : Frame → ℕ} {frames : List Frame}
    (h : ∀ f ∈ frames, sent f = 0) : inFlight sent frames = 0 := by
  induction frames with
  | nil => rfl
  | cons f frames ih =>
      rw [inFlight_cons, h f (List.mem_cons_self ..),
        ih (fun g hg => h g (List.mem_cons_of_mem _ hg))]

theorem BountyPool.PoolMove.managerBondOf {d : Deployment} {e : Env} {l l' : PayoutLedger}
    {p p' : BountyPool} {c : Call} {f : List Frame} (h : PoolMove d e l p c l' p' f) (a : Address) :
    inFlight (Frame.managerBondOf a) f = 0 := by
  refine inFlight_eq_zero (fun x hx => ?_)
  obtain ⟨payout, rfl⟩ := h.frames x hx
  rfl

theorem ChallengeManager.Move.managerBondOf {d : Deployment} {e : Env} {s s' : SubmissionManager}
    {c c' : ChallengeManager} {call : ChallengeCall} {f : List Frame}
    (h : Move d e s c call c' s' f) (a : Address) : inFlight (Frame.managerBondOf a) f = 0 := by
  cases h <;> rfl

/-! ### The submission manager alone -/

/-- What a step of the board means for the submission manager. -/
inductive ManagerStepped (d : Deployment) (w : World) (a : Action) (w' : World) : Prop
  | quiet : w.block.timestamp ≤ w'.block.timestamp → w'.sm = w.sm →
      (w.ledger.closed = true → w'.ledger.closed = true) →
      (∀ b, inFlight (Frame.managerBondOf b) w'.frames = inFlight (Frame.managerBondOf b) w.frames) →
      ManagerStepped d w a w'
  | eth (amount : ℕ) : w'.block = w.block → w.sm.balance + amount < 2 ^ 256 →
      w'.sm = { w.sm with
        balance := w.sm.balance + amount, forcedEth := w.sm.forcedEth + amount } →
      w'.ledger = w.ledger → w'.frames = w.frames → ManagerStepped d w a w'
  | finish (claimant : Address) (amount : ℕ) : w'.block = w.block → w'.ledger = w.ledger →
      w.frames = .managerBond claimant amount :: w'.frames →
      w'.sm = w.sm.finishClaimBond claimant amount → ManagerStepped d w a w'
  | call (e : Env) (c : ManagerCall) (f : List Frame) : e.block = w.block → w'.block = w.block →
      e.sender ≠ 0 → (e.value = 0 ∨ (Call.manager c).payable = true) →
      (w.sm.balance < 2 ^ 256 → w.sm.balance + e.value < 2 ^ 256) →
      c.run d e w.ledger w.pool { w.sm with balance := w.sm.balance + e.value } =
        .ok (w'.sm, w'.ledger, f) →
      w'.pool = w.pool →
      (∀ b, inFlight (Frame.managerBondOf b) w'.frames =
        inFlight (Frame.managerBondOf b) f + inFlight (Frame.managerBondOf b) w.frames) →
      (a = .call e.sender e.value e.ext (.manager c) ∧ d.IsExternal e.sender ∨
        e.sender = d.challengeManager ∧ e.value = 0 ∧
          ∃ sender value ext q, a = .call sender value ext (.challenge q) ∧ q.Hooks c) →
      ManagerStepped d w a w'

theorem manager_stepped {d : Deployment} {w w' : World} {a : Action} (h : w.step d a = some w') :
    ManagerStepped d w a w' := by
  cases stepped_of_step h with
  | tick block _ _ hle => exact .quiet hle rfl id (fun _ => rfl)
  | forceManager amount hlt => exact .eth amount rfl hlt rfl rfl rfl
  | forceChallenge amount _ => exact .quiet le_rfl rfl id (fun _ => rfl)
  | forcePool amount _ => exact .quiet le_rfl rfl id (fun _ => rfl)
  | @manager sender value ext c s l f hsender hpay hlt hrun =>
      exact .call ⟨w.block, sender, value, ext⟩ c f rfl rfl hsender.ne.1 hpay (fun _ => hlt) hrun rfl
        (fun b => inFlight_append _ f w.frames) (Or.inl ⟨rfl, hsender⟩)
  | @challenge sender value ext c c' s f hsender _ _ hrun =>
      have hmove := ChallengeManager.move_of_run hsender.ne.1 hrun
      have hframes : ∀ b, inFlight (Frame.managerBondOf b) (f ++ w.frames) =
          inFlight (Frame.managerBondOf b) w.frames := by
        intro b
        rw [inFlight_append, hmove.managerBondOf, zero_add]
      obtain hs | ⟨hook, hhook, his⟩ := hmove.hook w.ledger w.pool
      · exact .quiet le_rfl hs id hframes
      · exact .call (d.asChallenger ⟨w.block, sender, value, ext⟩) hook [] rfl rfl
          (Ne.symm d.addresses_ne.2.1) (Or.inl rfl) id hhook rfl
          (fun b => by rw [hframes b, inFlight_nil, zero_add]) (Or.inr ⟨rfl, rfl, _, _, _, _, rfl, his⟩)
  | ledger _ hrun =>
      have hmove := LedgerCall.move_of_run hrun
      exact .quiet le_rfl rfl hmove.closed
        (fun b => by rw [inFlight_append, hmove.managerBondOf, zero_add])
  | pool _ _ _ hrun =>
      have hmove := PoolCall.move_of_run hrun
      exact .quiet le_rfl rfl hmove.closed
        (fun b => by rw [inFlight_append, hmove.managerBondOf, zero_add])
  | finishManager hf => exact .finish _ _ rfl rfl hf rfl
  | finishChallenge hf => exact .quiet le_rfl rfl id (fun b => by rw [hf, inFlight_cons]; simp [Frame.managerBondOf])
  | finishPayout hf hl =>
      refine .quiet le_rfl rfl ?_ (fun b => by rw [hf, inFlight_cons]; simp [Frame.managerBondOf])
      intro hclosed
      obtain rfl | ⟨ev, rfl⟩ := hl
      · exact hclosed
      · exact hclosed

/-! ### The challenge manager alone -/

/-- What a step of the board means for the challenge manager. -/
inductive ChallengeStepped (d : Deployment) (w : World) (a : Action) (w' : World) : Prop
  | quiet : w'.cm = w.cm →
      (∀ b, inFlight (Frame.challengeBondOf b) w'.frames =
        inFlight (Frame.challengeBondOf b) w.frames) → ManagerStepped d w a w' →
      (∀ sender value ext q, a ≠ .call sender value ext (.challenge q)) →
      ChallengeStepped d w a w'
  | eth (amount : ℕ) : w.cm.balance + amount < 2 ^ 256 →
      w'.cm = { w.cm with
        balance := w.cm.balance + amount, forcedEth := w.cm.forcedEth + amount } →
      w'.sm = w.sm → w'.frames = w.frames → ChallengeStepped d w a w'
  | finish (claimant : Address) (amount : ℕ) :
      w.frames = .challengeBond claimant amount :: w'.frames →
      w'.cm = w.cm.finishClaimBond claimant amount → w'.sm = w.sm → ChallengeStepped d w a w'
  | call (e : Env) (c : ChallengeCall) (f : List Frame) : e.block = w.block → w'.block = w.block →
      d.IsExternal e.sender → (e.value = 0 ∨ (Call.challenge c).payable = true) →
      w.cm.balance + e.value < 2 ^ 256 → a = .call e.sender e.value e.ext (.challenge c) →
      c.run d e w.ledger w.pool w.sm { w.cm with balance := w.cm.balance + e.value } =
        .ok (w'.cm, w'.sm, f) →
      w'.ledger = w.ledger → w'.pool = w.pool → w'.frames = f ++ w.frames →
      ChallengeStepped d w a w'

theorem BountyPool.PoolMove.challengeBondOf {d : Deployment} {e : Env} {l l' : PayoutLedger}
    {p p' : BountyPool} {c : Call} {f : List Frame} (h : PoolMove d e l p c l' p' f) (a : Address) :
    inFlight (Frame.challengeBondOf a) f = 0 := by
  refine inFlight_eq_zero (fun x hx => ?_)
  obtain ⟨payout, rfl⟩ := h.frames x hx
  rfl

theorem SubmissionManager.Move.challengeBondOf {d : Deployment} {e : Env} {l l' : PayoutLedger}
    {p : BountyPool} {s s' : SubmissionManager} {c : ManagerCall} {f : List Frame}
    (h : Move d e l p s c s' l' f) (a : Address) : inFlight (Frame.challengeBondOf a) f = 0 := by
  cases h <;> rfl

theorem challenge_stepped {d : Deployment} {w w' : World} {a : Action} (h : w.step d a = some w') :
    ChallengeStepped d w a w' := by
  have hmanager := manager_stepped h
  have hquiet : ∀ f : List Frame, (∀ b, inFlight (Frame.challengeBondOf b) f = 0) → ∀ b,
      inFlight (Frame.challengeBondOf b) (f ++ w.frames) =
        inFlight (Frame.challengeBondOf b) w.frames := by
    intro f hf b
    rw [inFlight_append, hf, zero_add]
  cases stepped_of_step h with
  | tick block _ _ hle => exact .quiet rfl (fun _ => rfl) hmanager (fun _ _ _ _ => nofun)
  | forceManager amount hlt => exact .quiet rfl (fun _ => rfl) hmanager (fun _ _ _ _ => nofun)
  | forceChallenge amount hlt => exact .eth amount hlt rfl rfl rfl
  | forcePool amount _ => exact .quiet rfl (fun _ => rfl) hmanager (fun _ _ _ _ => nofun)
  | manager _ _ _ hrun =>
      exact .quiet rfl (hquiet _ (SubmissionManager.move_of_run hrun).challengeBondOf) hmanager
        (fun _ _ _ _ => nofun)
  | @challenge sender value ext c c' s f hsender hpay hlt hrun =>
      exact .call ⟨w.block, sender, value, ext⟩ c f rfl rfl hsender hpay hlt rfl hrun rfl rfl rfl
  | ledger _ hrun =>
      exact .quiet rfl (hquiet _ (LedgerCall.move_of_run hrun).challengeBondOf) hmanager
        (fun _ _ _ _ => nofun)
  | pool _ _ _ hrun =>
      exact .quiet rfl (hquiet _ (PoolCall.move_of_run hrun).challengeBondOf) hmanager
        (fun _ _ _ _ => nofun)
  | finishManager hf =>
      exact .quiet rfl (fun b => by rw [hf, inFlight_cons]; simp [Frame.challengeBondOf]) hmanager
        (fun _ _ _ _ => nofun)
  | finishChallenge hf => exact .finish _ _ hf rfl rfl
  | finishPayout hf _ =>
      exact .quiet rfl (fun b => by rw [hf, inFlight_cons]; simp [Frame.challengeBondOf]) hmanager
        (fun _ _ _ _ => nofun)

end P42Prizes
