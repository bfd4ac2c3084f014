import P42Prizes.Register

/-! # The funding authorization

`authorizeFunding` and `cancelFundingAuthorization` spend the nonces of the submission manager one
by one, so the authorizations a board ever accepts carry different nonces, and a triple of
signatures that is sound for one nonce is accepted once (`FundingLaws.once`).  `armFunding` needs
the latest authorization to be in force, and nothing about the authorization changes after it.

The history of a run is the list of its accepted calls about the authorization (`FundingAct`),
newest first. -/

namespace P42Prizes

open Reverting Function Transition

namespace SubmissionManager

variable {d : Deployment} {e : Env} {l l' : PayoutLedger} {p : BountyPool}
  {s s' : SubmissionManager} {c : ManagerCall} {f : List Frame}

@[simp] theorem payBond_funding (id : ℕ) (a : Address) :
    (s.payBond id a).toFundingState = s.toFundingState := rfl

@[simp] theorem note_funding (evs : List ManagerEvent) :
    (s.note evs).toFundingState = s.toFundingState := rfl

@[simp] theorem supersede_funding (id priorityId : ℕ) :
    (s.supersede id priorityId).toFundingState = s.toFundingState := by
  unfold supersede
  split
  · rfl
  · rfl

theorem takePriority_funding (id : ℕ) (h : Bytes32) :
    (s.takePriority id h).toFundingState = s.toFundingState := by
  unfold takePriority
  dsimp only
  split
  · rfl
  · rw [supersede_funding]
    rfl

/-- Only the calls about it change the funding authorization. -/
theorem Move.funding (h : Move d e l p s c s' l' f) (hc : ¬ c.IsFunding) :
    s'.toFundingState = s.toFundingState := by
  cases h with
  | administer _ hadmin =>
      have hmove := hadmin.funding
      generalize s'.toFundingState = q' at hmove
      cases hmove with
      | keep => rfl
      | _ => exact absurd trivial hc
  | reveal _ _ _ _ _ _ _ _ _ _ _ hrec =>
      subst hrec
      split
      · exact takePriority_funding ..
      · rfl
  | finalize =>
      unfold finalized
      dsimp only
      split
      · rfl
      · rfl
  | _ => rfl

theorem funding_of_run (h : c.run d e l p s = .ok (s', l', f)) :
    FundingMove d e s.toFundingState c s'.toFundingState := by
  by_cases hc : c.IsFunding
  · cases c with
    | authorizeFunding digest expiresAt nonce signatures =>
        simp only [ManagerCall.run, map_eq_ok, Prod.mk.injEq] at h
        obtain ⟨_, h, rfl, -⟩ := h
        exact (authorizeFunding_ok h).funding
    | cancelFundingAuthorization digest =>
        simp only [ManagerCall.run, map_eq_ok, Prod.mk.injEq] at h
        obtain ⟨_, h, rfl, -⟩ := h
        exact (cancelFundingAuthorization_ok h).funding
    | armFunding digest =>
        simp only [ManagerCall.run, map_eq_ok, Prod.mk.injEq] at h
        obtain ⟨_, h, rfl, -⟩ := h
        exact (armFunding_ok h).funding
    | _ => exact hc.elim
  · rw [(move_of_run h).funding hc]
    exact .keep hc

end SubmissionManager

/-! ### The history of the authorization -/

/-- An authorization that `authorizeFunding` accepted. -/
structure Authorization where
  digest : Bytes32
  expiresAt : ℕ
  nonce : ℕ
  signatures : Bytes × Bytes × Bytes

inductive FundingAct where
  | authorized (x : Authorization)
  | cancelled (digest : Bytes32)
  | armed (digest : Bytes32) (armedAt : ℕ)

/-- What the three authorities sign for the authorization. -/
def Authorization.messages (d : Deployment) (x : Authorization) :
    List (Address × FundingAuthorization) :=
  [(d.sm.productionLaunchAuthority,
      ⟨d.crypto.productionLaunchAuthorityRole, x.digest, x.expiresAt, x.nonce⟩),
    (d.sm.independentSecurityAuthority,
      ⟨d.crypto.independentSecurityAuthorityRole, x.digest, x.expiresAt, x.nonce⟩),
    (d.sm.governanceAuthority,
      ⟨d.crypto.governanceAuthorityRole, x.digest, x.expiresAt, x.nonce⟩)]

def Authorization.Signed (d : Deployment) (x : Authorization) : Prop :=
  SubmissionManager.AuthoritiesSigned d x.digest x.expiresAt x.nonce x.signatures

/-- The accepted authorizations, newest first. -/
def authorizations (k : List FundingAct) : List Authorization :=
  k.filterMap (fun
    | .authorized x => some x
    | _ => none)

/-- The accepted calls about the funding authorization, newest first. -/
def World.fundingActs (w : World) (a : Action) (_ : World) (k : List FundingAct) :
    List FundingAct :=
  match a with
  | .call _ _ _ (.manager (.authorizeFunding digest expiresAt nonce signatures)) =>
      .authorized ⟨digest, expiresAt, nonce, signatures⟩ :: k
  | .call _ _ _ (.manager (.cancelFundingAuthorization digest)) => .cancelled digest :: k
  | .call _ _ _ (.manager (.armFunding digest)) => .armed digest w.block.timestamp :: k
  | _ => k

/-- The board together with its funding acts. -/
def Deployment.authorizing (d : Deployment) : System (World × List FundingAct) Action :=
  d.protocol.withHistory [] World.fundingActs

/-- The step asks to accept or to cancel an authorization. -/
def Action.SpendsNonce : Action → Prop
  | .call _ _ _ (.manager (.authorizeFunding ..)) => True
  | .call _ _ _ (.manager (.cancelFundingAuthorization _)) => True
  | _ => False

/-- Signature recovery is sound on the messages of these authorizations: a signature of an
authority is for one digest only, and different messages have different digests. -/
structure SoundSignatures (d : Deployment) (k : List Authorization) : Prop where
  recovery : ∀ m ∈ k.flatMap (Authorization.messages d), ∀ n ∈ k.flatMap (Authorization.messages d),
    m.1 = n.1 → ∀ signature, SubmissionManager.FundingSigned d m.1 m.2 signature →
      SubmissionManager.FundingSigned d n.1 n.2 signature →
      d.fundingDigest m.2 = d.fundingDigest n.2
  injective : ∀ m ∈ k.flatMap (Authorization.messages d), ∀ n ∈ k.flatMap (Authorization.messages d),
    d.fundingDigest m.2 = d.fundingDigest n.2 → m.2 = n.2

/-- Funding was armed by the last act of the history, with the authorization accepted just
before. -/
structure ArmedBy (d : Deployment) (q : FundingState) (k : List FundingAct) (x : Authorization)
    (older : List FundingAct) : Prop where
  acts : k = .armed x.digest q.armedAt :: .authorized x :: older
  first : ∀ digest t, .armed digest t ∉ older
  signed : x.Signed d
  notBefore : d.sm.armNotBefore ≤ q.armedAt
  inForce : q.armedAt ≤ x.expiresAt
  digest : q.fundingAuthorizationDigest = x.digest ∧ q.authorizedFundingDigest = x.digest
  expiresAt : q.fundingAuthorizationExpiresAt = x.expiresAt

structure FundingLaws (d : Deployment) (w : World) (k : List FundingAct) : Prop where
  increases : ∀ a w', w.step d a = some w' →
    w.sm.fundingAuthorizationNonce ≤ w'.sm.fundingAuthorizationNonce ∧
      (a.SpendsNonce → w.sm.fundingAuthorizationNonce < w'.sm.fundingAuthorizationNonce)
  nonces : (authorizations k).Pairwise (fun x y => y.nonce < x.nonce)
  signed : ∀ x ∈ authorizations k, x.Signed d
  once : SoundSignatures d (authorizations k) →
    (authorizations k).Pairwise (fun x y => x.signatures ≠ y.signatures)
  unarmed : w.sm.fundingArmed = false → ∀ digest t, .armed digest t ∉ k
  armed : w.sm.fundingArmed = true → ∃ x older, ArmedBy d w.sm.toFundingState k x older
  final : w.sm.fundingArmed = true → ∀ as w', d.protocol.Run Free w as w' →
    w'.sm.toFundingState = w.sm.toFundingState

/-! ### One step -/

/-- What a step of the board means for the funding authorization. -/
inductive FundingStepped (d : Deployment) (w : World) (a : Action) (w' : World) : Prop
  | quiet : w'.sm.toFundingState = w.sm.toFundingState → ¬ a.SpendsNonce →
      (∀ k, w.fundingActs a w' k = k) → FundingStepped d w a w'
  | call (e : Env) (c : ManagerCall) : e.block = w.block →
      a = .call e.sender e.value e.ext (.manager c) → c.IsFunding →
      SubmissionManager.FundingMove d e w.sm.toFundingState c w'.sm.toFundingState →
      FundingStepped d w a w'

theorem funding_stepped {d : Deployment} {w w' : World} {a : Action} (h : w.step d a = some w') :
    FundingStepped d w a w' := by
  cases stepped_of_step h with
  | @manager sender value ext c s l f _ _ _ hrun =>
      have hmove := SubmissionManager.funding_of_run hrun
      by_cases hc : c.IsFunding
      · exact .call ⟨w.block, sender, value, ext⟩ c rfl rfl hc hmove
      · have hsame := (SubmissionManager.move_of_run hrun).funding hc
        cases c with
        | authorizeFunding => exact absurd trivial hc
        | cancelFundingAuthorization => exact absurd trivial hc
        | armFunding => exact absurd trivial hc
        | _ => exact .quiet hsame not_false (fun _ => rfl)
  | @challenge sender value ext c c' s f hsender _ _ hrun =>
      refine .quiet ?_ not_false (fun _ => rfl)
      obtain rfl | ⟨hook, hhook, his⟩ :=
        (ChallengeManager.move_of_run hsender.ne.1 hrun).hook w.ledger w.pool
      · rfl
      · refine (SubmissionManager.move_of_run hhook).funding ?_
        intro hc
        cases his <;> exact hc
  | _ => exact .quiet rfl not_false (fun _ => rfl)

/-! ### The laws along a run -/

/-- Without arming, an authorization in force is the latest act. -/
structure Pending (q : FundingState) (k : List FundingAct) : Prop where
  unarmed : ∀ digest t, .armed digest t ∉ k
  latest : q.authorizedFundingDigest ≠ 0 → ∃ x older, k = .authorized x :: older ∧
    q.authorizedFundingDigest = x.digest ∧ q.fundingAuthorizationExpiresAt = x.expiresAt

structure FundingTracked (d : Deployment) (q : FundingState) (k : List FundingAct) : Prop where
  spent : ∀ x ∈ authorizations k, x.nonce < q.fundingAuthorizationNonce
  nonces : (authorizations k).Pairwise (fun x y => y.nonce < x.nonce)
  signed : ∀ x ∈ authorizations k, x.Signed d
  stage : if q.fundingArmed then ∃ x older, ArmedBy d q k x older else Pending q k

@[simp] theorem authorizations_authorized (x : Authorization) (k : List FundingAct) :
    authorizations (.authorized x :: k) = x :: authorizations k := rfl

@[simp] theorem authorizations_cancelled (digest : Bytes32) (k : List FundingAct) :
    authorizations (.cancelled digest :: k) = authorizations k := rfl

@[simp] theorem authorizations_armed (digest : Bytes32) (t : ℕ) (k : List FundingAct) :
    authorizations (.armed digest t :: k) = authorizations k := rfl

namespace FundingTracked

variable {d : Deployment} {e : Env} {q : FundingState} {k : List FundingAct}

theorem pending (h : FundingTracked d q k) (harmed : q.fundingArmed = false) : Pending q k := by
  have hstage := h.stage
  rw [harmed] at hstage
  exact hstage

theorem authorize {digest : Bytes32} {expiresAt : ℕ} {signatures : Bytes × Bytes × Bytes}
    (h : FundingTracked d q k) (harmed : q.fundingArmed = false)
    (hsigned : SubmissionManager.AuthoritiesSigned d digest expiresAt q.fundingAuthorizationNonce
      signatures) :
    FundingTracked d
      { q with
        fundingAuthorizationNonce := q.fundingAuthorizationNonce + 1
        authorizedFundingDigest := digest
        fundingAuthorizationExpiresAt := expiresAt }
      (.authorized ⟨digest, expiresAt, q.fundingAuthorizationNonce, signatures⟩ :: k) where
  spent x hx := by
    rw [authorizations_authorized, List.mem_cons] at hx
    obtain rfl | hx := hx
    · exact Nat.lt_succ_self _
    · exact Nat.lt_succ_of_lt (h.spent x hx)
  nonces := by
    rw [authorizations_authorized, List.pairwise_cons]
    exact ⟨h.spent, h.nonces⟩
  signed x hx := by
    rw [authorizations_authorized, List.mem_cons] at hx
    obtain rfl | hx := hx
    · exact hsigned
    · exact h.signed x hx
  stage := by
    rw [if_neg (by simp only [harmed, Bool.false_eq_true, not_false_eq_true])]
    refine ⟨fun g t hmem => ?_, fun _ => ⟨_, k, rfl, rfl, rfl⟩⟩
    obtain hmem | hmem := List.mem_cons.mp hmem
    · cases hmem
    · exact (h.pending harmed).unarmed g t hmem

theorem cancel {digest : Bytes32} (h : FundingTracked d q k) (harmed : q.fundingArmed = false) :
    FundingTracked d
      { q with
        authorizedFundingDigest := 0
        fundingAuthorizationExpiresAt := 0
        fundingAuthorizationNonce := q.fundingAuthorizationNonce + 1 }
      (.cancelled digest :: k) where
  spent x hx := Nat.lt_succ_of_lt (h.spent x hx)
  nonces := h.nonces
  signed := h.signed
  stage := by
    rw [if_neg (by simp only [harmed, Bool.false_eq_true, not_false_eq_true])]
    refine ⟨fun g t hmem => ?_, fun hne => absurd rfl hne⟩
    obtain hmem | hmem := List.mem_cons.mp hmem
    · cases hmem
    · exact (h.pending harmed).unarmed g t hmem

theorem arm (h : FundingTracked d q k) (harmed : q.fundingArmed = false)
    (hzero : q.authorizedFundingDigest ≠ 0) (hexpires : e.now ≤ q.fundingAuthorizationExpiresAt)
    (hwindow : d.sm.armNotBefore ≤ e.now) :
    FundingTracked d
      { q with
        fundingArmed := true
        armedAt := e.now
        fundingAuthorizationDigest := q.authorizedFundingDigest }
      (.armed q.authorizedFundingDigest e.now :: k) where
  spent := h.spent
  nonces := h.nonces
  signed := h.signed
  stage := by
    have hpending := h.pending harmed
    obtain ⟨x, older, hk, hdigest, hexp⟩ := hpending.latest hzero
    rw [if_pos rfl]
    refine ⟨x, older, ?_, ?_, ?_, hwindow, ?_, ⟨hdigest, hdigest⟩, hexp⟩
    · rw [hk, hdigest]
    · intro g t hmem
      exact hpending.unarmed g t (by rw [hk]; exact List.mem_cons_of_mem _ hmem)
    · exact h.signed x (by rw [hk]; exact List.mem_cons_self ..)
    · exact hexpires.trans_eq hexp

theorem step {w w' : World} {a : Action} (h : FundingTracked d w.sm.toFundingState k)
    (hstep : w.step d a = some w') :
    FundingTracked d w'.sm.toFundingState (w.fundingActs a w' k) := by
  cases funding_stepped hstep with
  | quiet hsame _ hk =>
      rw [hsame, hk]
      exact h
  | call e c hblock ha _ hmove =>
      have hnow : w.block.timestamp = e.now := by rw [← hblock]
      generalize w'.sm.toFundingState = q' at hmove
      subst ha
      cases hmove with
      | keep hc => exact absurd ‹_› hc
      | authorize _ harmed _ _ hsigned => exact h.authorize harmed hsigned
      | cancel harmed _ _ => exact h.cancel harmed
      | arm harmed hzero hexpires hwindow =>
          simp only [World.fundingActs, hnow]
          exact h.arm harmed hzero hexpires hwindow

theorem genesis {w : World} (h : d.protocol.init w) : FundingTracked d w.sm.toFundingState [] := by
  obtain ⟨block, wiring, -, -, rfl⟩ := h
  exact ⟨nofun, List.Pairwise.nil, nofun, ⟨nofun, fun hne => absurd rfl hne⟩⟩

end FundingTracked

theorem fundingTracked_of_reachable {d : Deployment} {p : World × List FundingAct}
    (h : d.authorizing.Reachable Free p) : FundingTracked d p.1.sm.toFundingState p.2 := by
  refine h.invariant (P := fun p => FundingTracked d p.1.sm.toFundingState p.2)
    (fun p hinit => ?_) (fun p a p' _ htracked _ hstep => ?_)
  · rw [hinit.2]
    exact FundingTracked.genesis hinit.1
  · obtain ⟨hw, hk⟩ := System.withHistory_step.mp hstep
    rw [hk]
    exact htracked.step hw

/-- An accepted authorization or cancellation raises the nonce, and nothing lowers it. -/
theorem nonce_step {d : Deployment} {w w' : World} {a : Action} (h : w.step d a = some w') :
    w.sm.fundingAuthorizationNonce ≤ w'.sm.fundingAuthorizationNonce ∧
      (a.SpendsNonce → w.sm.fundingAuthorizationNonce < w'.sm.fundingAuthorizationNonce) := by
  cases funding_stepped h with
  | quiet hsame hspends _ =>
      have hnonce := congrArg FundingState.fundingAuthorizationNonce hsame
      exact ⟨hnonce.ge, fun hs => absurd hs hspends⟩
  | call e c _ ha _ hmove =>
      generalize w'.sm.toFundingState = q' at hmove
      subst ha
      cases hmove with
      | keep hc => exact absurd ‹_› hc
      | authorize => exact ⟨Nat.le_succ _, fun _ => Nat.lt_succ_self _⟩
      | cancel => exact ⟨Nat.le_succ _, fun _ => Nat.lt_succ_self _⟩
      | arm => exact ⟨le_rfl, False.elim⟩

/-- Once funding is armed, the authorization stays as it is. -/
theorem funding_step_of_armed {d : Deployment} {w w' : World} {a : Action}
    (h : w.step d a = some w') (harmed : w.sm.fundingArmed = true) :
    w'.sm.toFundingState = w.sm.toFundingState := by
  cases funding_stepped h with
  | quiet hsame => exact hsame
  | call e c _ _ _ hmove =>
      generalize w'.sm.toFundingState = q' at hmove
      have hne : ¬ w.sm.toFundingState.fundingArmed = false := by
        rw [harmed]
        decide
      cases hmove with
      | keep => rfl
      | authorize _ hunarmed => exact absurd hunarmed hne
      | cancel hunarmed => exact absurd hunarmed hne
      | arm hunarmed => exact absurd hunarmed hne

theorem funding_run_of_armed {d : Deployment} {w w' : World} {as : List Action}
    {C : World → Action → Prop} (h : d.protocol.Run C w as w') (harmed : w.sm.fundingArmed = true) :
    w'.sm.toFundingState = w.sm.toFundingState := by
  refine h.invariant (P := fun v => v.sm.toFundingState = w.sm.toFundingState)
    (fun v a v' hv _ hstep => ?_) rfl
  have hvarmed : v.sm.fundingArmed = true :=
    (congrArg FundingState.fundingArmed hv).trans harmed
  exact (funding_step_of_armed hstep hvarmed).trans hv

/-- Sound signatures are for one nonce only. -/
theorem signatures_ne {d : Deployment} {k : List Authorization} (h : SoundSignatures d k)
    {x y : Authorization} (hx : x ∈ k) (hy : y ∈ k) (hxs : x.Signed d) (hys : y.Signed d)
    (hne : y.nonce ≠ x.nonce) : x.signatures ≠ y.signatures := by
  intro heq
  have hmem : ∀ z ∈ k, (d.sm.productionLaunchAuthority, (⟨d.crypto.productionLaunchAuthorityRole,
      z.digest, z.expiresAt, z.nonce⟩ : FundingAuthorization)) ∈
        k.flatMap (Authorization.messages d) :=
    fun z hz => List.mem_flatMap.mpr ⟨z, hz, List.mem_cons_self ..⟩
  have hsigned := hys.productionLaunch
  rw [← heq] at hsigned
  have hdigest := h.recovery _ (hmem x hx) _ (hmem y hy) rfl _ hxs.productionLaunch hsigned
  have hmessage := h.injective _ (hmem x hx) _ (hmem y hy) hdigest
  exact hne (congrArg FundingAuthorization.nonce hmessage).symm

/-- **Funding authorization.**  Along every run the nonce never falls and every accepted
authorization or cancellation raises it, the accepted authorizations carry the signatures of the
three authorities over their nonce and no triple of signatures is accepted twice; funding is armed
at most once, after the open-witness window, with the authorization accepted last, uncancelled and
in force, and nothing about it changes afterwards. -/
theorem fundingLaws_of_reachable {d : Deployment} {p : World × List FundingAct}
    (h : d.authorizing.Reachable Free p) : FundingLaws d p.1 p.2 := by
  have htracked := fundingTracked_of_reachable h
  refine ⟨fun a w' hstep => nonce_step hstep, htracked.nonces, htracked.signed, ?_, ?_, ?_, ?_⟩
  · intro hsound
    refine htracked.nonces.imp_of_mem (fun {x y} hx hy hlt => ?_)
    exact signatures_ne hsound hx hy (htracked.signed x hx) (htracked.signed y hy) hlt.ne
  · intro harmed
    exact (htracked.pending harmed).unarmed
  · intro harmed
    have hstage := htracked.stage
    rw [if_pos harmed] at hstage
    exact hstage
  · intro harmed as w' hrun
    exact funding_run_of_armed hrun harmed

/-! ### A replaced authorization -/

namespace Sample

/-- The treasury's authorization is cancelled by the owner and given again, with the next nonce and
new signatures, and funding is armed with it. -/
def replacingRun : List Action :=
  [authorize, byOwner (.cancelFundingAuthorization 0xad),
    .call treasury 0 live (.manager (.authorizeFunding 0xad (start + 2 * window) 2
      (signature 3, signature 4, signature 5))),
    .tick (blockAt window 2 window_fits), .call owner 0 live (.manager (.armFunding 0xad))]

/-- A signature in the table recovers to its signer for one digest. -/
theorem ecrecover_unique {g g' r s : Bytes32} {v : ℕ} {a : Address} (ha : a ≠ 0)
    (h : crypto.ecrecover g v r s = a) (h' : crypto.ecrecover g' v r s = a) : g = g' := by
  have hmem : ∀ g, crypto.ecrecover g v r s = a → (g, v, r, s) ∈ signers.map Prod.fst := by
    intro g hg
    simp only [crypto] at hg
    cases hlookup : signers.lookup (g, v, r, s) with
    | none =>
        rw [hlookup] at hg
        exact absurd hg.symm ha
    | some b =>
        obtain ⟨before, after, hsplit, -⟩ := List.lookup_eq_some_iff.mp hlookup
        rw [hsplit]
        simp
  have hkeys : ∀ p ∈ signers.map Prod.fst, ∀ q ∈ signers.map Prod.fst, p.2 = q.2 → p.1 = q.1 := by
    decide
  exact hkeys _ (hmem g h) _ (hmem g' h') rfl

end Sample

theorem SubmissionManager.FundingSigned.recovers {d : Deployment} {authority : Address}
    {a : FundingAuthorization} {signature : Bytes} (h : FundingSigned d authority a signature) :
    d.crypto.ecrecover (d.fundingDigest a) (signature.getD 64 0).toNat
      (wordOfBytes (signature.take 32)) (wordOfBytes ((signature.drop 32).take 32)) = authority := by
  simp only [FundingSigned, requireFundingSignature, bind_eq_ok, revertIf_eq_ok, Unique.exists_iff,
    not_not, ne_eq] at h
  exact h.2.2

theorem fundingLaws_sample : ∃ p, Sample.board.authorizing.Reachable Free p ∧
    FundingLaws Sample.board p.1 p.2 ∧ p.1.sm.fundingArmed = true ∧
    (authorizations p.2).map Authorization.nonce = [2, 0] ∧
    SoundSignatures Sample.board (authorizations p.2) := by
  have hrun : (Sample.board.authorizing.exec (Sample.genesis, []) Sample.replacingRun).map
      (fun p => (p.1.sm.fundingArmed, (authorizations p.2).map Authorization.nonce,
        (authorizations p.2).flatMap (Authorization.messages Sample.board))) =
      some (true, [2, 0], [2, 0].flatMap (fun nonce => Authorization.messages Sample.board
        ⟨0xad, Sample.start + 2 * Sample.window, nonce, [], [], []⟩)) := by
    decide +kernel
  obtain ⟨p, hp, heq⟩ := Option.map_eq_some_iff.mp hrun
  simp only [Prod.mk.injEq] at heq
  obtain ⟨harmed, hnonces, hmessages⟩ := heq
  have hreach : Sample.board.authorizing.Reachable Free p :=
    System.Reachable.of_exec ⟨Sample.genesis_init.1, rfl⟩ hp
  refine ⟨p, hreach, fundingLaws_of_reachable hreach, harmed, hnonces, ?_, ?_⟩
  · rw [hmessages]
    intro m hm n _ hauthority signature hsigned hsigned'
    have hne : m.1 ≠ 0 := by
      clear hsigned hauthority
      revert m
      decide +kernel
    exact Sample.ecrecover_unique hne hsigned.recovers (hsigned'.recovers.trans hauthority.symm)
  · rw [hmessages]
    decide +kernel

end P42Prizes
