import P42Prizes.ChallengeInstances
import P42Prizes.QuorumSafety

/-! # Slashing for equivocation

`proveEquivocation` slashes the decision bond pending on a dispute when a quorum of some epoch has
signed two decisions of the dispute that differ in content.  It does not ask which epoch posted the
bond: after a rotation the quorum that was dismissed can slash the bond of its successor
(`equivocators_slashed_stale`).  When the evidence of every slash is of the epoch that forwarded
the pending decision, only equivocators are slashed (`equivocators_slashed`).

Who has signed what is a parameter of the development: `signed a x` says that `a` signed the
decision `x`.  `Authentic` ties it to the chain: a signature from which `a` is recovered is a
signature by `a`. -/

namespace P42Prizes

open Reverting Function Transition Finset

/-! ### Decisions posted on a board -/

/-- The call posts the decision in the slot `z` of the submission. -/
def ChallengeCall.Posts (id : ℕ) (z : Slot) : ChallengeCall → Prop
  | .resolve id' hash wins transcriptHash uri verdictHash =>
      id = id' ∧ z.hash = hash ∧ z.challenge.challengerWins = wins ∧
        z.challenge.transcriptHash = transcriptHash ∧ z.challenge.transcriptURI = uri ∧
        z.challenge.verdictHash = verdictHash
  | .resolveFor id' hash wins transcriptHash uri verdictHash _ =>
      id = id' ∧ z.hash = hash ∧ z.challenge.challengerWins = wins ∧
        z.challenge.transcriptHash = transcriptHash ∧ z.challenge.transcriptURI = uri ∧
        z.challenge.verdictHash = verdictHash
  | _ => False

/-- What is pending in `z'` was pending in `z`. -/
def Slot.Older (z z' : Slot) : Prop :=
  z'.challenge.decisionPending = true → z'.challenge = z.challenge ∧ z'.hash = z.hash

theorem Slot.older_update (slots : ℕ → Slot) {id : ℕ} {z : Slot}
    (hz : z.challenge.decisionPending = false) (j : ℕ) :
    (slots j).Older (update slots id z j) := by
  intro hpending
  by_cases hj : j = id
  · subst hj
    rw [update_self, hz] at hpending
    cases hpending
  · rw [update_of_ne hj]
    exact ⟨rfl, rfl⟩

namespace ChallengeManager

variable {d : Deployment} {e : Env} {l : PayoutLedger} {p : BountyPool}
  {s s' : SubmissionManager} {c c' : ChallengeManager} {f : List Frame}

theorem closedSlot_pending (ch : Challenge) (wins : Bool) :
    (closedSlot ch wins).decisionPending = false := by
  cases wins <;> rfl

/-- Only `resolve` and `resolveFor` post a decision. -/
theorem Move.older {a : ChallengeCall} (h : Move d e s c a c' s' f) (ha : ¬ a.Decides) (j : ℕ) :
    (c.slot j).Older (c'.slot j) := by
  cases h with
  | administer => exact fun _ => ⟨rfl, rfl⟩
  | challenge =>
      rw [slot_note, slot_setChallenge, slot_setInstance, update_self, update_idem]
      exact Slot.older_update _ rfl j
  | decide _ _ _ _ _ _ _ _ _ hdecides => exact absurd hdecides ha
  | finalizeResolution =>
      rw [slot_note, slot_settleDispute]
      · exact Slot.older_update _ (closedSlot_pending _ _) j
      · rfl
  | expire =>
      rw [slot_note, slot_refundDispute]
      exact Slot.older_update _ rfl j
  | slash =>
      rw [slot_note, slot_settleDispute]
      · exact Slot.older_update _ rfl j
      · rfl
  | objective =>
      rw [slot_note, slot_settleDispute]
      · exact Slot.older_update _ (closedSlot_pending _ _) j
      · rfl
  | withdraw => exact fun _ => ⟨rfl, rfl⟩

theorem posts_of_resolveAs {id : ℕ} {hash transcriptHash verdictHash : Bytes32} {wins : Bool}
    {uri : Bytes} {beneficiary : Address}
    (h : c.resolveAs d e id hash wins transcriptHash uri verdictHash beneficiary s = .ok c') (j : ℕ) :
    (c.slot j).Older (c'.slot j) ∨
      (ChallengeCall.resolve id hash wins transcriptHash uri verdictHash).Posts j (c'.slot j) := by
  have hhash : c.challengeInstanceHashOf id = hash := by
    simp only [resolveAs, bind_eq_ok] at h
    obtain ⟨ch, hch, -⟩ := h
    exact (requireChallenge_eq_ok.mp hch).2.2.1
  obtain ⟨-, -, -, -, -, -, ch, bond, ev, rfl, -, -, -, -, rfl⟩ := resolveAs_ok h
  rw [slot_note, slot_setBond, slot_setChallenge, update_self, update_idem]
  by_cases hj : j = id
  · subst hj
    right
    rw [update_self]
    exact ⟨rfl, hhash, rfl, rfl, rfl, rfl⟩
  · left
    rw [update_of_ne hj]
    exact fun _ => ⟨rfl, rfl⟩

/-- A call posts a decision only as a call of the resolver. -/
theorem posts_of_run {a : ChallengeCall} (hsender : e.sender ≠ 0)
    (h : a.run d e l p s c = .ok (c', s', f)) (j : ℕ) :
    (c.slot j).Older (c'.slot j) ∨ e.sender = d.cm.resolver ∧ a.Posts j (c'.slot j) := by
  have hmove := move_of_run hsender h
  cases a with
  | resolve id hash wins transcriptHash uri verdictHash =>
      simp only [ChallengeCall.run, map_eq_ok, Prod.mk.injEq, resolve, bind_eq_ok,
        onlyResolver_eq_ok, Unique.exists_iff] at h
      obtain ⟨_, ⟨hresolver, hresolve⟩, rfl, -⟩ := h
      exact (posts_of_resolveAs hresolve j).imp_right (fun hposts => ⟨hresolver, hposts⟩)
  | resolveFor id hash wins transcriptHash uri verdictHash beneficiary =>
      simp only [ChallengeCall.run, map_eq_ok, Prod.mk.injEq, resolveFor, bind_eq_ok,
        onlyResolver_eq_ok, Unique.exists_iff] at h
      obtain ⟨_, ⟨hresolver, -, hresolve⟩, rfl, -, -⟩ := h
      exact (posts_of_resolveAs hresolve j).imp_right (fun hposts => ⟨hresolver, hposts⟩)
  | _ => exact Or.inl (hmove.older not_false j)

end ChallengeManager

/-- On a board whose resolver does not act, no decision is posted. -/
theorem older_of_step {d : Deployment} {w w' : World} {a : Action}
    (ha : ∀ sender value ext c, a = .call sender value ext c → sender ≠ d.cm.resolver)
    (h : w.step d a = some w') (j : ℕ) : (w.cm.slot j).Older (w'.cm.slot j) := by
  cases challenge_stepped h with
  | quiet hcm =>
      rw [hcm]
      exact fun _ => ⟨rfl, rfl⟩
  | eth amount _ hcm =>
      rw [hcm]
      exact fun _ => ⟨rfl, rfl⟩
  | finish claimant amount _ hcm =>
      rw [hcm]
      exact fun _ => ⟨rfl, rfl⟩
  | call e c f _ _ hsender _ _ hact hrun =>
      obtain holder | ⟨hresolver, -⟩ := ChallengeManager.posts_of_run hsender.ne.1 hrun j
      · exact holder
      · exact absurd hresolver (ha _ _ _ _ hact)

/-! ### Who signed what -/

namespace Decision

/-- The decision is about the dispute of this hash. -/
def Concerns (x : Decision) (m : Address) (id : ℕ) (hash : Bytes32) : Prop :=
  x.manager = m ∧ x.submissionId = id ∧ x.challengeInstanceHash = hash

/-- The decision agrees with `y` up to its nonce, its expiry and its epoch. -/
def SameContent (x y : Decision) : Prop :=
  x.chainId = y.chainId ∧ x.adapter = y.adapter ∧ x.manager = y.manager ∧
    x.submissionId = y.submissionId ∧ x.challengeInstanceHash = y.challengeInstanceHash ∧
    x.challengerWins = y.challengerWins ∧ x.transcriptHash = y.transcriptHash ∧
    x.transcriptURIHash = y.transcriptURIHash ∧ x.verdictHash = y.verdictHash ∧
    x.bondBeneficiary = y.bondBeneficiary

/-- The decision is the one pending in the dispute. -/
def Posted (Q : QuorumDeployment) (x : Decision) (ch : Challenge) : Prop :=
  ch.challengerWins = x.challengerWins ∧ ch.transcriptHash = x.transcriptHash ∧
    Q.crypto.keccak256 ch.transcriptURI = x.transcriptURIHash ∧ ch.verdictHash = x.verdictHash

end Decision

/-- The decisions of a call, each with the signatures given for it. -/
def QuorumCall.evidence : QuorumCall → List (Decision × List Bytes)
  | .resolve x _ signatures => [(x, signatures)]
  | .proveEquivocation x signatures₁ y signatures₂ => [(x, signatures₁), (y, signatures₂)]
  | _ => []

section signed

variable (signed : Address → Decision → Prop) (Q : QuorumDeployment)

/-- Who is recovered from the signature of the decision has signed it. -/
def Attests (x : Decision) (signature : Bytes) : Prop :=
  match Q.recover (Q.decisionDigest x) signature with
  | .ok a => signed a x
  | .error _ => True

instance [∀ a x, Decidable (signed a x)] (x : Decision) (signature : Bytes) :
    Decidable (Attests signed Q x signature) := by
  unfold Attests
  split <;> infer_instance

/-- The signatures of a call are by their signers. -/
def Authentic : QuorumAction → Prop
  | .call _ _ _ c => ∀ xs ∈ c.evidence, ∀ s ∈ xs.2, Attests signed Q xs.1 s
  | _ => True

instance [∀ a x, Decidable (signed a x)] (a : QuorumAction) : Decidable (Authentic signed Q a) := by
  unfold Authentic
  split <;> infer_instance

/-- A quorum of its epoch has signed the decision. -/
def Roster.QuorumSigned (r : Roster) (x : Decision) : Prop :=
  r.threshold x.signerEpoch ≠ 0 ∧ ∃ members : Finset Address,
    r.threshold x.signerEpoch ≤ (#members) ∧
      ∀ a ∈ members, r.isSigner x.signerEpoch a = true ∧ signed a x

/-- A quorum of the epoch has signed each of two decisions of the dispute that differ in content. -/
def Equivocated (r : Roster) (epoch : ℕ) (m : Address) (id : ℕ) (hash : Bytes32) : Prop :=
  ∃ x y : Decision, x.signerEpoch = epoch ∧ y.signerEpoch = epoch ∧ x.Concerns m id hash ∧
    y.Concerns m id hash ∧ ¬ x.SameContent y ∧ r.QuorumSigned signed x ∧ r.QuorumSigned signed y

/-- Whenever a bond was slashed for equivocation, the epoch that had forwarded the pending decision
has equivocated on the dispute. -/
def EquivocatorsSlashed (w : QuorumWorld) (k : List QuorumAct) : Prop :=
  ∀ k₁ k₂ x, k = k₂ ++ .slashed x :: k₁ →
    ∃ f ∈ forwardings k₁,
      f.decision.Concerns x.manager x.submissionId x.challengeInstanceHash ∧
      f.decision.Posted Q x.dispute ∧
      Equivocated signed w.quorum.roster f.epoch x.manager x.submissionId x.challengeInstanceHash

end signed

/-- The evidence of equivocation is of the epoch that forwarded the decision of the dispute. -/
def EvidenceFits (p : QuorumWorld × List QuorumAct) : QuorumAction → Prop
  | .call _ _ _ (.proveEquivocation x _ _ _) => ∀ f ∈ forwardings p.2,
      f.decision.manager = x.manager ∧ f.decision.challengeInstanceHash = x.challengeInstanceHash →
      f.decision.signerEpoch = x.signerEpoch
  | _ => True

instance (p : QuorumWorld × List QuorumAct) (a : QuorumAction) : Decidable (EvidenceFits p a) := by
  unfold EvidenceFits
  split <;> infer_instance

section signed

variable {signed : Address → Decision → Prop} {Q : QuorumDeployment} {r r' : Roster}

theorem Roster.QuorumSigned.extend {x : Decision} (h : r.QuorumSigned signed x)
    (hr : r.Extends r') (he : x.signerEpoch ≤ r.epoch) : r'.QuorumSigned signed x := by
  obtain ⟨hthreshold, members, hcard, hmem⟩ := h
  refine ⟨?_, members, ?_, ?_⟩
  · rw [hr.threshold _ he]
    exact hthreshold
  · rw [hr.threshold _ he]
    exact hcard
  · intro a ha
    rw [hr.isSigner _ he]
    exact hmem a ha

theorem Equivocated.extend {epoch : ℕ} {m : Address} {id : ℕ} {hash : Bytes32}
    (h : Equivocated signed r epoch m id hash) (hr : r.Extends r') (he : epoch ≤ r.epoch) :
    Equivocated signed r' epoch m id hash := by
  obtain ⟨x, y, hx, hy, hxc, hyc, hcontent, hxs, hys⟩ := h
  exact ⟨x, y, hx, hy, hxc, hyc, hcontent, hxs.extend hr (hx ▸ he), hys.extend hr (hy ▸ he)⟩

/-- Accepted signatures that are authentic are those of a quorum that has signed. -/
theorem quorumSigned_of_requireQuorum {q : ResolverQuorum} {x : Decision} {signatures : List Bytes}
    (h : q.requireQuorum Q x.signerEpoch (Q.decisionDigest x) signatures = .ok ())
    (hauthentic : ∀ s ∈ signatures, Attests signed Q x s) : q.roster.QuorumSigned signed x := by
  obtain ⟨hthreshold, members, hcard, hmem⟩ := ResolverQuorum.signed_of_requireQuorum h
  refine ⟨hthreshold, members, hcard, ?_⟩
  intro a ha
  obtain ⟨hsigner, s, hs, hrecover⟩ := hmem a ha
  have hattests := hauthentic s hs
  simp only [Attests, hrecover] at hattests
  exact ⟨hsigner, hattests⟩

theorem sameContent_hash {x y : Decision} (h : x.SameContent y) :
    Q.crypto.decisionContentHash x = Q.crypto.decisionContentHash y := by
  obtain ⟨h1, h2, h3, h4, h5, h6, h7, h8, h9, h10⟩ := h
  simp only [Crypto.decisionContentHash, h1, h2, h3, h4, h5, h6, h7, h8, h9, h10]

end signed

/-! ### Pending decisions are forwarded decisions -/

/-- Every pending decision of a board was forwarded by the quorum. -/
def PostingsTracked (Q : QuorumDeployment) (w : QuorumWorld) (k : List QuorumAct) : Prop :=
  ∀ m ∈ Q.managers, ∀ id, ((w.boards m).cm.slot id).challenge.decisionPending = true →
    ∃ f ∈ forwardings k, f.decision.Concerns m id ((w.boards m).cm.slot id).hash ∧
      f.decision.Posted Q ((w.boards m).cm.slot id).challenge

theorem Slot.Older.trans {z z' z'' : Slot} (h : z.Older z') (h' : z'.Older z'') : z.Older z'' := by
  intro hpending
  obtain ⟨hch, hhash⟩ := h' hpending
  rw [hch] at hpending
  obtain ⟨hch', hhash'⟩ := h hpending
  exact ⟨hch.trans hch', hhash.trans hhash'⟩

namespace PostingsTracked

variable {Q : QuorumDeployment} {e : Env} {w w' : QuorumWorld} {k k' : List QuorumAct}

theorem older (h : PostingsTracked Q w k) (hk : ∀ f ∈ forwardings k, f ∈ forwardings k')
    (hboards : ∀ m ∈ Q.managers, ∀ id,
      ((w.boards m).cm.slot id).Older ((w'.boards m).cm.slot id)) :
    PostingsTracked Q w' k' := by
  intro m hm id hpending
  obtain ⟨hch, hhash⟩ := hboards m hm id hpending
  rw [hch] at hpending
  obtain ⟨f, hf, hconcerns, hposted⟩ := h m hm id hpending
  rw [hch, hhash]
  exact ⟨f, hk f hf, hconcerns, hposted⟩

/-- One board moves on without a new decision. -/
theorem board (h : PostingsTracked Q w k) (hk : ∀ f ∈ forwardings k, f ∈ forwardings k')
    {m : Address} {b : World} {q : ResolverQuorum}
    (hb : ∀ id, ((w.boards m).cm.slot id).Older (b.cm.slot id)) :
    PostingsTracked Q { w with quorum := q, boards := update w.boards m b } k' := by
  refine h.older hk ?_
  intro m' _ id
  by_cases hm : m' = m
  · subst hm
    change ((w.boards m').cm.slot id).Older ((update w.boards m' b m').cm.slot id)
    rw [update_self]
    exact hb id
  · change ((w.boards m').cm.slot id).Older ((update w.boards m b m').cm.slot id)
    rw [update_of_ne hm]
    exact fun _ => ⟨rfl, rfl⟩

end PostingsTracked

namespace QuorumWorld

variable {Q : QuorumDeployment} {e : Env} {w w' : QuorumWorld} {m : Address} {value : ℕ}
  {c : ChallengeCall} {b : World}

theorem Called.run_eq (h : w.Called Q e m value c b) : ∃ cm s f,
    c.run (Q.board m) ⟨e.block, Q.adapter, value, { e.ext with accepts := true }⟩
      (w.boards m).ledger (w.boards m).pool (w.boards m).sm
      { (w.boards m).cm with balance := (w.boards m).cm.balance + value } = .ok (cm, s, f) ∧
    b = { w.boards m with cm := cm, sm := s, frames := f ++ (w.boards m).frames } := by
  simp only [Called, Call.run, receive, bind_eq_ok, checkedAdd_eq_ok, pure_eq_ok, and_assoc,
    exists_and_left, exists_eq_left', Prod.exists] at h
  obtain ⟨-, cm, s, f, hrun, rfl⟩ := h
  exact ⟨cm, s, f, hrun, rfl⟩

theorem Called.posts (h : w.Called Q e m value c b) (id : ℕ) :
    ((w.boards m).cm.slot id).Older (b.cm.slot id) ∨ c.Posts id (b.cm.slot id) := by
  obtain ⟨cm, s, f, hrun, rfl⟩ := h.run_eq
  exact (ChallengeManager.posts_of_run Q.adapter_ne_zero hrun id).imp_right And.right

/-- A slashed bond was pending on the dispute that the call names. -/
theorem Called.slashed {id : ℕ} {hash proofHash : Bytes32}
    (h : w.Called Q e m value (.slashResolverBond id hash proofHash) b) :
    ((w.boards m).cm.slot id).challenge.decisionPending = true ∧
      ((w.boards m).cm.slot id).hash = hash := by
  obtain ⟨cm, s, f, hrun, rfl⟩ := h.run_eq
  refine ⟨?_, (ChallengeManager.names_of_run hrun rfl).2⟩
  cases ChallengeManager.move_of_run Q.adapter_ne_zero hrun with
  | decide _ _ _ _ _ _ _ _ _ hdecides => exact hdecides.elim
  | slash _ hpending _ => exact hpending

end QuorumWorld

namespace PostingsTracked

variable {Q : QuorumDeployment} {e : Env} {w w' w₀ : QuorumWorld} {k : List QuorumAct}

/-- A call of the quorum posts the decision that it forwards, and no other. -/
theorem call (h : PostingsTracked Q w₀ k) {sender : Address} {value : ℕ} {ext : External}
    {c : QuorumCall} (hmove : w₀.Move Q e c w') :
    PostingsTracked Q w' (w.acts (.call sender value ext c) w' k) := by
  cases hmove with
  | rotate => exact h.older (fun _ hf => hf) (fun _ _ _ _ => ⟨rfl, rfl⟩)
  | pause => exact h.older (fun _ hf => hf) (fun _ _ _ _ => ⟨rfl, rfl⟩)
  | fund => exact h.older (fun _ hf => hf) (fun _ _ _ _ => ⟨rfl, rfl⟩)
  | @resolve x uri signatures q b _ huri _ _ _ hcalled _ =>
      intro m hm id hpending
      by_cases hx : m = x.manager
      · subst hx
        change ((update w₀.boards x.manager b x.manager).cm.slot id).challenge.decisionPending =
          true at hpending
        change ∃ f ∈ _, Decision.Concerns _ _ _
            ((update w₀.boards x.manager b x.manager).cm.slot id).hash ∧
          Decision.Posted Q _ ((update w₀.boards x.manager b x.manager).cm.slot id).challenge
        rw [update_self] at hpending ⊢
        obtain holder | ⟨rfl, hhash, hwins, htranscript, hURI, hverdict⟩ := hcalled.posts id
        · obtain ⟨hch, hhash⟩ := holder hpending
          rw [hch] at hpending
          obtain ⟨f, hf, hconcerns, hposted⟩ := h x.manager hm id hpending
          rw [hch, hhash]
          exact ⟨f, List.mem_cons_of_mem _ hf, hconcerns, hposted⟩
        · refine ⟨_, List.mem_cons_self .., ⟨rfl, rfl, hhash.symm⟩, hwins, htranscript, ?_, hverdict⟩
          rw [hURI]
          exact huri
      · change ((update w₀.boards x.manager b m).cm.slot id).challenge.decisionPending =
          true at hpending
        change ∃ f ∈ _, Decision.Concerns _ _ _ ((update w₀.boards x.manager b m).cm.slot id).hash ∧
          Decision.Posted Q _ ((update w₀.boards x.manager b m).cm.slot id).challenge
        rw [update_of_ne hx] at hpending ⊢
        obtain ⟨f, hf, hconcerns, hposted⟩ := h m hm id hpending
        exact ⟨f, List.mem_cons_of_mem _ hf, hconcerns, hposted⟩
  | reclaim _ hcalled hfinish _ =>
      refine h.board (fun _ hf => hf) ?_
      intro id
      obtain holder | hposts := hcalled.posts id
      · refine holder.trans (older_of_step ?_ hfinish id)
        intro _ _ _ _ hact
        cases hact
      · exact hposts.elim
  | equivocation _ _ _ _ _ _ _ _ _ hcalled _ =>
      refine h.board (fun _ hf => hf) ?_
      intro id
      exact (hcalled.posts id).resolve_right not_false
  | fraud _ _ _ _ _ hcalled _ =>
      refine h.board (fun _ hf => hf) ?_
      intro id
      exact (hcalled.posts id).resolve_right not_false

theorem step (h : PostingsTracked Q w k) {a : QuorumAction} (hs : w.step Q a = some w') :
    PostingsTracked Q w' (w.acts a w' k) := by
  cases a with
  | tick block =>
      simp only [QuorumWorld.step] at hs
      split at hs
      · cases hs
        exact h.older (fun _ hf => hf) (fun _ _ _ _ => ⟨rfl, rfl⟩)
      · cases hs
  | force amount =>
      obtain ⟨balance, -, rfl⟩ := Option.map_eq_some_iff.mp hs
      exact h.older (fun _ hf => hf) (fun _ _ _ _ => ⟨rfl, rfl⟩)
  | board m a =>
      simp only [QuorumWorld.step] at hs
      split at hs
      · rename_i hguard
        obtain ⟨b, hb, rfl⟩ := Option.map_eq_some_iff.mp hs
        refine h.board (fun _ hf => hf) (fun id => older_of_step ?_ hb id)
        rintro sender value ext c rfl
        rw [Q.board_resolver m hguard.1]
        exact hguard.2
      · cases hs
  | call sender value ext c =>
      obtain ⟨balance, hmove⟩ := QuorumWorld.move_of_step hs
      have h₀ : PostingsTracked Q (w.setQuorum { w.quorum with balance := balance }) k :=
        h.older (fun _ hf => hf) (fun _ _ _ _ => ⟨rfl, rfl⟩)
      exact h₀.call hmove

end PostingsTracked

/-- No decision is pending on a board when the quorum is deployed. -/
theorem QuorumDeployment.Deployed.postings {Q : QuorumDeployment} {block : Block} {m : Address}
    {b : World} (hm : m ∈ Q.managers) (h : Q.Deployed block m b) (id : ℕ) :
    (b.cm.slot id).challenge.decisionPending = false := by
  refine h.1.invariant (P := fun b => (b.cm.slot id).challenge.decisionPending = false) ?_ ?_
  · rintro b ⟨block, wiring, -, -, rfl⟩
    rfl
  · intro b a b' _ hb ha hs
    by_contra hpending
    rw [Bool.not_eq_false] at hpending
    have holder := older_of_step (j := id) (by rw [Q.board_resolver m hm]; exact ha) hs
    rw [(holder hpending).1, hb] at hpending
    cases hpending

theorem postingsTracked_of_reachable {Q : QuorumDeployment} {p : QuorumWorld × List QuorumAct}
    {C : QuorumWorld × List QuorumAct → QuorumAction → Prop} (h : Q.tracked.Reachable C p) :
    PostingsTracked Q p.1 p.2 := by
  refine h.invariant (P := fun p => PostingsTracked Q p.1 p.2) ?_ ?_
  · rintro ⟨w, k⟩ ⟨⟨hdeployed, -⟩, -⟩ m hm id hpending
    rw [(hdeployed m hm).postings hm id] at hpending
    cases hpending
  · rintro ⟨w, k⟩ a ⟨w', k'⟩ - htracked - hs
    obtain ⟨hs, hk⟩ := System.withHistory_step.mp hs
    change k' = w.acts a w' k at hk
    subst hk
    exact htracked.step hs

/-! ### Who is slashed -/

section signed

variable {signed : Address → Decision → Prop} {Q : QuorumDeployment} {w w' : QuorumWorld}
  {k : List QuorumAct}

theorem EquivocatorsSlashed.extend (h : EquivocatorsSlashed signed Q w k)
    (hk : ∀ f ∈ forwardings k, f.epoch ≤ w.quorum.signerEpoch)
    (hr : w.quorum.roster.Extends w'.quorum.roster) : EquivocatorsSlashed signed Q w' k := by
  rintro k₁ k₂ x rfl
  obtain ⟨f, hf, hconcerns, hposted, hequivocated⟩ := h k₁ k₂ x rfl
  refine ⟨f, hf, hconcerns, hposted, hequivocated.extend hr (hk f ?_)⟩
  rw [mem_forwardings] at hf ⊢
  exact List.mem_append_right _ (List.mem_cons_of_mem _ hf)

/-- An act that is not a slash. -/
theorem EquivocatorsSlashed.forwarded (h : EquivocatorsSlashed signed Q w k) (f : Forwarding) :
    EquivocatorsSlashed signed Q w (.forwarded f :: k) := by
  rintro k₁ k₂ x hsplit
  cases k₂ with
  | nil => cases hsplit
  | cons y k₂ => exact h k₁ k₂ x (List.cons.inj hsplit).2

theorem EquivocatorsSlashed.slash (h : EquivocatorsSlashed signed Q w k) {x : Slashing}
    (hx : ∃ f ∈ forwardings k,
      f.decision.Concerns x.manager x.submissionId x.challengeInstanceHash ∧
      f.decision.Posted Q x.dispute ∧
      Equivocated signed w.quorum.roster f.epoch x.manager x.submissionId x.challengeInstanceHash) :
    EquivocatorsSlashed signed Q w (.slashed x :: k) := by
  rintro k₁ k₂ y hsplit
  cases k₂ with
  | nil =>
      obtain ⟨hact, rfl⟩ := List.cons.inj hsplit
      cases hact
      exact hx
  | cons z k₂ => exact h k₁ k₂ y (List.cons.inj hsplit).2

/-- The step lemma: a slash whose evidence fits hits equivocators. -/
theorem EquivocatorsSlashed.step (h : EquivocatorsSlashed signed Q w k)
    (htracked : QuorumTracked Q w k) (hpostings : PostingsTracked Q w k) {a : QuorumAction}
    (hauthentic : Authentic signed Q a) (hfits : EvidenceFits (w, k) a)
    (hs : w.step Q a = some w') : EquivocatorsSlashed signed Q w' (w.acts a w' k) := by
  have hextends := (QuorumWorld.roster_step hs htracked.roster).2
  have hkept : EquivocatorsSlashed signed Q w' k := h.extend htracked.epochs hextends
  cases a with
  | tick => exact hkept
  | force => exact hkept
  | board => exact hkept
  | call sender value ext c =>
      cases c with
      | resolve => exact hkept.forwarded _
      | proveEquivocation x signatures₁ y signatures₂ =>
          refine hkept.slash ?_
          obtain ⟨balance, hmove⟩ := QuorumWorld.move_of_step hs
          cases hmove with
          | equivocation hbinding _ hm hid hhash hepoch hcontent hquorum₁ hquorum₂ hcalled hq =>
              have hmanager : x.manager ∈ Q.managers := by
                simp only [ResolverQuorum.requireDecisionBinding, bind_eq_ok, revertIf_eq_ok,
                  not_or, not_not] at hbinding
                exact hbinding.choose_spec.1.2.2.1
              obtain ⟨hpending, hslot⟩ := hcalled.slashed
              obtain ⟨f, hf, hconcerns, hposted⟩ :=
                hpostings x.manager hmanager x.submissionId hpending
              change f.decision.Concerns x.manager x.submissionId
                ((w.boards x.manager).cm.slot x.submissionId).hash at hconcerns
              rw [show ((w.boards x.manager).cm.slot x.submissionId).hash =
                x.challengeInstanceHash from hslot] at hconcerns
              have hfepoch : f.epoch = x.signerEpoch :=
                (htracked.laws.signed f hf).1.symm.trans (hfits f hf ⟨hconcerns.1, hconcerns.2.2⟩)
              refine ⟨f, hf, hconcerns, hposted, x, y, hfepoch.symm, hepoch.symm.trans hfepoch.symm,
                ⟨rfl, rfl, rfl⟩, ⟨hm.symm, hid.symm, hhash.symm⟩, fun hsame => hcontent
                  (sameContent_hash hsame), ?_, ?_⟩
              · have hx := quorumSigned_of_requireQuorum hquorum₁
                  (hauthentic (x, signatures₁) (List.mem_cons_self ..))
                exact hx.extend hextends (htracked.roster.epoch_le hx.1)
              · have hy := quorumSigned_of_requireQuorum hquorum₂
                  (hauthentic (y, signatures₂) (List.mem_cons_of_mem _ (List.mem_cons_self ..)))
                exact hy.extend hextends (htracked.roster.epoch_le hy.1)
      | _ => exact hkept

/-- **Equivocation.**  In a run whose evidence of equivocation is always of the epoch that forwarded
the decision of the dispute, only equivocators are slashed. -/
theorem equivocators_slashed {p : QuorumWorld × List QuorumAct}
    (h : Q.tracked.Reachable (fun p a => Authentic signed Q a ∧ EvidenceFits p a) p) :
    EquivocatorsSlashed signed Q p.1 p.2 := by
  refine h.invariant (P := fun p => EquivocatorsSlashed signed Q p.1 p.2) ?_ ?_
  · rintro ⟨w, k⟩ ⟨-, rfl⟩ k₁ k₂ x hsplit
    cases k₂ <;> cases hsplit
  · rintro ⟨w, k⟩ a ⟨w', k'⟩ hreach hslashed ⟨hauthentic, hfits⟩ hs
    obtain ⟨hs, hk⟩ := System.withHistory_step.mp hs
    change k' = w.acts a w' k at hk
    subst hk
    exact hslashed.step (quorumTracked_of_reachable hreach) (postingsTracked_of_reachable hreach)
      hauthentic hfits hs

end signed

namespace Sample

/-- What the signers of the sample runs have signed. -/
def signedDecisions (first second : List Decision) : List (Address × Decision) :=
  first.flatMap (fun x => firstSigners.map (fun a => (a, x))) ++
    second.flatMap (fun x => secondSigners.map (fun a => (a, x)))

def signedBy (first second : List Decision) (a : Address) (x : Decision) : Prop :=
  (a, x) ∈ signedDecisions first second

instance (first second : List Decision) (a : Address) (x : Decision) :
    Decidable (signedBy first second a x) :=
  inferInstanceAs (Decidable ((a, x) ∈ signedDecisions first second))

/-- After the second quorum has decided, the first, dismissed before, signs two decisions. -/
def lateEvidenceRun : List QuorumAction :=
  quorumRun ++ [.call sponsor 0 {} (.proveEquivocation
    (decision true 2 1) [quorumSignature 2, quorumSignature 3]
    (decision false 3 1) [quorumSignature 4, quorumSignature 5])]

abbrev staleSigned : Address → Decision → Prop :=
  signedBy [decision true 2 1, decision false 3 1] [decision true 1 2 one_fits epoch_fits]

/-- The second quorum signs two decisions. -/
def equivocatingRun : List QuorumAction :=
  quorumRun ++ [.call sponsor 0 {} (.proveEquivocation
    (decision true 1 2 one_fits epoch_fits) [quorumSignature 0, quorumSignature 1]
    (decision false 3 2 (by decide) epoch_fits) [quorumSignature 6, quorumSignature 7])]

abbrev equivocatingSigned : Address → Decision → Prop :=
  signedBy [] [decision true 1 2 one_fits epoch_fits, decision false 3 2 (by decide) epoch_fits]

/-- The epoch of a decision that was forwarded, and `none` for a slash. -/
def actEpoch : QuorumAct → Option ℕ
  | .forwarded f => some f.epoch
  | .slashed _ => none

end Sample

/-- A dismissed quorum slashes the bond of its successor, which has signed one decision only. -/
theorem equivocators_slashed_stale : ∃ p,
    Sample.quorum.tracked.Reachable (fun _ a => Authentic Sample.staleSigned Sample.quorum a) p ∧
    ¬ EquivocatorsSlashed Sample.staleSigned Sample.quorum p.1 p.2 := by
  have hrun : (Sample.quorum.tracked.execIf
      (fun _ a => Authentic Sample.staleSigned Sample.quorum a) (Sample.quorumGenesis, [])
      Sample.lateEvidenceRun).map (fun p => p.2.map Sample.actEpoch) = some [none, some 2] := by
    decide +kernel
  obtain ⟨p, hp, hacts⟩ := Option.map_eq_some_iff.mp hrun
  refine ⟨p, .of_execIf ⟨Sample.quorumGenesis_init, rfl⟩ hp, ?_⟩
  intro hslashed
  obtain ⟨act, k₁, hk, hslash, hrest⟩ := List.map_eq_cons_iff.mp hacts
  obtain ⟨act', k₂, rfl, hforward, hnil⟩ := List.map_eq_cons_iff.mp hrest
  obtain rfl := List.map_eq_nil_iff.mp hnil
  cases act with
  | forwarded => cases hslash
  | slashed z =>
      cases act' with
      | slashed => cases hforward
      | forwarded f =>
          obtain ⟨f', hf', -, -, x, y, hx, hy, -, -, hcontent, hxs, hys⟩ :=
            hslashed [.forwarded f] [] z hk
          obtain rfl : f' = f := by simpa using hf'
          have hepoch : f'.epoch = 2 := Option.some.inj hforward
          -- the second quorum has signed one decision
          have hone : ∀ e ∈ Sample.signedDecisions
              [Sample.decision true 2 1, Sample.decision false 3 1] [Sample.decision true 1 2],
              e.2.signerEpoch = 2 → e.2 = Sample.decision true 1 2 := by decide
          have honly : ∀ x : Decision, x.signerEpoch = f'.epoch →
              p.1.quorum.roster.QuorumSigned Sample.staleSigned x →
              x = Sample.decision true 1 2 := by
            rintro x hx ⟨hthreshold, members, hcard, hmem⟩
            obtain ⟨a, ha⟩ : members.Nonempty := by
              rw [← card_pos]
              omega
            exact hone (a, x) (hmem a ha).2 (hx.trans hepoch)
          rw [honly x hx hxs, honly y hy hys] at hcontent
          exact hcontent ⟨rfl, rfl, rfl, rfl, rfl, rfl, rfl, rfl, rfl, rfl⟩

theorem equivocators_slashed_sample : ∃ p,
    Sample.quorum.tracked.Reachable
      (fun p a => Authentic Sample.equivocatingSigned Sample.quorum a ∧ EvidenceFits p a) p ∧
    p.2.map Sample.actEpoch = [none, some 2] ∧
    EquivocatorsSlashed Sample.equivocatingSigned Sample.quorum p.1 p.2 := by
  have hrun : (Sample.quorum.tracked.execIf
      (fun p a => Authentic Sample.equivocatingSigned Sample.quorum a ∧ EvidenceFits p a)
      (Sample.quorumGenesis, []) Sample.equivocatingRun).map (fun p => p.2.map Sample.actEpoch) =
      some [none, some 2] := by
    decide +kernel
  obtain ⟨p, hp, hacts⟩ := Option.map_eq_some_iff.mp hrun
  have hreach : Sample.quorum.tracked.Reachable
      (fun p a => Authentic Sample.equivocatingSigned Sample.quorum a ∧ EvidenceFits p a) p :=
    .of_execIf ⟨Sample.quorumGenesis_init, rfl⟩ hp
  exact ⟨p, hreach, hacts, equivocators_slashed hreach⟩

end P42Prizes
