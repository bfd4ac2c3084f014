import P42Prizes.FreshWindow
import P42Prizes.QuorumMoves

/-! # Quorums that decide

A quorum of an epoch is a set of its signers of at least the threshold of the epoch; two of them
share a signer.  The signers of an epoch never change once they are installed, so what was signed
in an epoch can be told at any later time (`Roster.Extends`).

`QuorumDeployment.tracked` runs the quorum with the history of the decisions it forwarded and of
the bonds it slashed for equivocation; `quorumLaws_of_reachable` says what the history has to do
with the signers. -/

namespace P42Prizes

open Reverting Function Transition Finset

/-! ### The signers of the epochs -/

structure Roster where
  epoch : ℕ
  isSigner : ℕ → Address → Bool
  signers : ℕ → List Address
  threshold : ℕ → ℕ

def ResolverQuorum.roster (q : ResolverQuorum) : Roster :=
  ⟨q.signerEpoch, q.isEpochSigner, q.epochSigners, q.epochThreshold⟩

namespace Roster

/-- No address is listed twice in an epoch, more than half of its signers make its threshold, and
the epochs to come have no signers. -/
structure Sound (r : Roster) : Prop where
  member : ∀ epoch a, r.isSigner epoch a = true ↔ a ∈ r.signers epoch
  nodup : ∀ epoch, (r.signers epoch).Nodup
  majority : ∀ epoch, r.threshold epoch ≠ 0 → (r.signers epoch).length < 2 * r.threshold epoch
  future : ∀ epoch, r.epoch < epoch → r.signers epoch = [] ∧ r.threshold epoch = 0

/-- The epochs of `r` have the same signers and the same threshold in `r'`. -/
structure Extends (r r' : Roster) : Prop where
  epoch : r.epoch ≤ r'.epoch
  isSigner : ∀ epoch ≤ r.epoch, r'.isSigner epoch = r.isSigner epoch
  threshold : ∀ epoch ≤ r.epoch, r'.threshold epoch = r.threshold epoch

theorem Extends.refl (r : Roster) : Extends r r := ⟨le_rfl, fun _ _ => rfl, fun _ _ => rfl⟩

theorem Extends.trans {r r' r'' : Roster} (h : Extends r r') (h' : Extends r' r'') :
    Extends r r'' where
  epoch := h.epoch.trans h'.epoch
  isSigner epoch he := (h'.isSigner epoch (he.trans h.epoch)).trans (h.isSigner epoch he)
  threshold epoch he := (h'.threshold epoch (he.trans h.epoch)).trans (h.threshold epoch he)

theorem Sound.epoch_le {r : Roster} (h : r.Sound) {epoch : ℕ} (ht : r.threshold epoch ≠ 0) :
    epoch ≤ r.epoch := by
  by_contra hlt
  exact ht (h.future epoch (by omega)).2

/-- At least the threshold of signers of the epoch have a signature of the digest in the list. -/
def SignedBy (Q : QuorumDeployment) (r : Roster) (epoch : ℕ) (digest : Bytes32)
    (signatures : List Bytes) : Prop :=
  ∃ members : Finset Address, r.threshold epoch ≤ (#members) ∧ ∀ a ∈ members,
    r.isSigner epoch a = true ∧ ∃ s ∈ signatures, Q.recover digest s = .ok a

theorem SignedBy.extend {Q : QuorumDeployment} {r r' : Roster} {epoch : ℕ} {digest : Bytes32}
    {signatures : List Bytes} (h : r.SignedBy Q epoch digest signatures) (hr : r.Extends r')
    (he : epoch ≤ r.epoch) : r'.SignedBy Q epoch digest signatures := by
  obtain ⟨members, hcard, hmem⟩ := h
  refine ⟨members, ?_, ?_⟩
  · rw [hr.threshold epoch he]
    exact hcard
  · intro a ha
    rw [hr.isSigner epoch he]
    exact hmem a ha

/-- Two quorums of an epoch share a signer. -/
theorem Sound.shared {Q : QuorumDeployment} {r : Roster} {epoch : ℕ} {digest₁ digest₂ : Bytes32}
    {signatures₁ signatures₂ : List Bytes} (h : r.Sound) (ht : r.threshold epoch ≠ 0)
    (h₁ : r.SignedBy Q epoch digest₁ signatures₁) (h₂ : r.SignedBy Q epoch digest₂ signatures₂) :
    ∃ a, r.isSigner epoch a = true ∧ (∃ s ∈ signatures₁, Q.recover digest₁ s = .ok a) ∧
      ∃ s ∈ signatures₂, Q.recover digest₂ s = .ok a := by
  obtain ⟨members₁, hcard₁, hmem₁⟩ := h₁
  obtain ⟨members₂, hcard₂, hmem₂⟩ := h₂
  have hsub : ∀ members : Finset Address, (∀ a ∈ members, r.isSigner epoch a = true) →
      members ⊆ (r.signers epoch).toFinset := by
    intro members hall a ha
    rw [List.mem_toFinset]
    exact (h.member epoch a).mp (hall a ha)
  have hcard : #(r.signers epoch).toFinset < (#members₁) + (#members₂) := by
    rw [List.toFinset_card_of_nodup (h.nodup epoch)]
    have hmajority := h.majority epoch ht
    omega
  obtain ⟨a, ha⟩ := inter_nonempty_of_card_lt_card_add_card
    (hsub members₁ (fun a ha => (hmem₁ a ha).1)) (hsub members₂ (fun a ha => (hmem₂ a ha).1)) hcard
  rw [mem_inter] at ha
  exact ⟨a, (hmem₁ a ha.1).1, (hmem₁ a ha.1).2, (hmem₂ a ha.2).2⟩

end Roster

/-! ### What is accepted is signed -/

namespace ResolverQuorum

variable {Q : QuorumDeployment} {e : Env} {q q' : ResolverQuorum}

/-- The loop counts the signatures; their signers are distinct, since each is above the last. -/
theorem acceptSigners_ok {epoch : ℕ} {digest : Bytes32} {signatures : List Bytes}
    {previous : Address} {valid n : ℕ}
    (h : acceptSigners Q epoch digest q signatures previous valid = .ok n) :
    n = valid + signatures.length ∧ ∃ members : Finset Address, (#members) = signatures.length ∧
      ∀ a ∈ members, previous < a ∧ q.isEpochSigner epoch a = true ∧
        ∃ s ∈ signatures, Q.recover digest s = .ok a := by
  induction signatures generalizing previous valid with
  | nil =>
      simp only [acceptSigners, pure_eq_ok] at h
      refine ⟨h.symm, ∅, rfl, ?_⟩
      intro a ha
      exact absurd ha (notMem_empty a)
  | cons signature signatures ih =>
      simp only [acceptSigners, bind_eq_ok, revertIf_eq_ok, Unique.exists_iff, BitVec.not_le,
        Bool.not_eq_false] at h
      obtain ⟨a, ha, hlt, hsigner, hrest⟩ := h
      obtain ⟨rfl, members, hcard, hmem⟩ := ih hrest
      have hnew : a ∉ members := by
        intro hin
        exact absurd (hmem a hin).1 (BitVec.lt_irrefl a)
      refine ⟨by rw [List.length_cons]; omega, insert a members, ?_, ?_⟩
      · rw [card_insert_of_notMem hnew, hcard, List.length_cons]
      · intro b hb
        rw [mem_insert] at hb
        obtain rfl | hb := hb
        · exact ⟨hlt, hsigner, signature, List.mem_cons_self .., ha⟩
        · obtain ⟨hab, hb, s, hs, hrecover⟩ := hmem b hb
          exact ⟨BitVec.lt_trans hlt hab, hb, s, List.mem_cons_of_mem _ hs, hrecover⟩

theorem signed_of_requireQuorum {epoch : ℕ} {digest : Bytes32} {signatures : List Bytes}
    (h : q.requireQuorum Q epoch digest signatures = .ok ()) :
    q.roster.threshold epoch ≠ 0 ∧ q.roster.SignedBy Q epoch digest signatures := by
  simp only [requireQuorum, bind_eq_ok, revertIf_eq_ok, Unique.exists_iff] at h
  obtain ⟨hzero, -, n, haccept, hle⟩ := h
  obtain ⟨rfl, members, hcard, hmem⟩ := acceptSigners_ok haccept
  refine ⟨hzero, members, ?_, ?_⟩
  · change q.epochThreshold epoch ≤ (#members)
    omega
  · intro a ha
    exact ⟨(hmem a ha).2.1, (hmem a ha).2.2⟩

/-! ### Rotations -/

/-- The signers listed in the loop are new to the epoch, and listed once. -/
theorem installSigners_ok {epoch : ℕ} {signers : List Address}
    (h : q.installSigners epoch signers = .ok q')
    (hmember : ∀ epoch a, q.isEpochSigner epoch a = true ↔ a ∈ q.epochSigners epoch)
    (hnodup : ∀ epoch, (q.epochSigners epoch).Nodup) :
    (∃ isSigner current isEpochSigner, q' = { q with
      isSigner := isSigner, signers := current, isEpochSigner := isEpochSigner
      epochSigners := update q.epochSigners epoch (q.epochSigners epoch ++ signers) }) ∧
    (∀ epoch a, q'.isEpochSigner epoch a = true ↔ a ∈ q'.epochSigners epoch) ∧
    ∀ epoch, (q'.epochSigners epoch).Nodup := by
  induction signers generalizing q with
  | nil =>
      simp only [installSigners, pure_eq_ok] at h
      subst h
      refine ⟨⟨q.isSigner, q.signers, q.isEpochSigner, ?_⟩, hmember, hnodup⟩
      rw [List.append_nil, update_eq_self]
  | cons signer signers ih =>
      simp only [installSigners, bind_eq_ok, installSigner, revertIf_eq_ok, pure_eq_ok,
        Unique.exists_iff, not_or, Bool.not_eq_true] at h
      obtain ⟨_, ⟨⟨-, hnew⟩, rfl⟩, hrest⟩ := h
      have hnotMem : signer ∉ q.epochSigners epoch := by
        rw [← hmember, hnew]
        exact Bool.false_ne_true
      obtain ⟨⟨isSigner, current, isEpochSigner, hq'⟩, hmember', hnodup'⟩ := by
        refine ih hrest ?_ ?_
        · intro j a
          by_cases hj : j = epoch
          · subst hj
            simp only [update_self, List.mem_append, List.mem_singleton]
            by_cases ha : a = signer
            · simp [ha]
            · simp [ha, hmember]
          · simp only [update_of_ne hj, hmember]
        · intro j
          by_cases hj : j = epoch
          · subst hj
            simp only [update_self]
            rw [List.nodup_append]
            refine ⟨hnodup j, List.nodup_singleton signer, ?_⟩
            intro a ha b hb
            rw [List.mem_singleton] at hb
            subst hb
            intro hab
            exact hnotMem (hab ▸ ha)
          · simp only [update_of_ne hj, hnodup]
      refine ⟨⟨isSigner, current, isEpochSigner, ?_⟩, hmember', hnodup'⟩
      rw [hq']
      simp only [update_self, update_idem, List.append_assoc, List.singleton_append]

theorem installSignerSet_ok {epoch threshold : ℕ} {signers : List Address}
    (h : q.installSignerSet epoch signers threshold = .ok q') (hr : q.roster.Sound)
    (hepoch : q.signerEpoch < epoch) :
    q'.roster.Sound ∧ q.roster.Extends q'.roster ∧ q'.nonceUsed = q.nonceUsed ∧
      q'.challengeDecided = q.challengeDecided := by
  simp only [installSignerSet, bind_eq_ok, revertIf_eq_ok, pure_eq_ok, Unique.exists_iff] at h
  obtain ⟨-, hthreshold, q₁, hinstall, rfl⟩ := h
  obtain ⟨⟨isSigner, current, isEpochSigner, rfl⟩, hmember, hnodup⟩ :=
    installSigners_ok hinstall hr.member hr.nodup
  have hempty : q.epochSigners epoch = [] := (hr.future epoch hepoch).1
  have hsigners : q.dropSigners.epochSigners epoch ++ signers = signers := by
    change q.epochSigners epoch ++ signers = signers
    rw [hempty, List.nil_append]
  simp only [hsigners] at hmember hnodup ⊢
  refine ⟨⟨hmember, hnodup, ?_, ?_⟩, ⟨?_, ?_, ?_⟩, rfl, rfl⟩
  · intro j
    change update q.epochThreshold epoch threshold j ≠ 0 →
      (update q.epochSigners epoch signers j).length < 2 * update q.epochThreshold epoch threshold j
    by_cases hj : j = epoch
    · subst hj
      rw [update_self, update_self]
      omega
    · rw [update_of_ne hj, update_of_ne hj]
      exact hr.majority j
  · intro j (hj : epoch < j)
    change update q.epochSigners epoch signers j = [] ∧ update q.epochThreshold epoch threshold j = 0
    rw [update_of_ne (by omega), update_of_ne (by omega)]
    exact hr.future j (hepoch.trans hj)
  · exact hepoch.le
  · intro j (hj : j ≤ q.signerEpoch)
    funext a
    have hne : j ≠ epoch := by omega
    have hlisted := hmember j a
    rw [update_of_ne hne] at hlisted
    exact Bool.eq_iff_iff.mpr (hlisted.trans (hr.member j a).symm)
  · intro j (hj : j ≤ q.signerEpoch)
    change update q.epochThreshold epoch threshold j = q.epochThreshold j
    rw [update_of_ne (by omega)]

theorem rotateSigners_ok {signers : List Address} {threshold : ℕ}
    (h : q.rotateSigners Q e signers threshold = .ok q') (hr : q.roster.Sound) :
    q'.roster.Sound ∧ q.roster.Extends q'.roster ∧ q'.nonceUsed = q.nonceUsed ∧
      q'.challengeDecided = q.challengeDecided := by
  simp only [rotateSigners, bind_eq_ok, onlyOwner, revertIf_eq_ok, checkedAdd_eq_ok, pure_eq_ok,
    Unique.exists_iff] at h
  obtain ⟨-, -, _, ⟨-, rfl⟩, q₁, hinstall, _, -, rfl⟩ := h
  obtain ⟨hsound, hextends, hnonce, hdecided⟩ :=
    installSignerSet_ok hinstall hr (Nat.lt_add_one q.signerEpoch)
  exact ⟨hsound, hextends, hnonce, hdecided⟩

theorem create_ok {signers : List Address} {threshold : ℕ}
    (h : create e signers threshold = .ok q) : q.roster.Sound := by
  simp only [create, bind_eq_ok, pure_eq_ok] at h
  obtain ⟨q₁, hinstall, _, -, rfl⟩ := h
  have hempty : ({} : ResolverQuorum).roster.Sound := by
    refine ⟨?_, ?_, ?_, ?_⟩
    · intro epoch a
      exact iff_of_false (fun h => by cases h) fun h => by cases h
    · intro epoch
      exact List.nodup_nil
    · intro epoch ht
      exact absurd rfl ht
    · intro epoch _
      exact ⟨rfl, rfl⟩
  exact (installSignerSet_ok hinstall hempty Nat.zero_lt_one).1

theorem Kept.roster (h : q.Kept q') : q'.roster = q.roster := by
  simp only [ResolverQuorum.roster, h.signerEpoch, h.isEpochSigner, h.epochSigners,
    h.epochThreshold]

theorem requireDecisionBinding_ok {x : Decision}
    (h : q.requireDecisionBinding Q e x true = .ok ()) :
    x.signerEpoch = q.signerEpoch ∧ e.now ≤ x.expiry := by
  simp only [requireDecisionBinding, bind_eq_ok, revertIf_eq_ok, Unique.exists_iff, not_and,
    not_not, not_lt] at h
  exact ⟨h.2.1 trivial, h.2.2 trivial⟩

end ResolverQuorum

/-! ### The history of the quorum -/

/-- A decision that the quorum forwarded, with its signatures, the epoch and the time. -/
structure Forwarding where
  decision : Decision
  signatures : List Bytes
  epoch : ℕ
  time : ℕ

/-- A decision bond slashed for equivocation, and the dispute with its pending decision. -/
structure Slashing where
  manager : Address
  submissionId : ℕ
  challengeInstanceHash : Bytes32
  dispute : Challenge

inductive QuorumAct where
  | forwarded (f : Forwarding)
  | slashed (x : Slashing)

/-- The decisions forwarded, newest first. -/
def forwardings (k : List QuorumAct) : List Forwarding :=
  k.filterMap (fun
    | .forwarded f => some f
    | .slashed _ => none)

/-- The decisions forwarded and the bonds slashed for equivocation, newest first. -/
def QuorumWorld.acts (w : QuorumWorld) (a : QuorumAction) (_ : QuorumWorld) (k : List QuorumAct) :
    List QuorumAct :=
  match a with
  | .call _ _ _ (.resolve x _ signatures) =>
      .forwarded ⟨x, signatures, w.quorum.signerEpoch, w.block.timestamp⟩ :: k
  | .call _ _ _ (.proveEquivocation x _ _ _) =>
      .slashed ⟨x.manager, x.submissionId, x.challengeInstanceHash,
        (w.boards x.manager).cm.challenges x.submissionId⟩ :: k
  | _ => k

/-- The quorum together with its history. -/
def QuorumDeployment.tracked (Q : QuorumDeployment) :
    System (QuorumWorld × List QuorumAct) QuorumAction :=
  Q.protocol.withHistory [] QuorumWorld.acts

@[simp] theorem mem_forwardings {f : Forwarding} {k : List QuorumAct} :
    f ∈ forwardings k ↔ .forwarded f ∈ k := by
  simp only [forwardings, List.mem_filterMap]
  constructor
  · rintro ⟨act, hact, heq⟩
    cases act with
    | forwarded f' =>
        cases heq
        exact hact
    | slashed => cases heq
  · intro h
    exact ⟨_, h, rfl⟩

@[simp] theorem forwardings_forwarded (f : Forwarding) (k : List QuorumAct) :
    forwardings (.forwarded f :: k) = f :: forwardings k := rfl

@[simp] theorem forwardings_slashed (x : Slashing) (k : List QuorumAct) :
    forwardings (.slashed x :: k) = forwardings k := rfl

structure QuorumLaws (Q : QuorumDeployment) (w : QuorumWorld) (k : List QuorumAct) : Prop where
  /-- Accepted signatures are those of a quorum. -/
  accepted : ∀ epoch digest signatures,
    w.quorum.requireQuorum Q epoch digest signatures = .ok () →
    w.quorum.roster.SignedBy Q epoch digest signatures
  nonces : ((forwardings k).map (fun f => (f.decision.manager, f.decision.nonce))).Nodup
  instances :
    ((forwardings k).map (fun f => (f.decision.manager, f.decision.challengeInstanceHash))).Nodup
  /-- A forwarded decision was signed by a quorum of the epoch then current, and not expired. -/
  signed : ∀ f ∈ forwardings k, f.decision.signerEpoch = f.epoch ∧ f.time ≤ f.decision.expiry ∧
    w.quorum.roster.SignedBy Q f.epoch (Q.decisionDigest f.decision) f.signatures

/-- How the storage of the quorum explains the history. -/
structure QuorumTracked (Q : QuorumDeployment) (w : QuorumWorld) (k : List QuorumAct) : Prop where
  roster : w.quorum.roster.Sound
  epochs : ∀ f ∈ forwardings k, f.epoch ≤ w.quorum.signerEpoch
  nonceUsed : ∀ f ∈ forwardings k, w.quorum.nonceUsed f.decision.manager f.decision.nonce = true
  decided : ∀ f ∈ forwardings k,
    w.quorum.challengeDecided f.decision.manager f.decision.challengeInstanceHash = true
  laws : QuorumLaws Q w k

/-! ### The history along a run -/

namespace QuorumTracked

variable {Q : QuorumDeployment} {w w' : QuorumWorld} {k k' : List QuorumAct}

/-- The history forwards nothing new. -/
theorem quiet (h : QuorumTracked Q w k) (hk : forwardings k' = forwardings k)
    (hsound : w'.quorum.roster.Sound) (hextends : w.quorum.roster.Extends w'.quorum.roster)
    (hnonce : w'.quorum.nonceUsed = w.quorum.nonceUsed)
    (hdecided : w'.quorum.challengeDecided = w.quorum.challengeDecided) : QuorumTracked Q w' k' where
  roster := hsound
  epochs f hf := (h.epochs f (hk ▸ hf)).trans hextends.epoch
  nonceUsed f hf := by
    rw [hnonce]
    exact h.nonceUsed f (hk ▸ hf)
  decided f hf := by
    rw [hdecided]
    exact h.decided f (hk ▸ hf)
  laws := by
    refine ⟨fun epoch digest signatures haccept =>
      (ResolverQuorum.signed_of_requireQuorum haccept).2, ?_, ?_, ?_⟩
    · rw [hk]
      exact h.laws.nonces
    · rw [hk]
      exact h.laws.instances
    · intro f hf
      rw [hk] at hf
      obtain ⟨hepoch, htime, hsigned⟩ := h.laws.signed f hf
      exact ⟨hepoch, htime, hsigned.extend hextends (h.epochs f hf)⟩

/-- The same signers and the same decisions. -/
theorem kept (h : QuorumTracked Q w k) (hk : forwardings k' = forwardings k)
    (hq : w.quorum.Kept w'.quorum) : QuorumTracked Q w' k' := by
  have hroster := hq.roster
  refine h.quiet hk ?_ ?_ hq.nonceUsed hq.challengeDecided
  · rw [hroster]
    exact h.roster
  · rw [hroster]
    exact .refl _

/-- A decision is forwarded. -/
theorem forward (h : QuorumTracked Q w k) {e : Env} {x : Decision} {signatures : List Bytes}
    (hbinding : w.quorum.requireDecisionBinding Q e x true = .ok ())
    (hnonce : w.quorum.nonceUsed x.manager x.nonce = false)
    (hdecided : w.quorum.challengeDecided x.manager x.challengeInstanceHash = false)
    (hquorum : w.quorum.requireQuorum Q x.signerEpoch (Q.decisionDigest x) signatures = .ok ())
    (hkept : { w.quorum with
      nonceUsed := update w.quorum.nonceUsed x.manager
        (update (w.quorum.nonceUsed x.manager) x.nonce true)
      challengeDecided := update w.quorum.challengeDecided x.manager
        (update (w.quorum.challengeDecided x.manager) x.challengeInstanceHash true) }.Kept
      w'.quorum) :
    QuorumTracked Q w'
      (.forwarded ⟨x, signatures, w.quorum.signerEpoch, e.now⟩ :: k) := by
  obtain ⟨hepoch, hexpiry⟩ := ResolverQuorum.requireDecisionBinding_ok hbinding
  have hroster : w'.quorum.roster = w.quorum.roster := hkept.roster
  have hnonces : ∀ f : Forwarding, f.decision = x ∨
      w.quorum.nonceUsed f.decision.manager f.decision.nonce = true →
      w'.quorum.nonceUsed f.decision.manager f.decision.nonce = true := by
    intro f hf
    rw [hkept.nonceUsed]
    by_cases hm : f.decision.manager = x.manager
    · by_cases hn : f.decision.nonce = x.nonce
      · simp only [hm, hn, update_self]
      · obtain hf | hf := hf
        · exact absurd (congrArg Decision.nonce hf) hn
        · rw [hm] at hf
          simp only [hm, update_self, update_of_ne hn, hf]
    · obtain hf | hf := hf
      · exact absurd (congrArg Decision.manager hf) hm
      · simp only [update_of_ne hm, hf]
  have hdecisions : ∀ f : Forwarding, f.decision = x ∨
      w.quorum.challengeDecided f.decision.manager f.decision.challengeInstanceHash = true →
      w'.quorum.challengeDecided f.decision.manager f.decision.challengeInstanceHash = true := by
    intro f hf
    rw [hkept.challengeDecided]
    by_cases hm : f.decision.manager = x.manager
    · by_cases hn : f.decision.challengeInstanceHash = x.challengeInstanceHash
      · simp only [hm, hn, update_self]
      · obtain hf | hf := hf
        · exact absurd (congrArg Decision.challengeInstanceHash hf) hn
        · rw [hm] at hf
          simp only [hm, update_self, update_of_ne hn, hf]
    · obtain hf | hf := hf
      · exact absurd (congrArg Decision.manager hf) hm
      · simp only [update_of_ne hm, hf]
  refine ⟨hroster ▸ h.roster, ?_, ?_, ?_, ?_, ?_, ?_, ?_⟩
  · intro f hf
    have hlast : w'.quorum.signerEpoch = w.quorum.signerEpoch := hkept.signerEpoch
    rw [hlast]
    rw [forwardings_forwarded, List.mem_cons] at hf
    obtain rfl | hf := hf
    · exact le_rfl
    · exact h.epochs f hf
  · intro f hf
    rw [forwardings_forwarded, List.mem_cons] at hf
    obtain rfl | hf := hf
    · exact hnonces _ (Or.inl rfl)
    · exact hnonces f (Or.inr (h.nonceUsed f hf))
  · intro f hf
    rw [forwardings_forwarded, List.mem_cons] at hf
    obtain rfl | hf := hf
    · exact hdecisions _ (Or.inl rfl)
    · exact hdecisions f (Or.inr (h.decided f hf))
  · intro epoch digest signatures haccept
    exact (ResolverQuorum.signed_of_requireQuorum haccept).2
  · rw [forwardings_forwarded, List.map_cons, List.nodup_cons]
    refine ⟨?_, h.laws.nonces⟩
    intro hmem
    obtain ⟨f, hf, heq⟩ := List.mem_map.mp hmem
    rw [Prod.mk.injEq] at heq
    have hused := h.nonceUsed f hf
    rw [heq.1, heq.2, hnonce] at hused
    cases hused
  · rw [forwardings_forwarded, List.map_cons, List.nodup_cons]
    refine ⟨?_, h.laws.instances⟩
    intro hmem
    obtain ⟨f, hf, heq⟩ := List.mem_map.mp hmem
    rw [Prod.mk.injEq] at heq
    have hused := h.decided f hf
    rw [heq.1, heq.2, hdecided] at hused
    cases hused
  · intro f hf
    rw [hroster]
    rw [forwardings_forwarded, List.mem_cons] at hf
    obtain rfl | hf := hf
    · refine ⟨hepoch, hexpiry, ?_⟩
      rw [← hepoch]
      exact (ResolverQuorum.signed_of_requireQuorum hquorum).2
    · exact h.laws.signed f hf

/-- A call of the quorum. -/
theorem call (h : QuorumTracked Q w k) {sender : Address} {value : ℕ} {ext : External}
    {c : QuorumCall} {w₀ : QuorumWorld} (hquorum : w.quorum.Kept w₀.quorum)
    (hmove : w₀.Move Q ⟨w.block, sender, value, ext⟩ c w') :
    QuorumTracked Q w' (w.acts (.call sender value ext c) w' k) := by
  have h₀ : QuorumTracked Q w₀ k := h.kept rfl hquorum
  cases hmove with
  | rotate hrotate =>
      obtain ⟨hsound, hextends, hnonce, hdecided⟩ :=
        ResolverQuorum.rotateSigners_ok hrotate h₀.roster
      exact h₀.quiet rfl hsound hextends hnonce hdecided
  | pause hkept => exact h₀.kept rfl hkept
  | fund hkept => exact h₀.kept rfl hkept
  | resolve hbinding _ hnonce hdecided hsigned _ hkept =>
      simp only [QuorumWorld.acts, ← hquorum.signerEpoch]
      exact h₀.forward hbinding hnonce hdecided hsigned hkept
  | reclaim _ _ _ hkept => exact h₀.kept rfl hkept
  | equivocation _ _ _ _ _ _ _ _ _ _ hkept => exact h₀.kept rfl hkept
  | fraud _ _ _ _ _ _ hkept => exact h₀.kept rfl hkept

theorem step (h : QuorumTracked Q w k) {a : QuorumAction} (hs : w.step Q a = some w') :
    QuorumTracked Q w' (w.acts a w' k) := by
  cases a with
  | tick block =>
      simp only [QuorumWorld.step] at hs
      split at hs
      · cases hs
        exact h.kept rfl ⟨rfl, rfl, rfl, rfl, rfl, rfl⟩
      · cases hs
  | force amount =>
      simp only [QuorumWorld.step, Option.map_eq_some_iff] at hs
      obtain ⟨balance, -, rfl⟩ := hs
      exact h.kept rfl ⟨rfl, rfl, rfl, rfl, rfl, rfl⟩
  | board m a =>
      simp only [QuorumWorld.step] at hs
      split at hs
      · obtain ⟨b, -, rfl⟩ := Option.map_eq_some_iff.mp hs
        exact h.kept rfl ⟨rfl, rfl, rfl, rfl, rfl, rfl⟩
      · cases hs
  | call sender value ext c =>
      obtain ⟨balance, hmove⟩ := QuorumWorld.move_of_step hs
      refine h.call ?_ hmove
      exact ⟨rfl, rfl, rfl, rfl, rfl, rfl⟩

end QuorumTracked

theorem quorumTracked_of_reachable {Q : QuorumDeployment} {p : QuorumWorld × List QuorumAct}
    {C : QuorumWorld × List QuorumAct → QuorumAction → Prop} (h : Q.tracked.Reachable C p) :
    QuorumTracked Q p.1 p.2 := by
  refine h.invariant (P := fun p => QuorumTracked Q p.1 p.2) ?_ ?_
  · rintro ⟨w, k⟩ ⟨⟨-, _, _, _, hcreate⟩, rfl⟩
    refine ⟨ResolverQuorum.create_ok hcreate, nofun, nofun, nofun,
      ⟨fun _ _ _ haccept => (ResolverQuorum.signed_of_requireQuorum haccept).2, List.nodup_nil,
        List.nodup_nil, nofun⟩⟩
  · rintro ⟨w, k⟩ a ⟨w', k'⟩ - htracked - hs
    obtain ⟨hs, hk⟩ := System.withHistory_step.mp hs
    change k' = w.acts a w' k at hk
    subst hk
    exact htracked.step hs

theorem QuorumWorld.Move.roster {Q : QuorumDeployment} {e : Env} {w w' : QuorumWorld}
    {c : QuorumCall} (h : w.Move Q e c w') (hr : w.quorum.roster.Sound) :
    w'.quorum.roster.Sound ∧ w.quorum.roster.Extends w'.quorum.roster := by
  have hsame : ∀ {q : ResolverQuorum}, w.quorum.roster = q.roster →
      q.roster.Sound ∧ w.quorum.roster.Extends q.roster := by
    intro q hq
    rw [← hq]
    exact ⟨hr, .refl _⟩
  cases h with
  | rotate hrotate =>
      obtain ⟨hsound, hextends, -, -⟩ := ResolverQuorum.rotateSigners_ok hrotate hr
      exact ⟨hsound, hextends⟩
  | pause hkept => exact hsame hkept.roster.symm
  | fund hkept => exact hsame hkept.roster.symm
  | resolve _ _ _ _ _ _ hkept => exact hsame hkept.roster.symm
  | reclaim _ _ _ hkept => exact hsame hkept.roster.symm
  | equivocation _ _ _ _ _ _ _ _ _ _ hkept => exact hsame hkept.roster.symm
  | fraud _ _ _ _ _ _ hkept => exact hsame hkept.roster.symm

theorem QuorumWorld.roster_step {Q : QuorumDeployment} {w w' : QuorumWorld} {a : QuorumAction}
    (h : w.step Q a = some w') (hr : w.quorum.roster.Sound) :
    w'.quorum.roster.Sound ∧ w.quorum.roster.Extends w'.quorum.roster := by
  cases a with
  | tick block =>
      simp only [step] at h
      split at h
      · cases h
        exact ⟨hr, .refl _⟩
      · cases h
  | force amount =>
      obtain ⟨balance, -, rfl⟩ := Option.map_eq_some_iff.mp h
      exact ⟨hr, .refl _⟩
  | board m a =>
      simp only [step] at h
      split at h
      · obtain ⟨b, -, rfl⟩ := Option.map_eq_some_iff.mp h
        exact ⟨hr, .refl _⟩
      · cases h
  | call sender value ext c =>
      obtain ⟨balance, hmove⟩ := move_of_step h
      exact hmove.roster hr

/-- The signers of an epoch are the same in all later states. -/
theorem roster_extends {Q : QuorumDeployment} {p p' : QuorumWorld × List QuorumAct}
    {as : List QuorumAction} (h : p.1.quorum.roster.Sound) (hrun : Q.tracked.Run Free p as p') :
    p.1.quorum.roster.Extends p'.1.quorum.roster := by
  refine (hrun.invariant (P := fun p' => p'.1.quorum.roster.Sound ∧
    p.1.quorum.roster.Extends p'.1.quorum.roster) ?_ ⟨h, .refl _⟩).2
  rintro q a q' ⟨hsound, hextends⟩ - hs
  obtain ⟨hsound', hextends'⟩ :=
    QuorumWorld.roster_step (System.withHistory_step.mp hs).1 hsound
  exact ⟨hsound', hextends.trans hextends'⟩

/-- **Quorum safety.**  In every run, what is accepted for an epoch is signed by a quorum of its
signers, what is accepted for an epoch now and at any later time shares a signer, and the decisions
forwarded are one for each dispute and each nonce, signed by the epoch then current. -/
theorem quorumLaws_of_reachable {Q : QuorumDeployment} {p : QuorumWorld × List QuorumAct}
    (h : Q.tracked.Reachable Free p) :
    QuorumLaws Q p.1 p.2 ∧ ∀ as p', Q.tracked.Run Free p as p' →
      ∀ epoch digest₁ signatures₁ digest₂ signatures₂,
        p.1.quorum.requireQuorum Q epoch digest₁ signatures₁ = .ok () →
        p'.1.quorum.requireQuorum Q epoch digest₂ signatures₂ = .ok () →
        ∃ a, p.1.quorum.isEpochSigner epoch a = true ∧
          (∃ s ∈ signatures₁, Q.recover digest₁ s = .ok a) ∧
          ∃ s ∈ signatures₂, Q.recover digest₂ s = .ok a := by
  have htracked := quorumTracked_of_reachable h
  refine ⟨htracked.laws, ?_⟩
  intro as p' hrun epoch digest₁ signatures₁ digest₂ signatures₂ haccept₁ haccept₂
  obtain ⟨hthreshold, hsigned₁⟩ := ResolverQuorum.signed_of_requireQuorum haccept₁
  obtain ⟨-, hsigned₂⟩ := ResolverQuorum.signed_of_requireQuorum haccept₂
  have hle := htracked.roster.epoch_le hthreshold
  have hextends := roster_extends htracked.roster hrun
  have hsound := (quorumTracked_of_reachable (h.run hrun)).roster
  have hthreshold' : p'.1.quorum.roster.threshold epoch ≠ 0 := by
    rw [hextends.threshold epoch hle]
    exact hthreshold
  obtain ⟨a, ha, hs₁, hs₂⟩ := hsound.shared hthreshold' (hsigned₁.extend hextends hle) hsigned₂
  refine ⟨a, ?_, hs₁, hs₂⟩
  rw [hextends.isSigner epoch hle] at ha
  exact ha

namespace Sample

/-! A quorum of the sample board and of nine more like it. -/

/-- Keccak-256 of the further inputs that occur in the sample runs of the quorum. -/
def quorumHashes : List (ℕ × Bytes32) :=
  [ (647227031366296107, 0x728c6b1978d1151fbb4fb9ff5e0fa09c878b3247ef4c11b886f73f82e96b747e),
    (1006338292601868, 0x5720dfd9d5ce827ebfb5759531af69b17037c52e4f11249ca63d592a219d9263),
    (1005693525240206491, 0x30bdd97f4abe38e136d77f71b2b945c74701f7c5f70f191294262f51afa73737),
    (505780438496587053, 0x949460de5b43164936450331fbc8c997ef16d9fee07ca096ce660be914e9dc29),
    (305, 0xc89efdaa54c0f20c7adf612882df0950f5a951637e0307cdcb4c672f298b8bc6),
    (1168756959726817443, 0x91b315d75c72b38da9d7bcef671b07e69944a88b07a702fe38ad6c2751d71d25),
    (388618207047521, 0x8181cc090017c6e2e74bca1ab8bdba4405679007b23e3d95eac90429d7ca80e4),
    (768117355580598235, 0x73bdeb241a0e3938446e1e1779d409dd3e7b5abfa2104fe90df55e75b8d5be73),
    (1825806329155009599, 0x07ea8b67545bce9909b729d23d2954ee744b2855895d135b3718501bbb9de2d4),
    (1359848845109881926, 0xb37212a3474c660de74acd19cf295f5d38aef783b6dc916486294bd8373da088),
    (768117355597375450, 0xaf426375eb5dc1996264a82ead36e4a1cbb16595a039692919259ab75f69c8e7),
    (1032137622302242770, 0xe9c29f0e98bf78fedee3805a6f22cbd6d223c66c493c84a8f340c87e7754d12e),
    (768117355605764058, 0x1203c7395a1dbc554cef16d17627787f1e81ec97d4827647ee18c167bb67f244),
    (1825524854178298943, 0x8233377ea3f94fc53b036a7a4769c3842e5128090fb3efba18eacebe8409a796),
    (2246577153502424955, 0x1c43220ccd9e5fff673cdae98cfa1c04b735914c5b29c79ead97ff6439c3e52a),
    (697791995276416420, 0xe885e61cff13c2037b4e48aa75270e7d7b7deebcf6831745d1965ba36e462aeb),
    (768117355605764059, 0x763016d32277ef510c1fa0319d7a36261463c05a2237a1f23c667bce78d15d6a),
    (93262879967240051, 0xc3e463b24b2f3ce636a5dd73d6963f896a665ccd9c8db60e0039ec3819c12f3a),
    (1065492673034600402, 0xa580a5f3e37672d8572bd70b4f42beff7a456df238676940ff6f95916017ba7b)]

/-- The signatures of the sample runs of the quorum: digest, `v`, `r`, `s` and the signer. -/
def quorumSigners : List ((Bytes32 × ℕ × Bytes32 × Bytes32) × Address) :=
  [((0xb37212a3474c660de74acd19cf295f5d38aef783b6dc916486294bd8373da088, 28,
      0x55fd748fa7f16e225553d203a9a52b51a6a131bbe0aa1d8f02598f06604217b7,
      0x7668272319f8d3a6cdda4066b45ffcd32e0cb3b02ad938950748cf31a093c355),
      0x1eff47bc3a10a45d4b230b5d10e37751fe6aa718),
   ((0xb37212a3474c660de74acd19cf295f5d38aef783b6dc916486294bd8373da088, 27,
      0xa4e5e1c2ef7c90f62b8cf6ee180b4f04ca69759a95149d04bb33d6d72d3d6fa0,
      0x10a1b2f70ccafaede65e2fa98601f47241d9c45a86eabfeee8332c77d14d5b3d),
      0xe1ab8145f7e55dc933d51a18c793f901a3a0b276),
   ((0xe9c29f0e98bf78fedee3805a6f22cbd6d223c66c493c84a8f340c87e7754d12e, 27,
      0x89d6520af252aa3e751d6536e47e103acda295bf255912ba30fefa62ba40f1ee,
      0x151aae60389e813fc43710fcdbadb473af0f7b8bfa2ce1a26959e2564819564f),
      0x2b5ad5c4795c026514f8317c7a215e218dccd6cf),
   ((0xe9c29f0e98bf78fedee3805a6f22cbd6d223c66c493c84a8f340c87e7754d12e, 28,
      0x77067eceecc30a83279bf8351bad5905b20cbc540bd08ef5bc386d833ece98ef,
      0x12c8467a2875366449bd9b243829b208e7f8d3069e098c32a80f454e2158cf91),
      0x7e5f4552091a69125d5dfcb7b8c2659029395bdf),
   ((0x1c43220ccd9e5fff673cdae98cfa1c04b735914c5b29c79ead97ff6439c3e52a, 27,
      0x78ae640b818370596612faf314d8c5a0c35ee784b8c9a0c6e14abcd74b2a7af7,
      0x66c6bf017f99c4bdc038a5c01047fa14a51aefdac80e1beaf05797181cc037b5),
      0x2b5ad5c4795c026514f8317c7a215e218dccd6cf),
   ((0x1c43220ccd9e5fff673cdae98cfa1c04b735914c5b29c79ead97ff6439c3e52a, 27,
      0xa37420ca5d427a29b5866f68ca383b61f07ee14a0882d70f5c65deb7b5d7a9d0,
      0x3caae6dbaf0022fa37e33006d2ccd21b90902da8d0ec714964292ebc120bf2a2),
      0x7e5f4552091a69125d5dfcb7b8c2659029395bdf),
   ((0xc3e463b24b2f3ce636a5dd73d6963f896a665ccd9c8db60e0039ec3819c12f3a, 27,
      0xf5169a3649c0db68a98b28f03afca09ff9df3011a16d6a54f39dcabed7a01736,
      0x54439e3edc27358704b35c00ec59272f202882a3d0c7087ebf731c6106fbc6b1),
      0x1eff47bc3a10a45d4b230b5d10e37751fe6aa718),
   ((0xc3e463b24b2f3ce636a5dd73d6963f896a665ccd9c8db60e0039ec3819c12f3a, 28,
      0x7fb272a91ec3ea7444a04a6a3f7f2d752eff1475cc6b2d37a063e7a21e67aefb,
      0x031893676e8b086ed663794652a5a0eae44ee23aa77ed22e7d614e8405c24c54),
      0xe1ab8145f7e55dc933d51a18c793f901a3a0b276)]

def quorumCrypto : Crypto :=
  { crypto with
    keccak256 := fun bs => ((hashes ++ quorumHashes).lookup (fingerprint bs)).getD 0
    ecrecover := fun digest v r s => (quorumSigners.lookup (digest, v, r, s)).getD 0 }

def quorumBoard (m : Address) : Deployment :=
  if h : [0, board.submissionManager, m, board.ledger, board.pool].Nodup then
    { board with crypto := quorumCrypto, challengeManager := m, addresses_distinct := h }
  else { board with crypto := quorumCrypto }

/-- The addresses of the managers. -/
def quorumManagers : List Address :=
  [board.challengeManager, 0x6001, 0x6002, 0x6003, 0x6004, 0x6005, 0x6006, 0x6007, 0x6008, 0x6009]

theorem quorumManagers_distinct : ∀ m ∈ quorumManagers,
    [0, board.submissionManager, m, board.ledger, board.pool].Nodup := by
  intro m hm
  fin_cases hm <;> decide

theorem quorumBoard_eq {m : Address} (hm : m ∈ quorumManagers) : quorumBoard m =
    { board with
      crypto := quorumCrypto, challengeManager := m
      addresses_distinct := quorumManagers_distinct m hm } := by
  rw [quorumBoard, dif_pos (quorumManagers_distinct m hm)]

theorem quorumManagers_external : ∀ m ∈ quorumManagers,
    resolver ∉ [0, board.submissionManager, m, board.ledger, board.pool] := by
  intro m hm
  fin_cases hm <;> decide

theorem quorumManagers_ne_zero : ∀ m ∈ quorumManagers, m ≠ 0 := by
  intro m hm
  fin_cases hm <;> decide

theorem resolver_ne_zero : resolver ≠ 0 := by decide

theorem owner_ne_zero : owner ≠ 0 := by decide

theorem treasury_ne_zero : treasury ≠ 0 := by decide

theorem objectiveVerifier_ne_zero : (0x0d : Address) ≠ 0 ∧ (0xcd : Bytes32) ≠ 0 := by decide

def quorum : QuorumDeployment where
  crypto := quorumCrypto
  adapter := resolver
  owner := owner
  expectedTreasury := treasury
  expectedDecisionBondWei := 1
  objectiveVerifier := 0x0d
  objectiveVerifierCodehash := 0xcd
  managers := quorumManagers
  board := quorumBoard
  binding _ := ⟨0xee, 7, 0x1a, 0x1b, 0x1c⟩
  adapter_ne_zero := resolver_ne_zero
  owner_ne_zero := owner_ne_zero
  treasury_ne_zero := treasury_ne_zero
  decisionBond_pos := Nat.one_pos
  verifier_ne_zero := objectiveVerifier_ne_zero
  managers_length := rfl
  managers_nodup := by decide
  managers_ne_zero := quorumManagers_ne_zero
  board_manager m hm := by rw [quorumBoard_eq hm]
  board_crypto m hm := by rw [quorumBoard_eq hm]
  board_owner m hm := by rw [quorumBoard_eq hm]; rfl
  board_resolver m hm := by rw [quorumBoard_eq hm]; rfl
  board_treasury m hm := by rw [quorumBoard_eq hm]; rfl
  board_decisionBond m hm := by rw [quorumBoard_eq hm]; rfl
  board_external m hm := by
    rw [quorumBoard_eq hm]
    exact quorumManagers_external m hm
  binding_ne_zero _ _ := by decide

/-- The signers of the first epoch. -/
def firstSigners : List Address :=
  [0x2b5ad5c4795c026514f8317c7a215e218dccd6cf, 0x6813eb9362372eef6200f3b1dbc3f819671cba69,
    0x7e5f4552091a69125d5dfcb7b8c2659029395bdf]

/-- The signers of the second epoch. -/
def secondSigners : List Address :=
  [0x1eff47bc3a10a45d4b230b5d10e37751fe6aa718, 0xe1ab8145f7e55dc933d51a18c793f901a3a0b276,
    0xe57bfe9f44b819898f47bf37e5af72a0783e1141]

theorem quorum_created :
    (ResolverQuorum.create ⟨blockAt 0 1, owner, 0, {}⟩ firstSigners 2).toOption.isSome = true := by
  decide +kernel

def quorumGenesis : QuorumWorld where
  block := blockAt 0 1 start_fits
  quorum := (ResolverQuorum.create ⟨blockAt 0 1 start_fits, owner, 0, {}⟩ firstSigners 2).toOption.get
    quorum_created
  boards m := (quorumBoard m).genesis (blockAt 0 1 start_fits)
    ⟨m, board.submissionManager, board.submissionManager, true⟩

theorem quorumGenesis_init : quorum.protocol.init quorumGenesis := by
  refine ⟨fun m hm => ⟨.of_init ⟨_, _, ?_, ?_, rfl⟩, rfl, rfl⟩, owner, firstSigners, 2,
    toOption_eq_some.mp (Option.some_get quorum_created).symm⟩
  all_goals
    change _ ≤ start
    simp only [quorum, quorumBoard_eq hm]
    decide

/-- The hash of the dispute of the sample runs. -/
def disputeHash : Bytes32 := 0x5720dfd9d5ce827ebfb5759531af69b17037c52e4f11249ca63d592a219d9263

/-- A decision of the dispute, as the quorum of `epoch` signs it. -/
def decision (wins : Bool) (nonce epoch : ℕ) (hn : nonce < 2 ^ 256 := by decide)
    (he : epoch < 2 ^ 64 := by decide) : Decision where
  chainId := 1
  adapter := resolver
  manager := board.challengeManager
  submissionId := 1
  challengeInstanceHash := disputeHash
  challengerWins := wins
  transcriptHash := 0xa1
  transcriptURIHash := 0x8181cc090017c6e2e74bca1ab8bdba4405679007b23e3d95eac90429d7ca80e4
  verdictHash := 0xa2
  bondBeneficiary := resolver
  nonce := nonce
  expiry := start + days 8
  signerEpoch := epoch
  chainId_lt := one_fits
  submissionId_lt := one_fits
  nonce_lt := hn
  signerEpoch_lt := he

def quorumSignature (i : ℕ) : Bytes :=
  match quorumSigners[i]? with
  | some ((_, v, r, s), _) => wordBytes r ++ wordBytes s ++ [UInt8.ofNat v]
  | none => []

def onBoard (a : Action) : QuorumAction := .board board.challengeManager a

/-- The signers are rotated; `solutionA` is challenged, and the second quorum decides. -/
def quorumRun : List QuorumAction :=
  [.tick (blockAt (days 7) 2), .call owner 0 {} (.rotateSigners secondSigners 2),
    onBoard (solutionA.commit 1), .tick (blockAt (days 7 + 12) 3), onBoard (solutionA.reveal 1),
    .tick (blockAt (days 7 + 24) 4),
    onBoard (.call challenger 1 {} (.challenge (.challenge 1
      0x728c6b1978d1151fbb4fb9ff5e0fa09c878b3247ef4c11b886f73f82e96b747e 7))),
    .call 0x1eff47bc3a10a45d4b230b5d10e37751fe6aa718 1 {} .fundStake,
    .call sponsor 0 {} (.resolve (decision true 1 2 one_fits epoch_fits) (ascii "ar://a")
      [quorumSignature 0, quorumSignature 1])]

theorem quorumRun_exec : ∃ p, quorum.tracked.exec (quorumGenesis, []) quorumRun = some p ∧
    (forwardings p.2).map (fun f => (f.decision, f.epoch)) = [(decision true 1 2, 2)] := by
  have hrun : (quorum.tracked.exec (quorumGenesis, []) quorumRun).map
      (fun p => (forwardings p.2).map (fun f => (f.decision, f.epoch))) =
      some [(decision true 1 2, 2)] := by decide +kernel
  obtain ⟨p, hp, hforwarded⟩ := Option.map_eq_some_iff.mp hrun
  exact ⟨p, hp, hforwarded⟩

end Sample

theorem quorumLaws_sample : ∃ p, Sample.quorum.tracked.Reachable Free p ∧
    (forwardings p.2).map (fun f => (f.decision, f.epoch)) = [(Sample.decision true 1 2, 2)] ∧
    QuorumLaws Sample.quorum p.1 p.2 := by
  obtain ⟨p, hp, hforwarded⟩ := Sample.quorumRun_exec
  have hreach : Sample.quorum.tracked.Reachable Free p :=
    .of_exec ⟨Sample.quorumGenesis_init, rfl⟩ hp
  exact ⟨p, hreach, hforwarded, (quorumLaws_of_reachable hreach).1⟩

end P42Prizes
