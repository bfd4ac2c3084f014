import P42Prizes.FreshWindow

/-! # The bonds of the disputes

The events of the challenge manager are read as a book of postings: a challenge posts a
counter-bond under `inl id`, a decision of the resolver posts a decision bond under `inr id`, and
the five ways to end a dispute settle what is posted.  `ChallengeManager.vault` is the book
together with what the storage says.  `Slotted` says what a slot of the storage holds between two
calls, in particular that a bond is open in the book exactly when the slot says so. -/

namespace P42Prizes

open Reverting Function Transition Finset

/-- The bonds of all disputes, and the challenger of the latest challenge of each submission. -/
structure DisputeBook where
  bonds : Escrow.Book (ℕ ⊕ ℕ) Address := []
  challengerOf : ℕ → Address := fun _ => 0

namespace DisputeBook

def post (i : ℕ ⊕ ℕ) (v : ℕ) (b : DisputeBook) : DisputeBook := { b with bonds := b.bonds.post i v }

def settle (i : ℕ ⊕ ℕ) (a : Address) (b : DisputeBook) : DisputeBook :=
  { b with bonds := b.bonds.settle i a }

def challengedBy (id : ℕ) (challenger : Address) (b : DisputeBook) : DisputeBook :=
  { b with challengerOf := update b.challengerOf id challenger }

end DisputeBook

/-- What an event does to the book of bonds. -/
def ChallengeEvent.book (d : Deployment) : ChallengeEvent → DisputeBook → DisputeBook
  | challenged id challenger _ bondWei _ _ _, b =>
      (b.post (.inl id) bondWei).challengedBy id challenger
  | resolverTranscriptPosted id _ _ _ _ _ bondWei _ _ _, b => b.post (.inr id) bondWei
  | resolved id wins _, b =>
      b.settle (.inl id) (if wins then b.challengerOf id else d.cm.treasury)
  | resolverDecisionCancelled id challenger _ _, b => b.settle (.inl id) challenger
  | challengeExpired id challenger _ _, b => b.settle (.inl id) challenger
  | resolverBondReleased id resolver _ _, b => b.settle (.inr id) resolver
  | resolverBondSlashed id beneficiary _ _ _, b => b.settle (.inr id) beneficiary
  | _, b => b

/-- What an event says was paid to `a`. -/
def ChallengeEvent.paidTo (a : Address) : ChallengeEvent → ℕ
  | bondClaimed claimant amount => if claimant = a then amount else 0
  | _ => 0

theorem ChallengeEvent.book_settledTo (d : Deployment) (ev : ChallengeEvent) {b : DisputeBook}
    {n : ℕ} {p : Escrow.Posting (ℕ ⊕ ℕ) Address} {a : Address} (h : b.bonds.SettledTo n p a) :
    (ev.book d b).bonds.SettledTo n p a := by
  cases ev with
  | challenged => exact h.post _ _
  | resolverTranscriptPosted => exact h.post _ _
  | resolved => exact h.settle _ _
  | resolverDecisionCancelled => exact h.settle _ _
  | challengeExpired => exact h.settle _ _
  | resolverBondReleased => exact h.settle _ _
  | resolverBondSlashed => exact h.settle _ _
  | _ => exact h

namespace ChallengeManager

variable {d : Deployment} {e : Env} {s s' : SubmissionManager} {c c' t : ChallengeManager}

/-- The book of all bonds. -/
def disputeBook (d : Deployment) (c : ChallengeManager) : DisputeBook :=
  c.logs.foldr (ChallengeEvent.book d) {}

/-- What `a` has withdrawn so far. -/
def withdrawn (c : ChallengeManager) (a : Address) : ℕ := (c.logs.map (ChallengeEvent.paidTo a)).sum

/-- The counter-bond of an open challenge. -/
def counterBond (c : ChallengeManager) (id : ℕ) : ℕ :=
  if (c.challenges id).challenger ≠ 0 ∧ (c.challenges id).resolved = false then
    (c.challenges id).challengeBondWei
  else 0

/-- The bond of a pending decision. -/
def decisionBond (c : ChallengeManager) (id : ℕ) : ℕ := (c.resolverBonds id).amountWei

/-- The bonds of the submissions up to `n`. -/
def bondKeys (n : ℕ) : Finset (ℕ ⊕ ℕ) := (range (n + 1)).disjSum (range (n + 1))

/-- The bonds of the disputes; `sent` is what suspended withdrawals have sent. -/
def vault (d : Deployment) (n : ℕ) (sent : Address → ℕ) (c : ChallengeManager) :
    Escrow.Vault (ℕ ⊕ ℕ) Address where
  escrow := ⟨Sum.elim c.counterBond c.decisionBond, c.claimableBondWei⟩
  book := (c.disputeBook d).bonds
  out a := c.withdrawn a + sent a
  balance := c.balance
  surplus := c.forcedEth
  keys := bondKeys n

/-- What the slot of `id` holds between two calls, the submissions being numbered up to `n`. -/
structure Slotted (d : Deployment) (n : ℕ) (c : ChallengeManager) (id : ℕ) : Prop where
  pending : (c.challenges id).decisionPending = true →
    (c.challenges id).challenger ≠ 0 ∧ (c.challenges id).resolved = false ∧
      c.resolverBondBeneficiaryOf id ≠ 0
  amount : (c.resolverBonds id).amountWei ≠ 0 ↔ (c.challenges id).decisionPending = true
  counted : (c.challenges id).challenger ≠ 0 → id ≤ n
  challenger : (c.challenges id).challenger ≠ 0 →
    (c.disputeBook d).challengerOf id = (c.challenges id).challenger
  counterOpen : (c.disputeBook d).bonds.Open (.inl id) ↔
    (c.challenges id).challenger ≠ 0 ∧ (c.challenges id).resolved = false
  decisionOpen : (c.disputeBook d).bonds.Open (.inr id) ↔
    (c.challenges id).decisionPending = true

theorem Slotted.mono {n m id : ℕ} (h : Slotted d n c id) (hle : n ≤ m) : Slotted d m c id :=
  { h with counted := fun hch => le_trans (h.counted hch) hle }

/-- A slot that is left alone. -/
theorem Slotted.congr {n id : ℕ} (h : Slotted d n c id) (hch : t.challenges id = c.challenges id)
    (hbond : t.resolverBonds id = c.resolverBonds id)
    (hbeneficiary : t.resolverBondBeneficiaryOf id = c.resolverBondBeneficiaryOf id)
    (hchallenger : (t.disputeBook d).challengerOf id = (c.disputeBook d).challengerOf id)
    (hcounter : (t.disputeBook d).bonds.Open (.inl id) ↔ (c.disputeBook d).bonds.Open (.inl id))
    (hdecision : (t.disputeBook d).bonds.Open (.inr id) ↔ (c.disputeBook d).bonds.Open (.inr id)) :
    Slotted d n t id := by
  refine ⟨?_, ?_, ?_, ?_, ?_, ?_⟩
  · rw [hch, hbeneficiary]
    exact h.pending
  · rw [hch, hbond]
    exact h.amount
  · rw [hch]
    exact h.counted
  · rw [hch, hchallenger]
    exact h.challenger
  · rw [hch, hcounter]
    exact h.counterOpen
  · rw [hch, hdecision]
    exact h.decisionOpen

/-- Without a pending decision there is no decision bond. -/
theorem Slotted.decisionBond_eq_zero {n id : ℕ} (h : Slotted d n c id)
    (hpending : (c.challenges id).decisionPending = false) : c.decisionBond id = 0 := by
  by_contra hne
  have hpending' := h.amount.mp hne
  rw [hpending] at hpending'
  cases hpending'

theorem disputeBook_note (evs : List ChallengeEvent) (c : ChallengeManager) :
    (c.note evs).disputeBook d = evs.foldr (ChallengeEvent.book d) (c.disputeBook d) :=
  List.foldr_append

theorem withdrawn_note {evs : List ChallengeEvent} (h : ∀ a, (evs.map (ChallengeEvent.paidTo a)).sum = 0)
    (c : ChallengeManager) : (c.note evs).withdrawn = c.withdrawn := by
  funext a
  show ((evs ++ c.logs).map (ChallengeEvent.paidTo a)).sum = _
  rw [List.map_append, List.sum_append, h, zero_add]
  rfl

/-! ### Opening and deciding -/

theorem slotted_challenge {n id endsAt : ℕ} {revealHash reasonHash hash : Bytes32}
    (h : ∀ j, Slotted d n c j) (hid : id ≤ n) (hslot : (c.challenges id).challenger = 0)
    (hsender : e.sender ≠ 0)
    (ht : t = ((c.setInstance id revealHash hash).setChallenge id
      (newChallenge e id reasonHash endsAt)).note
        [.challenged id e.sender reasonHash e.value endsAt revealHash hash]) (j : ℕ) :
    Slotted d n t j := by
  have hbook : t.disputeBook d =
      ((c.disputeBook d).post (.inl id) e.value).challengedBy id e.sender := by
    rw [ht, disputeBook_note]
    rfl
  have hchallenges : t.challenges = update c.challenges id (newChallenge e id reasonHash endsAt) := by
    rw [ht]
    rfl
  have hbonds : t.resolverBonds = c.resolverBonds := by rw [ht]; rfl
  have hbeneficiary : t.resolverBondBeneficiaryOf = c.resolverBondBeneficiaryOf := by rw [ht]; rfl
  have hpending : (c.challenges id).decisionPending = false := by
    by_contra hne
    exact ((h id).pending (Bool.not_eq_false _ ▸ hne)).1 hslot
  by_cases hj : j = id
  · subst hj
    refine ⟨?_, ?_, fun _ => hid, ?_, ?_, ?_⟩
    · rw [hchallenges, update_self]
      exact nofun
    · rw [hbonds, hchallenges, update_self, (h j).amount, hpending]
      rfl
    · intro _
      rw [hbook, hchallenges, update_self]
      exact update_self ..
    · rw [hbook, hchallenges, update_self]
      exact iff_of_true (Escrow.Book.open_post .. |>.mpr (Or.inl rfl)) ⟨hsender, rfl⟩
    · rw [hbook, hchallenges, update_self]
      refine (Escrow.Book.open_post ..).trans ?_
      rw [(h j).decisionOpen, hpending]
      simp [newChallenge]
  · refine (h j).congr ?_ (by rw [hbonds]) (by rw [hbeneficiary]) ?_ ?_ ?_
    · rw [hchallenges, update_of_ne hj]
    · rw [hbook]
      exact update_of_ne hj ..
    · rw [hbook]
      exact (Escrow.Book.open_post ..).trans (by simp [hj])
    · rw [hbook]
      exact (Escrow.Book.open_post ..).trans (by simp)

theorem slotted_decide {n id v : ℕ} {ch : Challenge} {bond : ResolverBond} {beneficiary : Address}
    {ev : ChallengeEvent} (h : ∀ j, Slotted d n c j) (hslot : (c.challenges id).challenger ≠ 0)
    (hresolved : (c.challenges id).resolved = false) (hbeneficiary : beneficiary ≠ 0)
    (hbond : bond.amountWei = v) (hv : 0 < v) (hpending : ch.decisionPending = true)
    (hsame : ch.challenger = (c.challenges id).challenger ∧ ch.resolved = (c.challenges id).resolved)
    (hev : ∀ b, ev.book d b = b.post (.inr id) v)
    (ht : t = ((c.setChallenge id ch).setBond id bond beneficiary).note [ev]) (j : ℕ) :
    Slotted d n t j := by
  have hbook : t.disputeBook d = (c.disputeBook d).post (.inr id) v := by
    rw [ht, disputeBook_note, ← hev]
    rfl
  have hchallenges : t.challenges = update c.challenges id ch := by rw [ht]; rfl
  have hbonds : t.resolverBonds = update c.resolverBonds id bond := by rw [ht]; rfl
  have hbeneficiaries : t.resolverBondBeneficiaryOf =
      update c.resolverBondBeneficiaryOf id beneficiary := by rw [ht]; rfl
  have hcounter : ∀ k, (t.disputeBook d).bonds.Open (.inl k) ↔
      (c.disputeBook d).bonds.Open (.inl k) := by
    intro k
    rw [hbook]
    exact (Escrow.Book.open_post ..).trans (by simp)
  by_cases hj : j = id
  · subst hj
    refine ⟨?_, ?_, ?_, ?_, ?_, ?_⟩
    · rw [hchallenges, hbeneficiaries, update_self, update_self, hsame.1, hsame.2]
      exact fun _ => ⟨hslot, hresolved, hbeneficiary⟩
    · rw [hbonds, hchallenges, update_self, update_self, hbond]
      exact iff_of_true hv.ne' hpending
    · rw [hchallenges, update_self, hsame.1]
      exact (h j).counted
    · rw [hchallenges, update_self, hsame.1, hbook]
      exact (h j).challenger
    · rw [hcounter, hchallenges, update_self, hsame.1, hsame.2]
      exact (h j).counterOpen
    · rw [hbook, hchallenges, update_self]
      exact iff_of_true (Escrow.Book.open_post .. |>.mpr (Or.inl rfl)) hpending
  · refine (h j).congr ?_ ?_ ?_ (by rw [hbook]; rfl) (hcounter j) ?_
    · rw [hchallenges, update_of_ne hj]
    · rw [hbonds, update_of_ne hj]
    · rw [hbeneficiaries, update_of_ne hj]
    · rw [hbook]
      exact (Escrow.Book.open_post ..).trans (by simp [hj])

/-! ### Ending -/

/-- The slot `ch` is what a dispute that ended leaves of `old`. -/
structure Ended (old ch : Challenge) : Prop where
  pending : ch.decisionPending = false
  deadline : ch.disputeEndsAt ≤ old.disputeEndsAt
  resolved : ch.challenger ≠ 0 → ch.resolved = true ∧ ch.challenger = old.challenger

theorem ended_empty (old : Challenge) : Ended old {} :=
  ⟨rfl, Nat.zero_le _, fun h => absurd rfl h⟩

theorem ended_closedSlot (old : Challenge) (wins : Bool) : Ended old (closedSlot old wins) := by
  cases wins with
  | true => exact ⟨rfl, le_rfl, fun _ => ⟨rfl, rfl⟩⟩
  | false => exact ended_empty old

theorem Ended.not_open {old ch : Challenge} (h : Ended old ch) :
    ¬ (ch.challenger ≠ 0 ∧ ch.resolved = false) := by
  rintro ⟨hch, hres⟩
  rw [(h.resolved hch).1] at hres
  cases hres

/-- A dispute that ends with both bonds settled. -/
theorem slotted_settleDispute {n id : ℕ} {ch : Challenge} {bond : ResolverBond} {W B : Address}
    {evs : List ChallengeEvent} (h : ∀ j, Slotted d n c j) (hch : Ended (c.challenges id) ch)
    (hbond : bond.amountWei = 0) (ht : t = (c.settleDispute id ch bond W B).note evs)
    (hbook : t.disputeBook d = ((c.disputeBook d).settle (.inr id) B).settle (.inl id) W) (j : ℕ) :
    Slotted d n t j := by
  have hchallenges : t.challenges = update c.challenges id ch := by rw [ht]; rfl
  have hbonds : t.resolverBonds = update c.resolverBonds id bond := by rw [ht]; rfl
  have hbeneficiaries : t.resolverBondBeneficiaryOf = update c.resolverBondBeneficiaryOf id 0 := by
    rw [ht]
    rfl
  have hopen : ∀ k, (t.disputeBook d).bonds.Open k ↔
      k ≠ .inl id ∧ k ≠ .inr id ∧ (c.disputeBook d).bonds.Open k := by
    intro k
    rw [hbook]
    refine (Escrow.Book.open_settle ..).trans (and_congr_right (fun _ => ?_))
    exact Escrow.Book.open_settle ..
  by_cases hj : j = id
  · subst hj
    refine ⟨?_, ?_, ?_, ?_, ?_, ?_⟩
    · rw [hchallenges, update_self, hch.pending]
      exact nofun
    · rw [hbonds, hchallenges, update_self, update_self, hbond, hch.pending]
      simp
    · rw [hchallenges, update_self]
      exact fun hne => (h j).counted ((hch.resolved hne).2 ▸ hne)
    · rw [hchallenges, update_self, hbook]
      intro hne
      have hsame := (hch.resolved hne).2
      rw [hsame]
      exact (h j).challenger (hsame ▸ hne)
    · rw [hopen, hchallenges, update_self]
      exact iff_of_false (fun hk => hk.1 rfl) hch.not_open
    · rw [hopen, hchallenges, update_self, hch.pending]
      exact iff_of_false (fun hk => hk.2.1 rfl) nofun
  · refine (h j).congr ?_ ?_ ?_ (by rw [hbook]; rfl) ?_ ?_
    · rw [hchallenges, update_of_ne hj]
    · rw [hbonds, update_of_ne hj]
    · rw [hbeneficiaries, update_of_ne hj]
    · exact (hopen _).trans (by simp [hj])
    · exact (hopen _).trans (by simp [hj])

/-- A dispute that ends with the counter-bond returned. -/
theorem slotted_refundDispute {n id : ℕ} {evs : List ChallengeEvent} (h : ∀ j, Slotted d n c j)
    (hpending : (c.challenges id).decisionPending = false) (ht : t = (c.refundDispute id).note evs)
    (hbook : t.disputeBook d =
      (c.disputeBook d).settle (.inl id) (c.challenges id).challenger) (j : ℕ) :
    Slotted d n t j := by
  have hchallenges : t.challenges = update c.challenges id {} := by rw [ht]; rfl
  have hbonds : t.resolverBonds = c.resolverBonds := by rw [ht]; rfl
  have hbeneficiaries : t.resolverBondBeneficiaryOf = c.resolverBondBeneficiaryOf := by
    rw [ht]
    rfl
  have hopen : ∀ k, (t.disputeBook d).bonds.Open k ↔
      k ≠ .inl id ∧ (c.disputeBook d).bonds.Open k := by
    intro k
    rw [hbook]
    exact Escrow.Book.open_settle ..
  by_cases hj : j = id
  · subst hj
    refine ⟨?_, ?_, ?_, ?_, ?_, ?_⟩
    · rw [hchallenges, update_self]
      exact nofun
    · rw [hbonds, hchallenges, update_self, (h j).amount, hpending]
    · rw [hchallenges, update_self]
      exact fun hne => absurd rfl hne
    · rw [hchallenges, update_self]
      exact fun hne => absurd rfl hne
    · rw [hopen, hchallenges, update_self]
      exact iff_of_false (fun hk => hk.1 rfl) (ended_empty (c.challenges j)).not_open
    · rw [hopen, hchallenges, update_self, (h j).decisionOpen, hpending]
      exact iff_of_false (fun hk => nomatch hk.2) nofun
  · refine (h j).congr ?_ (by rw [hbonds]) (by rw [hbeneficiaries]) (by rw [hbook]; rfl) ?_ ?_
    · rw [hchallenges, update_of_ne hj]
    · exact (hopen _).trans (by simp [hj])
    · exact (hopen _).trans (by simp)

/-- A slot does not look at the money. -/
theorem slotted_money {n : ℕ} (h : ∀ j, Slotted d n c j) (hch : t.challenges = c.challenges)
    (hbond : t.resolverBonds = c.resolverBonds)
    (hbeneficiary : t.resolverBondBeneficiaryOf = c.resolverBondBeneficiaryOf)
    (hbook : t.disputeBook d = c.disputeBook d) (j : ℕ) : Slotted d n t j :=
  (h j).congr (by rw [hch]) (by rw [hbond]) (by rw [hbeneficiary]) (by rw [hbook]) (by rw [hbook])
    (by rw [hbook])

/-- The challenged submission exists. -/
theorem challenged_le {id : ℕ} (hr : SubmissionManager.Registered s.submissionCount s.entry)
    (hmark : s.markChallenged e id = .ok s') : id ≤ s.submissionCount := by
  obtain ⟨-, hsolver, -⟩ := SubmissionManager.markChallenged_eq_ok.mp hmark
  exact ((hr.solver id).mp hsolver).2

theorem Slotted.book_released {n id v : ℕ} {hash : Bytes32} {wins : Bool} {B : Address}
    (h : Slotted d n c id) (hch : (c.challenges id).challenger ≠ 0) (hlogs : t.logs = c.logs) :
    (t.note [.resolved id wins hash, .resolverBondReleased id B v hash]).disputeBook d =
      ((c.disputeBook d).settle (.inr id) B).settle (.inl id) (winnerOf d (c.challenges id) wins) := by
  rw [disputeBook_note, disputeBook, hlogs]
  show ((c.disputeBook d).settle (.inr id) B).settle (.inl id)
    (if wins then (c.disputeBook d).challengerOf id else d.cm.treasury) = _
  rw [h.challenger hch]
  rfl

theorem Slotted.book_objective {n id v : ℕ} {hash proofHash : Bytes32} {wins : Bool} {B : Address}
    (h : Slotted d n c id) (hch : (c.challenges id).challenger ≠ 0) (hlogs : t.logs = c.logs) :
    (t.note [.resolved id wins hash, .objectiveFraudProven id B proofHash wins v hash,
        .resolverBondSlashed id B v proofHash hash]).disputeBook d =
      ((c.disputeBook d).settle (.inr id) B).settle (.inl id) (winnerOf d (c.challenges id) wins) :=
  Slotted.book_released (v := v) h hch hlogs

theorem book_expired {id v : ℕ} {hash : Bytes32} {a : Address} (hlogs : t.logs = c.logs) :
    (t.note [.resolved id false hash, .challengeExpired id a v hash]).disputeBook d =
      (c.disputeBook d).settle (.inl id) a := by
  rw [disputeBook_note, disputeBook, hlogs]
  show ((c.disputeBook d).settle (.inl id) a).settle (.inl id) d.cm.treasury = _
  rw [DisputeBook.settle, DisputeBook.settle, Escrow.Book.settle_settle]

/-- Every call keeps the slots. -/
theorem Move.slotted {a : ChallengeCall} {f : List Frame} (hmove : Move d e s c a c' s' f)
    (hr : SubmissionManager.Registered s.submissionCount s.entry) (hsender : e.sender ≠ 0)
    (h : ∀ j, Slotted d s.submissionCount c j) : ∀ j, Slotted d s.submissionCount c' j := by
  cases hmove with
  | administer => exact slotted_money h rfl rfl rfl rfl
  | challenge _ hslot hmark =>
      exact slotted_challenge h (challenged_le hr hmark) hslot hsender rfl
  | decide hch hres _ hvalue hbeneficiary hch' hbond _ =>
      refine slotted_decide h hch hres hbeneficiary hbond hvalue ?_ ?_ (fun _ => rfl) rfl
      · rw [hch']
      · rw [hch']
        exact ⟨rfl, rfl⟩
  | @finalizeResolution id _ wins _ _ _ hch _ _ hW =>
      subst hW
      exact slotted_settleDispute h (ended_closedSlot _ wins) rfl rfl ((h id).book_released hch rfl)
  | expire _ _ hpending => exact slotted_refundDispute h hpending rfl (book_expired rfl)
  | slash => exact slotted_settleDispute h (ended_empty _) rfl rfl rfl
  | @objective id _ _ wins _ _ hch =>
      exact slotted_settleDispute h (ended_closedSlot _ wins) rfl rfl ((h id).book_objective hch rfl)
  | withdraw => exact slotted_money h rfl rfl rfl rfl

/-! ### The vault under the calls -/

variable (sent : Address → ℕ)

/-- A bond of `n` is posted under `i`. -/
theorem sound_deposit {n v : ℕ} {i : ℕ ⊕ ℕ} (h : (t.vault d n sent).Sound) (hi : i ∈ bondKeys n)
    (hheld : Sum.elim c.counterBond c.decisionBond =
      update (Sum.elim t.counterBond t.decisionBond) i
        (Sum.elim t.counterBond t.decisionBond i + v))
    (hbook : (c.disputeBook d).bonds = (t.disputeBook d).bonds.post i v)
    (hout : c.withdrawn = t.withdrawn) (hclaim : c.claimableBondWei = t.claimableBondWei)
    (hbalance : c.balance = t.balance + v) (hforced : c.forcedEth = t.forcedEth) :
    (c.vault d n sent).Sound := by
  have hvault : c.vault d n sent = (t.vault d n sent).deposit i v := by
    rw [vault, hheld, hbook, hout, hclaim, hbalance, hforced, ← insert_eq_self.mpr hi]
    rfl
  rw [hvault]
  exact h.deposit i v

theorem counterBond_update (id : ℕ) (ch : Challenge) (hch : t.challenges = update c.challenges id ch) :
    t.counterBond = update c.counterBond id
      (if ch.challenger ≠ 0 ∧ ch.resolved = false then ch.challengeBondWei else 0) := by
  funext j
  rw [counterBond, hch]
  by_cases hj : j = id
  · subst hj
    rw [update_self, update_self]
  · rw [update_of_ne hj, update_of_ne hj]
    rfl

theorem decisionBond_update (id : ℕ) (bond : ResolverBond)
    (hbond : t.resolverBonds = update c.resolverBonds id bond) :
    t.decisionBond = update c.decisionBond id bond.amountWei := by
  funext j
  rw [decisionBond, hbond]
  by_cases hj : j = id
  · subst hj
    rw [update_self, update_self]
  · rw [update_of_ne hj, update_of_ne hj]
    rfl

/-- Both bonds of a dispute are settled. -/
theorem sound_settleDispute {n id : ℕ} {ch : Challenge} {bond : ResolverBond} {W B : Address}
    {evs : List ChallengeEvent} (h : (c.vault d n sent).Sound)
    (hopen : (c.challenges id).challenger ≠ 0 ∧ (c.challenges id).resolved = false)
    (hch : Ended (c.challenges id) ch) (hbond : bond.amountWei = 0)
    (ht : t = (c.settleDispute id ch bond W B).note evs)
    (hbook : t.disputeBook d = ((c.disputeBook d).settle (.inr id) B).settle (.inl id) W)
    (hpaid : ∀ a, (evs.map (ChallengeEvent.paidTo a)).sum = 0) : (t.vault d n sent).Sound := by
  have hcounter : t.counterBond = update c.counterBond id 0 := by
    rw [counterBond_update (c := c) id ch (by rw [ht]; rfl), if_neg hch.not_open]
  have hdecision : t.decisionBond = update c.decisionBond id 0 := by
    rw [decisionBond_update (c := c) id bond (by rw [ht]; rfl), hbond]
  have hwithdrawn : t.withdrawn = c.withdrawn := by
    rw [ht, withdrawn_note hpaid]
    rfl
  have hclaim : t.claimableBondWei =
      ((c.creditTo B (c.resolverBonds id).amountWei).creditTo W
        (c.challenges id).challengeBondWei).claimableBondWei := by
    rw [creditTo_comm, ht]
    rfl
  have hcounterBond : c.counterBond id = (c.challenges id).challengeBondWei := if_pos hopen
  have hvault : t.vault d n sent =
      ((c.vault d n sent).settle (.inr id) B).settle (.inl id) W := by
    rw [vault, hcounter, hdecision, hwithdrawn, hclaim, hbook]
    have hbalance : t.balance = c.balance ∧ t.forcedEth = c.forcedEth := by rw [ht]; exact ⟨rfl, rfl⟩
    rw [hbalance.1, hbalance.2, ← hcounterBond]
    simp only [Escrow.Vault.settle, Escrow.settle, vault, creditTo, Sum.update_elim_inl,
      Sum.update_elim_inr, Sum.elim_inl, Sum.elim_inr, DisputeBook.settle]
    rfl
  rw [hvault]
  exact (h.settle _ _).settle _ _

/-- The counter-bond of a dispute is returned. -/
theorem sound_refundDispute {n id : ℕ} {evs : List ChallengeEvent} (h : (c.vault d n sent).Sound)
    (hopen : (c.challenges id).challenger ≠ 0 ∧ (c.challenges id).resolved = false)
    (ht : t = (c.refundDispute id).note evs)
    (hbook : t.disputeBook d = (c.disputeBook d).settle (.inl id) (c.challenges id).challenger)
    (hpaid : ∀ a, (evs.map (ChallengeEvent.paidTo a)).sum = 0) : (t.vault d n sent).Sound := by
  have hcounter : t.counterBond = update c.counterBond id 0 := by
    rw [counterBond_update (c := c) id {} (by rw [ht]; rfl),
      if_neg (ended_empty (c.challenges id)).not_open]
  have hwithdrawn : t.withdrawn = c.withdrawn := by
    rw [ht, withdrawn_note hpaid]
    rfl
  have hcounterBond : c.counterBond id = (c.challenges id).challengeBondWei := if_pos hopen
  have hclaim : t.claimableBondWei =
      (c.creditTo (c.challenges id).challenger (c.counterBond id)).claimableBondWei := by
    rw [hcounterBond, ht]
    rfl
  have hsame : t.balance = c.balance ∧ t.forcedEth = c.forcedEth ∧ t.decisionBond = c.decisionBond := by
    rw [ht]
    exact ⟨rfl, rfl, rfl⟩
  have hvault : t.vault d n sent =
      (c.vault d n sent).settle (.inl id) (c.challenges id).challenger := by
    rw [vault, hcounter, hwithdrawn, hclaim, hbook, hsame.1, hsame.2.1, hsame.2.2]
    simp only [Escrow.Vault.settle, Escrow.settle, vault, creditTo, Sum.update_elim_inl,
      Sum.elim_inl, DisputeBook.settle]
  rw [hvault]
  exact h.settle _ _

theorem mem_bondKeys {n id : ℕ} (hid : id ≤ n) : .inl id ∈ bondKeys n ∧ .inr id ∈ bondKeys n := by
  have hmem : id ∈ range (n + 1) := mem_range.mpr (by omega)
  exact ⟨inl_mem_disjSum.mpr hmem, inr_mem_disjSum.mpr hmem⟩

/-- Every call keeps the vault sound; its ETH has arrived. -/
theorem Move.sound {a : ChallengeCall} {f : List Frame}
    (hmove : Move d e s { t with balance := t.balance + e.value } a c' s' f)
    {sent' : Address → ℕ} (hsent : ∀ b, sent' b = inFlight (Frame.challengeBondOf b) f + sent b)
    (hpay : e.value = 0 ∨ (Call.challenge a).payable = true) (hsender : e.sender ≠ 0)
    (hr : SubmissionManager.Registered s.submissionCount s.entry)
    (hslots : ∀ j, Slotted d s.submissionCount t j)
    (h : (t.vault d s.submissionCount sent).Sound) :
    (c'.vault d s.submissionCount sent').Sound := by
  have hkeep : f = [] → sent' = sent := by
    rintro rfl
    funext b
    rw [hsent, inFlight_nil, zero_add]
  -- without ETH the call starts in `t`
  have hfree : e.value = 0 → { t with balance := t.balance + e.value } = t := by
    intro hvalue
    rw [hvalue]
    rfl
  generalize hc : ({ t with balance := t.balance + e.value } : ChallengeManager) = c at hmove
  have hopen : ∀ {id}, (t.challenges id).decisionPending = true →
      (t.challenges id).challenger ≠ 0 ∧ (t.challenges id).resolved = false :=
    fun hpending => ⟨((hslots _).pending hpending).1, ((hslots _).pending hpending).2.1⟩
  cases hmove with
  | administer =>
      rw [hkeep rfl]
      obtain rfl : t = c := (hfree (hpay.resolve_right nofun)).symm.trans hc
      rw [vault, withdrawn_note (fun _ => rfl)]
      exact h
  | @challenge id endsAt revealHash reasonHash hash _ _ hslot hmark =>
      rw [hkeep rfl]
      subst hc
      have hcounter : t.counterBond id = 0 := if_neg (fun hopen => hopen.1 hslot)
      refine sound_deposit (v := e.value) sent h (mem_bondKeys (challenged_le hr hmark)).1 ?_ rfl
        (withdrawn_note (fun _ => rfl) _) rfl rfl rfl
      rw [Sum.update_elim_inl, Sum.elim_inl, hcounter, zero_add,
        counterBond_update (c := t) id (newChallenge e id reasonHash endsAt) rfl,
        if_pos ⟨hsender, rfl⟩]
      rfl
  | @decide _ id ch bond beneficiary _ _ _ _ hslot hres hpending _ _ hch' hbond _ =>
      rw [hkeep rfl]
      subst hc
      have hzero := (hslots id).decisionBond_eq_zero hpending
      have hcounter : ch.challenger = (t.challenges id).challenger ∧
          ch.resolved = (t.challenges id).resolved ∧
          ch.challengeBondWei = (t.challenges id).challengeBondWei := by
        rw [hch']
        exact ⟨rfl, rfl, rfl⟩
      refine sound_deposit (v := e.value) (i := .inr id) sent h
        (mem_bondKeys ((hslots id).counted hslot)).2 ?_ rfl (withdrawn_note (fun _ => rfl) _) rfl rfl rfl
      rw [Sum.update_elim_inr, Sum.elim_inr, hzero, zero_add,
        counterBond_update (c := t) id ch rfl,
        decisionBond_update (c := t) id bond rfl, hbond, hcounter.1, hcounter.2.1,
        hcounter.2.2]
      congr 1
      exact update_eq_self id t.counterBond
  | @finalizeResolution id _ wins _ _ _ hslot hpending _ hW =>
      rw [hkeep rfl]
      obtain rfl : t = c := (hfree (hpay.resolve_right nofun)).symm.trans hc
      subst hW
      exact sound_settleDispute sent h (hopen hpending) (ended_closedSlot _ wins) rfl rfl
        ((hslots id).book_released hslot rfl) (fun _ => rfl)
  | expire hslot hres =>
      rw [hkeep rfl]
      obtain rfl : t = c := (hfree (hpay.resolve_right nofun)).symm.trans hc
      exact sound_refundDispute sent h ⟨hslot, hres⟩ rfl (book_expired rfl) (fun _ => rfl)
  | slash _ hpending =>
      rw [hkeep rfl]
      obtain rfl : t = c := (hfree (hpay.resolve_right nofun)).symm.trans hc
      exact sound_settleDispute sent h (hopen hpending) (ended_empty _) rfl rfl rfl (fun _ => rfl)
  | @objective id _ _ wins _ _ hslot hpending =>
      rw [hkeep rfl]
      obtain rfl : t = c := (hfree (hpay.resolve_right nofun)).symm.trans hc
      exact sound_settleDispute sent h (hopen hpending) (ended_closedSlot _ wins) rfl rfl
        ((hslots id).book_objective hslot rfl) (fun _ => rfl)
  | withdraw =>
      obtain rfl : t = c := (hfree (hpay.resolve_right nofun)).symm.trans hc
      have hout : (fun b => t.withdrawn b + sent' b) = update (fun b => t.withdrawn b + sent b)
          e.sender (t.withdrawn e.sender + sent e.sender + t.claimableBondWei e.sender) := by
        funext b
        rw [hsent b, inFlight_cons, inFlight_nil]
        by_cases hb : b = e.sender
        · subst hb
          rw [update_self]
          simp only [Frame.challengeBondOf, if_true]
          omega
        · rw [update_of_ne hb]
          have hne : ¬ e.sender = b := fun heq => hb heq.symm
          simp only [Frame.challengeBondOf, hne, if_false]
          omega
      have hvault : (t.withdraw e.sender).vault d s.submissionCount sent' =
          (t.vault d s.submissionCount sent).withdraw e.sender := by
        show Escrow.Vault.mk _ _ (fun b => t.withdrawn b + sent' b) _ _ _ = _
        rw [hout]
        rfl
      rw [hvault]
      exact h.withdraw e.sender

theorem creditTo_claimable (a b : Address) (v : ℕ) :
    (c.creditTo a v).claimableBondWei b = c.claimableBondWei b + if b = a then v else 0 := by
  by_cases hb : b = a
  · subst hb
    simp [creditTo]
  · simp [creditTo, hb]

theorem settleDispute_claimable (id : ℕ) (ch : Challenge) (bond : ResolverBond) (W B a : Address) :
    (c.settleDispute id ch bond W B).claimableBondWei a = c.claimableBondWei a +
      (if a = W then (c.challenges id).challengeBondWei else 0) +
      (if a = B then (c.resolverBonds id).amountWei else 0) := by
  rw [settleDispute, creditTo_claimable, creditTo_claimable]
  rfl

end ChallengeManager

/-! ### The disputes of a board -/

/-- The bonds of the disputes of a board. -/
def World.disputeVault (d : Deployment) (w : World) : Escrow.Vault (ℕ ⊕ ℕ) Address :=
  w.cm.vault d w.sm.submissionCount (fun a => inFlight (Frame.challengeBondOf a) w.frames)

structure SoundDisputes (d : Deployment) (w : World) : Prop where
  slots : ∀ id, w.cm.Slotted d w.sm.submissionCount id
  vault : (w.disputeVault d).Sound

/-- New submissions bring no bonds. -/
theorem ChallengeManager.sound_widen {d : Deployment} {n m : ℕ} {sent : Address → ℕ}
    {c : ChallengeManager} (h : (c.vault d n sent).Sound) (hle : n ≤ m) :
    (c.vault d m sent).Sound :=
  h.widen (disjSum_mono (range_mono (by omega)) (range_mono (by omega)))

theorem soundDisputes_step {d : Deployment} {w w' : World} {a : Action}
    (hr : SubmissionManager.Registered w.sm.submissionCount w.sm.entry) (h : SoundDisputes d w)
    (hstep : w.step d a = some w') : SoundDisputes d w' := by
  have hcount := submissionCount_le hstep
  cases challenge_stepped hstep with
  | quiet hcm hframes _ _ =>
      refine ⟨fun id => ?_, ?_⟩
      · rw [hcm]
        exact (h.slots id).mono hcount
      · rw [World.disputeVault, hcm, funext hframes]
        exact ChallengeManager.sound_widen h.vault hcount
  | eth amount _ hcm hsm hframes =>
      refine ⟨?_, ?_⟩
      · rw [hcm, hsm]
        exact ChallengeManager.slotted_money h.slots rfl rfl rfl rfl
      · have hvault : w'.disputeVault d = (w.disputeVault d).donate amount := by
          rw [World.disputeVault, hcm, hsm, hframes]
          rfl
        rw [hvault]
        exact h.vault.donate amount
  | finish claimant amount hframes hcm hsm =>
      refine ⟨?_, ?_⟩
      · rw [hcm, hsm]
        exact ChallengeManager.slotted_money h.slots rfl rfl rfl rfl
      · have hout : ∀ b, (w.cm.finishClaimBond claimant amount).withdrawn b +
            inFlight (Frame.challengeBondOf b) w'.frames =
              w.cm.withdrawn b + inFlight (Frame.challengeBondOf b) w.frames := by
          intro b
          rw [hframes, inFlight_cons]
          show (ChallengeEvent.bondClaimed claimant amount).paidTo b + w.cm.withdrawn b + _ = _
          simp only [ChallengeEvent.paidTo, Frame.challengeBondOf]
          omega
        have hvault : w'.disputeVault d = w.disputeVault d := by
          rw [World.disputeVault, World.disputeVault, hcm, hsm]
          show Escrow.Vault.mk _ _ (fun b => (w.cm.finishClaimBond claimant amount).withdrawn b +
            inFlight (Frame.challengeBondOf b) w'.frames) _ _ _ = _
          simp only [hout]
          rfl
        rw [hvault]
        exact h.vault
  | call e c f _ _ hsender hpay _ _ hrun _ _ hframes =>
      have hmove := ChallengeManager.move_of_run hsender.ne.1 hrun
      have hslots := hmove.slotted hr hsender.ne.1
        (ChallengeManager.slotted_money h.slots rfl rfl rfl rfl)
      have hsent : ∀ b, inFlight (Frame.challengeBondOf b) w'.frames =
          inFlight (Frame.challengeBondOf b) f + inFlight (Frame.challengeBondOf b) w.frames := by
        intro b
        rw [hframes, inFlight_append]
      have hsound := hmove.sound _ hsent hpay hsender.ne.1 hr h.slots h.vault
      exact ⟨fun id => (hslots id).mono hcount, ChallengeManager.sound_widen hsound hcount⟩

theorem soundDisputes_of_reachable {d : Deployment} {C : World → Action → Prop} {w : World}
    (h : d.protocol.Reachable C w) : SoundDisputes d w := by
  refine h.invariant ?_ ?_
  · rintro _ ⟨block, wiring, -, -, rfl⟩
    refine ⟨fun id => ⟨nofun, ?_, fun hne => absurd rfl hne, fun hne => absurd rfl hne, ?_, ?_⟩,
      ⟨?_, ⟨?_, fun _ => rfl⟩, ?_⟩⟩
    · exact iff_of_false (fun hne => hne rfl) nofun
    · exact iff_of_false nofun (fun hopen => hopen.1 rfl)
    · exact iff_of_false nofun nofun
    · have hzero : ∑ i ∈ ChallengeManager.bondKeys 0,
          Sum.elim ({} : ChallengeManager).counterBond ({} : ChallengeManager).decisionBond i = 0 :=
        sum_eq_zero (by rintro (id | id) _ <;> rfl)
      simp only [World.disputeVault, ChallengeManager.vault, Deployment.genesis, Escrow.total,
        sum_const_zero, add_zero, zero_add]
      exact hzero.symm
    · rintro (id | id) <;> rfl
    · rintro (id | id) _ <;> rfl
  · intro w a w' hreach hP _ hstep
    exact soundDisputes_step (registered_of_reachable hreach) hP hstep

/-! ### Settled for good -/

theorem ChallengeManager.Move.logs {d : Deployment} {e : Env} {s s' : SubmissionManager}
    {c c' : ChallengeManager} {a : ChallengeCall} {f : List Frame} (h : Move d e s c a c' s' f) :
    c.logs <:+ c'.logs := by
  cases h with
  | withdraw => exact List.suffix_refl _
  | _ => exact List.suffix_append _ _

theorem challenge_logs {d : Deployment} {w w' : World} {a : Action} (h : w.step d a = some w') :
    w.cm.logs <:+ w'.cm.logs := by
  cases challenge_stepped h with
  | quiet hcm _ _ _ => rw [hcm]
  | eth amount _ hcm _ _ => rw [hcm]
  | finish claimant amount _ hcm _ =>
      rw [hcm]
      exact List.suffix_cons _ _
  | call e c f _ _ hsender _ _ _ hrun _ _ _ =>
      exact (ChallengeManager.move_of_run hsender.ne.1 hrun).logs

/-- What a bond was settled to stays so in every continuation. -/
theorem disputeSettledTo_run {d : Deployment} {C : World → Action → Prop} {w w' : World}
    {as : List Action} (h : d.protocol.Run C w as w') {n : ℕ} {p : Escrow.Posting (ℕ ⊕ ℕ) Address}
    {a : Address} (hp : (w.cm.disputeBook d).bonds.SettledTo n p a) :
    (w'.cm.disputeBook d).bonds.SettledTo n p a := by
  refine h.invariant (P := fun v => (v.cm.disputeBook d).bonds.SettledTo n p a) ?_ hp
  intro v b v' hv _ hstep
  obtain ⟨evs, hevs⟩ := challenge_logs hstep
  have hfold : ∀ evs : List ChallengeEvent,
      ((evs ++ v.cm.logs).foldr (ChallengeEvent.book d) {}).bonds.SettledTo n p a := by
    intro evs
    induction evs with
    | nil => exact hv
    | cons ev evs ih => exact ev.book_settledTo d ih
  rw [ChallengeManager.disputeBook, ← hevs]
  exact hfold evs

/-- The decision on `id` was refuted between `w` and `w'`: its bond went to `taker` and the
counter-bond to `winner`, and nothing went anywhere else. -/
structure Refuted (d : Deployment) (w w' : World) (id : ℕ) (taker winner : Address) : Prop where
  settled : (w'.cm.disputeBook d).bonds =
    ((w.cm.disputeBook d).bonds.settle (.inr id) taker).settle (.inl id) winner
  paid : ∀ a, w'.cm.claimableBondWei a = w.cm.claimableBondWei a +
    (if a = winner then (w.cm.challenges id).challengeBondWei else 0) +
    (if a = taker then (w.cm.resolverBonds id).amountWei else 0)
  cleared : (w'.cm.resolverBonds id).amountWei = 0 ∧ w'.cm.resolverBondBeneficiaryOf id = 0

theorem refuted_of_slash {d : Deployment} {w w' : World} {sender : Address} {value id : ℕ}
    {ext : External} {hash proofHash : Bytes32}
    (hstep : w.step d (.call sender value ext (.challenge (.slashResolverBond id hash proofHash))) =
      some w') : Refuted d w w' id d.cm.treasury (w.cm.challenges id).challenger := by
  cases stepped_of_step hstep with
  | challenge hsender _ _ hrun =>
      simp only [ChallengeCall.run, map_eq_ok, Prod.mk.injEq] at hrun
      obtain ⟨⟨_, _⟩, hrun, rfl, rfl, rfl⟩ := hrun
      obtain ⟨hch, -, -, rfl⟩ := ChallengeManager.slashResolverBond_ok hrun
      refine ⟨rfl, fun a => ?_, ?_, ?_⟩
      · exact ChallengeManager.settleDispute_claimable ..
      · show (update w.cm.resolverBonds id _ id).amountWei = 0
        rw [update_self]
      · exact update_self ..

theorem refuted_of_objective {d : Deployment} {w w' : World} {sender B : Address} {value id : ℕ}
    {ext : External} {hash proofHash : Bytes32} {wins : Bool} (h : SoundDisputes d w)
    (hstep : w.step d (.call sender value ext
      (.challenge (.applyObjectiveResolution id hash wins proofHash B))) = some w') :
    Refuted d w w' id B (ChallengeManager.winnerOf d (w.cm.challenges id) wins) := by
  cases stepped_of_step hstep with
  | challenge hsender _ _ hrun =>
      simp only [ChallengeCall.run, map_eq_ok, Prod.mk.injEq] at hrun
      obtain ⟨⟨_, _⟩, hrun, rfl, rfl, rfl⟩ := hrun
      obtain ⟨hch, -, -, rfl⟩ := ChallengeManager.applyObjectiveResolution_ok hrun
      refine ⟨?_, fun a => ?_, ?_, ?_⟩
      · exact congrArg DisputeBook.bonds ((h.slots id).book_objective hch rfl)
      · exact ChallengeManager.settleDispute_claimable ..
      · show (update w.cm.resolverBonds id _ id).amountWei = 0
        rw [update_self]
      · exact update_self ..

/-- The laws of the bonds of the disputes in one state. -/
structure ChallengeBondLaws (d : Deployment) (w : World) : Prop where
  /-- The contract holds the bonds, the claims and the forced ETH, and nothing else. -/
  balance : w.cm.balance = w.cm.forcedEth +
    (∑ id ∈ range (w.sm.submissionCount + 1), w.cm.counterBond id +
      ∑ id ∈ range (w.sm.submissionCount + 1), (w.cm.resolverBonds id).amountWei +
      ∑ a, w.cm.claimableBondWei a)
  /-- Every submission with a bond is in the sums. -/
  counted : ∀ id, w.sm.submissionCount < id →
    w.cm.counterBond id = 0 ∧ (w.cm.resolverBonds id).amountWei = 0
  /-- A bond is what was posted and not settled. -/
  counterHeld : ∀ id, (w.cm.disputeBook d).bonds.unsettled (.inl id) = w.cm.counterBond id
  decisionHeld : ∀ id,
    (w.cm.disputeBook d).bonds.unsettled (.inr id) = (w.cm.resolverBonds id).amountWei
  /-- A posting is open as long as its dispute is. -/
  counterOpen : ∀ id, (w.cm.disputeBook d).bonds.Open (.inl id) ↔
    (w.cm.challenges id).challenger ≠ 0 ∧ (w.cm.challenges id).resolved = false
  decisionOpen : ∀ id, (w.cm.disputeBook d).bonds.Open (.inr id) ↔
    (w.cm.challenges id).decisionPending = true
  /-- What was settled to an account it may claim or has withdrawn. -/
  owed : ∀ a, (w.cm.disputeBook d).bonds.settled a = w.cm.claimableBondWei a +
    (w.cm.withdrawn a + inFlight (Frame.challengeBondOf a) w.frames)
  /-- A posting is settled once, to one account. -/
  once : ∀ as w' n p a, d.protocol.Run Free w as w' →
    (w.cm.disputeBook d).bonds.SettledTo n p a → (w'.cm.disputeBook d).bonds.SettledTo n p a
  /-- The bond of a slashed decision goes to the treasury. -/
  slashed : ∀ sender value ext id hash proofHash w',
    w.step d (.call sender value ext (.challenge (.slashResolverBond id hash proofHash))) = some w' →
    Refuted d w w' id d.cm.treasury (w.cm.challenges id).challenger
  /-- The bond of a corrected decision goes to the beneficiary of the proof. -/
  corrected : ∀ sender value ext id hash wins proofHash B w',
    w.step d (.call sender value ext
      (.challenge (.applyObjectiveResolution id hash wins proofHash B))) = some w' →
    Refuted d w w' id B (ChallengeManager.winnerOf d (w.cm.challenges id) wins)

/-- **The bonds of the disputes are conserved** in every reachable state. -/
theorem challengeBondLaws_of_reachable {d : Deployment} {w : World}
    (h : d.protocol.Reachable Free w) : ChallengeBondLaws d w := by
  have hsound := soundDisputes_of_reachable h
  have hvault := hsound.vault
  refine
    { balance := ?_
      counted := fun id hid => ?_
      counterHeld := fun id => hvault.tracks.held (.inl id)
      decisionHeld := fun id => hvault.tracks.held (.inr id)
      counterOpen := fun id => (hsound.slots id).counterOpen
      decisionOpen := fun id => (hsound.slots id).decisionOpen
      owed := hvault.tracks.owed
      once := fun _ _ _ _ _ hrun hp => disputeSettledTo_run hrun hp
      slashed := fun _ _ _ _ _ _ _ hstep => refuted_of_slash hstep
      corrected := fun _ _ _ _ _ _ _ _ _ hstep => refuted_of_objective hsound hstep }
  · have hbalance : w.cm.balance = w.cm.forcedEth +
        (∑ i ∈ ChallengeManager.bondKeys w.sm.submissionCount,
          Sum.elim w.cm.counterBond w.cm.decisionBond i + ∑ a, w.cm.claimableBondWei a) :=
      hvault.balance
    rw [ChallengeManager.bondKeys, sum_disjSum] at hbalance
    exact hbalance
  · have hout : id ∉ range (w.sm.submissionCount + 1) := by
      rw [mem_range]
      omega
    exact ⟨hvault.idle (.inl id) (fun hmem => hout (inl_mem_disjSum.mp hmem)),
      hvault.idle (.inr id) (fun hmem => hout (inr_mem_disjSum.mp hmem))⟩

namespace Sample

/-- The account the resolver decides for. -/
def beneficiary : Address := 0xb0

/-- `solutionA` is challenged and the resolver decides for the challenger. -/
def decidedRun : List Action :=
  disputedRun 36 ++ [.call resolver 1 {} (.challenge
    (.resolveFor 1 challengeHashA true 8 (ascii "t") 9 beneficiary))]

/-- The resolver corrects its decision, and names its own beneficiary in the proof. -/
def correctA : Action :=
  .call resolver 0 {} (.challenge (.applyObjectiveResolution 1 challengeHashA false 5 beneficiary))

end Sample

theorem challengeBondLaws_sample : ∃ w,
    Sample.board.protocol.exec Sample.genesis Sample.decidedRun = some w ∧
    w.cm.balance = 2 ∧ ChallengeBondLaws Sample.board w := by
  have hrun : (Sample.board.protocol.exec Sample.genesis Sample.decidedRun).map
      (fun w => w.cm.balance) = some 2 := by decide +kernel
  obtain ⟨w, hw, hbalance⟩ := Option.map_eq_some_iff.mp hrun
  exact ⟨w, hw, hbalance, challengeBondLaws_of_reachable (.of_exec Sample.genesis_init.1 hw)⟩

/-- A decision bond whose decision is corrected goes back to its beneficiary. -/
theorem correctedBond_returns : ∃ w w', Sample.board.protocol.Reachable Free w ∧
    w.step Sample.board Sample.correctA = some w' ∧
    w.cm.resolverBondBeneficiaryOf 1 = Sample.beneficiary ∧ (w.cm.resolverBonds 1).amountWei = 1 ∧
    w.cm.claimableBondWei Sample.beneficiary = 0 ∧
    w'.cm.claimableBondWei Sample.beneficiary = 1 := by
  have hrun : (Sample.board.protocol.exec Sample.genesis Sample.decidedRun).bind (fun w =>
      (w.step Sample.board Sample.correctA).map (fun w' =>
        decide (w.cm.resolverBondBeneficiaryOf 1 = Sample.beneficiary ∧
          (w.cm.resolverBonds 1).amountWei = 1 ∧
          w.cm.claimableBondWei Sample.beneficiary = 0 ∧
          w'.cm.claimableBondWei Sample.beneficiary = 1))) = some true := by
    decide +kernel
  obtain ⟨w, hw, hrun⟩ := Option.bind_eq_some_iff.mp hrun
  obtain ⟨w', hw', hfacts⟩ := Option.map_eq_some_iff.mp hrun
  obtain ⟨hbeneficiary, hamount, hbefore, hafter⟩ := of_decide_eq_true hfacts
  exact ⟨w, w', .of_exec Sample.genesis_init.1 hw, hw', hbeneficiary, hamount, hbefore, hafter⟩

end P42Prizes
