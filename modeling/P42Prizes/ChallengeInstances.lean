import P42Prizes.Abi
import P42Prizes.Disputes
import P42Prizes.FreshWindow

/-! # Challenge instances

Every call about a dispute names it by its `challengeInstanceHash`, which has no counter: two
openings differ in their time, their challenger or their reason.  Only `slashResolverBond` frees
the slot of a submission within the second in which it was taken, so the openings of a run have
different hashes as long as no challenge repeats the challenger and the reason of a dispute that
was opened and slashed in that second (`challengeLaws_of_reachable`). -/

namespace P42Prizes

open Reverting Function Transition Finset

/-! ### The slot of a submission -/

/-- What the challenge manager keeps of the dispute on one submission. -/
structure Slot where
  challenge : Challenge
  revealHash : Bytes32
  hash : Bytes32
  releaseAt : ℕ

/-- A dispute as it was opened, and the hash that names it. -/
structure Opening where
  tuple : ChallengeInstance
  hash : Bytes32
deriving DecidableEq

namespace Slot

def opening (id : ℕ) (z : Slot) : Opening where
  tuple := ⟨id, z.revealHash, z.challenge.challenger, z.challenge.reasonHash,
    z.challenge.challengedAt, z.challenge.disputeEndsAt⟩
  hash := z.hash

def Taken (z : Slot) : Prop := z.challenge.challenger ≠ 0

/-- The slot after its dispute ended in `ch`. -/
def close (ch : Challenge) (z : Slot) : Slot := { z with challenge := ch }

end Slot

namespace ChallengeManager

variable {d : Deployment} {e : Env} {s s' : SubmissionManager} {c c' : ChallengeManager}

def slot (c : ChallengeManager) (id : ℕ) : Slot :=
  ⟨c.challenges id, c.challengeRevealInstanceHashOf id, c.challengeInstanceHashOf id,
    (c.resolverBonds id).releaseAt⟩

section updates

variable (c) (id : ℕ)

@[simp] theorem slot_note (evs : List ChallengeEvent) : (c.note evs).slot = c.slot := rfl

@[simp] theorem slot_creditTo (a : Address) (n : ℕ) : (c.creditTo a n).slot = c.slot := rfl

@[simp] theorem slot_setChallenge (ch : Challenge) :
    (c.setChallenge id ch).slot = update c.slot id ((c.slot id).close ch) := by
  funext j
  by_cases h : j = id
  · subst h
    simp [slot, setChallenge, Slot.close]
  · simp [slot, setChallenge, h]

@[simp] theorem slot_setInstance (revealHash hash : Bytes32) :
    (c.setInstance id revealHash hash).slot =
      update c.slot id { c.slot id with revealHash := revealHash, hash := hash } := by
  funext j
  by_cases h : j = id
  · subst h
    simp [slot, setInstance]
  · simp [slot, setInstance, h]

@[simp] theorem slot_setBond (bond : ResolverBond) (a : Address) :
    (c.setBond id bond a).slot = update c.slot id { c.slot id with releaseAt := bond.releaseAt } := by
  funext j
  by_cases h : j = id
  · subst h
    simp [slot, setBond]
  · simp [slot, setBond, h]

theorem slot_settleDispute (ch : Challenge) (bond : ResolverBond) (W B : Address)
    (hrelease : bond.releaseAt = (c.resolverBonds id).releaseAt) :
    (c.settleDispute id ch bond W B).slot = update c.slot id ((c.slot id).close ch) := by
  rw [settleDispute, slot_creditTo, slot_creditTo, slot_setBond, slot_setChallenge, update_self,
    update_idem, hrelease]
  rfl

theorem slot_refundDispute :
    (c.refundDispute id).slot = update c.slot id ((c.slot id).close {}) := by
  rw [refundDispute, slot_creditTo, slot_setChallenge]

end updates

end ChallengeManager

/-! ### What a call does to the slots -/

/-- A call about a dispute names it by its hash. -/
def ChallengeCall.names : ChallengeCall → Option (ℕ × Bytes32)
  | .resolve id hash .. => some (id, hash)
  | .resolveFor id hash .. => some (id, hash)
  | .finalizeResolution id hash => some (id, hash)
  | .expireChallenge id hash => some (id, hash)
  | .slashResolverBond id hash _ => some (id, hash)
  | .applyObjectiveResolution id hash .. => some (id, hash)
  | _ => none

/-- The call opens a dispute or slashes the resolver. -/
def ChallengeCall.Recorded : ChallengeCall → Prop
  | .challenge .. => True
  | .slashResolverBond .. => True
  | _ => False

/-- No challenge of the submission can succeed any more. -/
def Entry.Spent (x : Entry) : Prop :=
  x.sub.status = .rejected ∨ x.sub.status = .finalized ∨ x.sub.status = .voided ∨
    x.sub.status = .revealed ∧ x.clearedHash = x.revealHash

namespace SubmissionManager

variable {d : Deployment} {e : Env} {l l' : PayoutLedger} {p : BountyPool}
  {s s' : SubmissionManager} {c : ManagerCall} {f : List Frame} {id : ℕ}

theorem Turn.spent {y : Entry} (h : Turn d e l s c id y) (hs : (s.entry id).Spent) : y.Spent := by
  have hstatus : (s.submissions id).status ≠ .committed ∧ (s.submissions id).status ≠ .challenged := by
    obtain h | h | h | ⟨h, -⟩ : (s.submissions id).status = .rejected ∨
        (s.submissions id).status = .finalized ∨ (s.submissions id).status = .voided ∨
        (s.submissions id).status = .revealed ∧ _ := hs
    all_goals
      rw [h]
      exact ⟨nofun, nofun⟩
  cases h with
  | addBond => exact hs
  | reveal hcommitted => exact absurd hcommitted hstatus.1
  | yield hcommitted => exact absurd hcommitted hstatus.1
  | retire => exact Or.inl rfl
  | finalize => exact Or.inr (Or.inl rfl)
  | release => exact hs
  | void => exact Or.inr (Or.inr (Or.inl rfl))
  | mark _ hrevealed hclear =>
      obtain h | h | h | ⟨-, h⟩ := hs
      · exact absurd (hrevealed.symm.trans h) nofun
      · exact absurd (hrevealed.symm.trans h) nofun
      · exact absurd (hrevealed.symm.trans h) nofun
      · exact absurd h hclear
  | rearm _ _ hchallenged => exact absurd hchallenged hstatus.2
  | clear _ hchallenged => exact absurd hchallenged hstatus.2

theorem Move.spent (h : Move d e l p s c s' l' f) (hr : Registered s.submissionCount s.entry)
    (id : ℕ) : (s.entry id).Spent → (s'.entry id).Spent := by
  revert id
  refine h.turns.forall (P := fun id x => (s.entry id).Spent → x.Spent) ?_
    (fun id y hturn _ => hturn.spent) (fun _ hs => hs)
  intro sub t _ _ _ _ hs
  have hne : (s.entry (s.submissionCount + 1)).sub.status ≠ .none := by
    obtain h | h | h | ⟨h, -⟩ := hs
    all_goals
      rw [h]
      exact nofun
  have hle := (hr.le hne).2
  omega

theorem spent_of_objective {wins : Bool} {beneficiary : Address}
    (h : s.resolveObjectiveChallenge e id wins beneficiary = .ok s') : (s'.entry id).Spent := by
  obtain ⟨-, -, -, ⟨-, -, rfl⟩ | ⟨-, -, rfl⟩ | ⟨-, -, rfl⟩⟩ := resolveObjectiveChallenge_ok h
  · left
    rw [rejectedEntry_eq, update_self]
    rfl
  · left
    rw [entry_note, rejectedEntry_eq, update_self]
    rfl
  · right; right; right
    rw [entry_note, entry_clearReveal, update_self, entry_rearmAs, update_self]
    exact ⟨rfl, rfl⟩

end SubmissionManager

namespace ChallengeManager

/-- A call about a dispute finds it in its slot, under the hash it names. -/
theorem names_of_run {d : Deployment} {e : Env} {l : PayoutLedger} {p : BountyPool}
    {s s' : SubmissionManager} {c c' : ChallengeManager} {f : List Frame} {q : ChallengeCall}
    (h : q.run d e l p s c = .ok (c', s', f)) {id : ℕ} {hash : Bytes32}
    (hq : q.names = some (id, hash)) : (c.slot id).Taken ∧ (c.slot id).hash = hash := by
  have hrequire : ∀ {id hash ch}, c.requireChallenge id hash = .ok ch →
      (c.slot id).Taken ∧ (c.slot id).hash = hash := by
    intro id hash ch hch
    obtain ⟨htaken, -, hhash, -⟩ := requireChallenge_eq_ok.mp hch
    exact ⟨htaken, hhash⟩
  cases q with
  | resolve =>
      cases hq
      simp only [ChallengeCall.run, map_eq_ok, resolve, resolveAs, bind_eq_ok] at h
      obtain ⟨_, ⟨_, -, ch, hch, -⟩, -⟩ := h
      exact hrequire hch
  | resolveFor =>
      cases hq
      simp only [ChallengeCall.run, map_eq_ok, resolveFor, resolveAs, bind_eq_ok] at h
      obtain ⟨_, ⟨_, -, _, -, ch, hch, -⟩, -⟩ := h
      exact hrequire hch
  | finalizeResolution =>
      cases hq
      simp only [ChallengeCall.run, map_eq_ok, finalizeResolution, bind_eq_ok] at h
      obtain ⟨_, ⟨ch, hch, -⟩, -⟩ := h
      exact hrequire hch
  | expireChallenge =>
      cases hq
      simp only [ChallengeCall.run, map_eq_ok, expireChallenge, bind_eq_ok] at h
      obtain ⟨_, ⟨ch, hch, -⟩, -⟩ := h
      exact hrequire hch
  | slashResolverBond =>
      cases hq
      simp only [ChallengeCall.run, map_eq_ok, slashResolverBond, requireSlashable, bind_eq_ok] at h
      obtain ⟨_, ⟨_, -, _, ⟨ch, hch, -⟩, -⟩, -⟩ := h
      exact hrequire hch
  | applyObjectiveResolution =>
      cases hq
      simp only [ChallengeCall.run, map_eq_ok, applyObjectiveResolution, requireSlashable,
        bind_eq_ok] at h
      obtain ⟨_, ⟨_, -, _, ⟨ch, hch, -⟩, -⟩, -⟩ := h
      exact hrequire hch
  | _ => cases hq

/-- What a successful call does to the slots, and to the submission in the slot that it frees. -/
inductive SlotMove (d : Deployment) (e : Env) (s : SubmissionManager) (c : ChallengeManager)
    (s' : SubmissionManager) : ChallengeCall → (ℕ → Slot) → Prop
  | keep {a : ChallengeCall} : ¬ a.Recorded → SlotMove d e s c s' a c.slot
  | opened {id endsAt : ℕ} {revealHash reasonHash : Bytes32} {z : Slot} :
      ¬ (c.slot id).Taken → (s.submissions id).solver ≠ 0 →
      (s.submissions id).status = .revealed → (s.entry id).clearedHash ≠ (s.entry id).revealHash →
      e.now < endsAt → endsAt ≤ e.now + d.cm.challengeWindowSeconds →
      z.challenge = newChallenge e id reasonHash endsAt → z.revealHash = revealHash →
      z.hash = d.challengeInstanceHash (z.opening id).tuple →
      SlotMove d e s c s' (.challenge id revealHash reasonHash) (update c.slot id z)
  | decided {a : ChallengeCall} {id : ℕ} {z : Slot} :
      ¬ a.Recorded → (c.slot id).Taken → e.now < z.releaseAt →
      z.opening id = (c.slot id).opening id →
      SlotMove d e s c s' a (update c.slot id z)
  | timed {a : ChallengeCall} {id : ℕ} (wins : Bool) :
      ¬ a.Recorded → (c.slot id).Taken →
      ((c.challenges id).disputeEndsAt ≤ e.now ∨
        (c.challenges id).decisionPending = true ∧ (c.slot id).releaseAt ≤ e.now) →
      SlotMove d e s c s' a (update c.slot id ((c.slot id).close (closedSlot (c.challenges id) wins)))
  | slashed {id : ℕ} {hash proofHash : Bytes32} : (c.slot id).Taken →
      SlotMove d e s c s' (.slashResolverBond id hash proofHash)
        (update c.slot id ((c.slot id).close {}))
  | corrected {id : ℕ} {hash proofHash : Bytes32} {wins : Bool} {B : Address} :
      (c.slot id).Taken → (s'.entry id).Spent →
      SlotMove d e s c s' (.applyObjectiveResolution id hash wins proofHash B)
        (update c.slot id ((c.slot id).close (closedSlot (c.challenges id) wins)))

variable {d : Deployment} {e : Env} {s s' : SubmissionManager} {c c' : ChallengeManager}

theorem slotMove_of_move {a : ChallengeCall} {f : List Frame} (h : Move d e s c a c' s' f)
    (hb : ∀ id, (s.entry id).Bounded d) : SlotMove d e s c s' a c'.slot := by
  cases h with
  | administer => exact .keep not_false
  | @challenge id endsAt revealHash reasonHash hash _ _ hslot hmark hends hhash =>
      obtain ⟨-, hsolver, hstatus, hclear, hopen, -, -, rfl⟩ :=
        SubmissionManager.markChallenged_eq_ok.mp hmark
      have hmax : (s.submissions id).challengeEndsAt ≤ s.maxDisputeEndsAtOf id :=
        ((hb id).window (Or.inl hstatus)).resolve_right hclear
      have hnow : e.now < s.maxDisputeEndsAtOf id := lt_of_lt_of_le hopen hmax
      have hwindow := d.cm.window_pos
      change endsAt = min (e.now + d.cm.challengeWindowSeconds) (s.maxDisputeEndsAtOf id) at hends
      have hslots : ((((c.setInstance id revealHash hash).setChallenge id
          (newChallenge e id reasonHash endsAt)).note
            [.challenged id e.sender reasonHash e.value endsAt revealHash hash])).slot =
          update c.slot id ⟨newChallenge e id reasonHash endsAt, revealHash, hash,
            (c.slot id).releaseAt⟩ := by
        rw [slot_note, slot_setChallenge, slot_setInstance, update_self, update_idem]
        rfl
      rw [hslots]
      exact .opened (not_not.mpr hslot) hsolver hstatus hclear (by omega) (by omega) rfl rfl hhash
  | @decide a id ch bond _ _ _ _ _ hch _ _ _ _ hch' _ _ hrelease hdecides =>
      rw [slot_note, slot_setBond, slot_setChallenge, update_self, update_idem]
      refine .decided ?_ hch hrelease ?_
      · intro hrecorded
        cases a <;> first | exact hdecides.elim | exact hrecorded.elim
      · rw [hch']
        rfl
  | @finalizeResolution id hash wins W B s₁ hch hpending _ _ _ hrelease hs =>
      rw [slot_note, slot_settleDispute]
      · exact .timed wins not_false hch (Or.inr ⟨hpending, hrelease⟩)
      · rfl
  | @expire id hash s₁ hch _ _ hends hs =>
      rw [slot_note, slot_refundDispute]
      exact .timed false not_false hch (Or.inl hends)
  | @slash id hash proofHash s₁ hch _ hs =>
      rw [slot_note, slot_settleDispute]
      · exact .slashed hch
      · rfl
  | @objective id hash proofHash wins B s₁ hch _ hs =>
      rw [slot_note, slot_settleDispute]
      · exact .corrected hch (SubmissionManager.spent_of_objective hs)
      · rfl
  | withdraw => exact .keep not_false

end ChallengeManager

/-! ### The history of the openings -/

inductive DisputeAct where
  | opened (o : Opening)
  | slashed (x : ChallengeInstance)

/-- The openings, newest first. -/
def openings (k : List DisputeAct) : List Opening :=
  k.filterMap (fun
    | .opened o => some o
    | .slashed _ => none)

/-- The disputes cancelled by a slash, newest first. -/
def slashes (k : List DisputeAct) : List ChallengeInstance :=
  k.filterMap (fun
    | .opened _ => none
    | .slashed x => some x)

/-- The dispute in the slot of `id`. -/
def ChallengeManager.opening (id : ℕ) (c : ChallengeManager) : Opening := (c.slot id).opening id

/-- The disputes opened, and the disputes cancelled by a slash, newest first. -/
def World.disputeActs (w : World) (a : Action) (w' : World) (k : List DisputeAct) :
    List DisputeAct :=
  match a with
  | .call _ _ _ (.challenge (.challenge id _ _)) => .opened (w'.cm.opening id) :: k
  | .call _ _ _ (.challenge (.slashResolverBond id _ _)) => .slashed (w.cm.opening id).tuple :: k
  | _ => k

/-- The board together with its disputes. -/
def Deployment.disputing (d : Deployment) : System (World × List DisputeAct) Action :=
  d.protocol.withHistory [] World.disputeActs

/-- The challenger, the submission and the reason of a challenge. -/
def Action.challenges : Action → Option (Address × ℕ × Bytes32)
  | .call sender _ _ (.challenge (.challenge id _ reasonHash)) => some (sender, id, reasonHash)
  | _ => none

/-- The step challenges a submission again, by the same challenger and for the same reason, within
the second in which such a challenge of it was opened and cancelled by a slash. -/
def RepeatsSlashed (p : World × List DisputeAct) (a : Action) : Prop :=
  ∃ x ∈ slashes p.2, a.challenges = some (x.challenger, x.submissionId, x.reasonHash) ∧
    x.challengedAt = p.1.block.timestamp

instance (p : World × List DisputeAct) (a : Action) : Decidable (RepeatsSlashed p a) :=
  inferInstanceAs (Decidable (∃ x ∈ slashes p.2, _))

/-- The bytes hashed for a challenge instance. -/
def Deployment.challengePreimage (d : Deployment) (x : ChallengeInstance) : Bytes :=
  abiEncode [d.challengeManager.word, uintWord d.crypto.chainid, uintWord x.submissionId,
    x.revealInstanceHash, x.challenger.word, x.reasonHash, uintWord x.challengedAt,
    uintWord x.disputeEndsAt]

/-- The hash tells the encoded disputes of the history apart. -/
def CollisionFree (d : Deployment) (k : List DisputeAct) : Prop :=
  Set.InjOn d.crypto.keccak256 {bs | ∃ o ∈ openings k, bs = d.challengePreimage o.tuple}

structure ChallengeLaws (d : Deployment) (w : World) (k : List DisputeAct) : Prop where
  distinct : ((openings k).map Opening.hash).Nodup
  /-- A call that names a dispute by its hash acts on the opening with that hash, and on no other. -/
  named : ∀ sender value ext (c : ChallengeCall) w' id hash,
    w.step d (.call sender value ext (.challenge c)) = some w' → c.names = some (id, hash) →
    w.cm.opening id ∈ openings k ∧ (w.cm.opening id).hash = hash ∧
      ∀ o ∈ openings k, o.hash = hash → o = w.cm.opening id

/-! ### The slots along a run -/

/-- How the slot and the register entry of one submission explain the history. -/
structure SlotTracked (now id : ℕ) (x : Entry) (z : Slot) (k : List DisputeAct) : Prop where
  current : z.Taken → .opened (z.opening id) ∈ k
  deadline : z.Taken → z.challenge.challengedAt < z.challenge.disputeEndsAt
  release : z.Taken → z.challenge.decisionPending = true → z.challenge.challengedAt < z.releaseAt
  settled : ∀ o, .opened o ∈ k → o.tuple.submissionId = id →
    o.tuple.challengedAt < now ∨ z.Taken ∧ z.opening id = o ∨ .slashed o.tuple ∈ k ∨ x.Spent

structure DisputesTracked (d : Deployment) (w : World) (k : List DisputeAct) : Prop where
  slots : ∀ id, SlotTracked w.block.timestamp id (w.sm.entry id) (w.cm.slot id) k
  hashed : ∀ o, .opened o ∈ k → o.hash = d.challengeInstanceHash o.tuple
  fits : ∀ o, .opened o ∈ k → o.tuple.submissionId < 2 ^ 256 ∧ o.tuple.challengedAt < 2 ^ 256 ∧
    o.tuple.disputeEndsAt < 2 ^ 256
  past : ∀ o, .opened o ∈ k → o.tuple.challengedAt ≤ w.block.timestamp
  distinct : ((openings k).map Opening.tuple).Nodup

@[simp] theorem mem_openings {o : Opening} {k : List DisputeAct} :
    o ∈ openings k ↔ .opened o ∈ k := by
  simp only [openings, List.mem_filterMap]
  constructor
  · rintro ⟨act, hact, heq⟩
    cases act with
    | opened o' =>
        cases heq
        exact hact
    | slashed => cases heq
  · intro h
    exact ⟨_, h, rfl⟩

theorem mem_slashes {x : ChallengeInstance} {k : List DisputeAct} :
    x ∈ slashes k ↔ .slashed x ∈ k := by
  simp only [slashes, List.mem_filterMap]
  constructor
  · rintro ⟨act, hact, heq⟩
    cases act with
    | opened => cases heq
    | slashed y =>
        cases heq
        exact hact
  · intro h
    exact ⟨_, h, rfl⟩

@[simp] theorem openings_opened (o : Opening) (k : List DisputeAct) :
    openings (.opened o :: k) = o :: openings k := rfl

@[simp] theorem openings_slashed (x : ChallengeInstance) (k : List DisputeAct) :
    openings (.slashed x :: k) = openings k := rfl

namespace SlotTracked

variable {now now' id : ℕ} {x y : Entry} {z : Slot} {k k' : List DisputeAct}

/-- Time passes, and things happen elsewhere. -/
theorem mono (h : SlotTracked now id x z k) (hnow : now ≤ now') (hspent : x.Spent → y.Spent)
    (hk : k ⊆ k') (hnew : ∀ o, .opened o ∈ k' → o.tuple.submissionId = id → .opened o ∈ k) :
    SlotTracked now' id y z k' := by
  refine ⟨fun htaken => hk (h.current htaken), h.deadline, h.release, fun o ho hid => ?_⟩
  obtain hlt | hslot | hslashed | hs := h.settled o (hnew o ho hid) hid
  · exact Or.inl (lt_of_lt_of_le hlt hnow)
  · exact Or.inr (Or.inl hslot)
  · exact Or.inr (Or.inr (Or.inl (hk hslashed)))
  · exact Or.inr (Or.inr (Or.inr (hspent hs)))

/-- The dispute is still in the slot after a decision was posted. -/
theorem decide (h : SlotTracked now id x z k) {z' : Slot} (htaken : z.Taken)
    (hrelease : now < z'.releaseAt) (hnow : z.challenge.challengedAt ≤ now)
    (hopening : z'.opening id = z.opening id) : SlotTracked now id x z' k := by
  have htuple := congrArg Opening.tuple hopening
  have hat : z'.challenge.challengedAt = z.challenge.challengedAt :=
    congrArg ChallengeInstance.challengedAt htuple
  have hends : z'.challenge.disputeEndsAt = z.challenge.disputeEndsAt :=
    congrArg ChallengeInstance.disputeEndsAt htuple
  have htaken' : z'.Taken := by
    have hchallenger : z'.challenge.challenger = z.challenge.challenger :=
      congrArg ChallengeInstance.challenger htuple
    rw [Slot.Taken, hchallenger]
    exact htaken
  refine ⟨fun _ => hopening ▸ h.current htaken, fun _ => ?_, fun _ _ => ?_, fun o ho hid => ?_⟩
  · rw [hat, hends]
    exact h.deadline htaken
  · rw [hat]
    exact lt_of_le_of_lt hnow hrelease
  · obtain hlt | ⟨-, hslot⟩ | hrest := h.settled o ho hid
    · exact Or.inl hlt
    · exact Or.inr (Or.inl ⟨htaken', hopening.trans hslot⟩)
    · exact Or.inr (Or.inr hrest)

/-- The dispute ended, in a way that rules out the same opening in the same second or is recorded. -/
theorem close (h : SlotTracked now id x z k) (wins : Bool) (hspent : x.Spent → y.Spent)
    (hk : k ⊆ k') (hnew : ∀ o, .opened o ∈ k' → .opened o ∈ k)
    (hend : (z.opening id).tuple.challengedAt < now ∨ .slashed (z.opening id).tuple ∈ k' ∨ y.Spent) :
    SlotTracked now id y (z.close (ChallengeManager.closedSlot z.challenge wins)) k' := by
  have hsettled : ∀ o, .opened o ∈ k' → o.tuple.submissionId = id →
      o.tuple.challengedAt < now ∨ .slashed o.tuple ∈ k' ∨ y.Spent := by
    intro o ho hid
    obtain hlt | ⟨-, rfl⟩ | hslashed | hs := h.settled o (hnew o ho) hid
    · exact Or.inl hlt
    · exact hend
    · exact Or.inr (Or.inl (hk hslashed))
    · exact Or.inr (Or.inr (hspent hs))
  cases wins with
  | false =>
      refine ⟨fun htaken => absurd rfl htaken, fun htaken => absurd rfl htaken,
        fun htaken => absurd rfl htaken, fun o ho hid => ?_⟩
      obtain hlt | hrest := hsettled o ho hid
      · exact Or.inl hlt
      · exact Or.inr (Or.inr hrest)
  | true =>
      refine ⟨fun htaken => hk (h.current htaken), h.deadline, fun _ hpending => (nomatch hpending),
        fun o ho hid => ?_⟩
      obtain hlt | hrest := hsettled o ho hid
      · exact Or.inl hlt
      · exact Or.inr (Or.inr hrest)

end SlotTracked

namespace DisputesTracked

variable {d : Deployment} {w w' : World} {k k' : List DisputeAct}

/-- A step that neither opens, decides nor ends a dispute. -/
theorem quiet (h : DisputesTracked d w k) (hnow : w.block.timestamp ≤ w'.block.timestamp)
    (hspent : ∀ id, (w.sm.entry id).Spent → (w'.sm.entry id).Spent)
    (hslot : w'.cm.slot = w.cm.slot) : DisputesTracked d w' k := by
  refine ⟨fun id => ?_, h.hashed, h.fits, fun o ho => (h.past o ho).trans hnow, h.distinct⟩
  rw [hslot]
  exact (h.slots id).mono hnow (hspent id) (fun _ hact => hact) (fun _ ho _ => ho)

/-- The slot of one submission changes, and the history grows by acts about it. -/
theorem update_slot (h : DisputesTracked d w k) {id : ℕ} {z : Slot}
    (hnow : w.block.timestamp = w'.block.timestamp)
    (hspent : ∀ id, (w.sm.entry id).Spent → (w'.sm.entry id).Spent)
    (hslot : w'.cm.slot = update w.cm.slot id z) (hk : k ⊆ k')
    (hnew : ∀ o, .opened o ∈ k' → o.tuple.submissionId ≠ id → .opened o ∈ k)
    (hz : SlotTracked w'.block.timestamp id (w'.sm.entry id) z k') (j : ℕ) :
    SlotTracked w'.block.timestamp j (w'.sm.entry j) (w'.cm.slot j) k' := by
  rw [hslot]
  by_cases hj : j = id
  · subst hj
    rw [update_self]
    exact hz
  · rw [update_of_ne hj]
    exact (h.slots j).mono hnow.le (hspent j) hk (fun o ho hid => hnew o ho (hid ▸ hj))

/-- The slot of one submission changes, and no dispute is opened. -/
theorem update (h : DisputesTracked d w k) {id : ℕ} {z : Slot}
    (hnow : w.block.timestamp = w'.block.timestamp)
    (hspent : ∀ id, (w.sm.entry id).Spent → (w'.sm.entry id).Spent)
    (hslot : w'.cm.slot = Function.update w.cm.slot id z) (hk : k ⊆ k')
    (hsame : openings k' = openings k)
    (hz : SlotTracked w'.block.timestamp id (w'.sm.entry id) z k') : DisputesTracked d w' k' := by
  have hopened : ∀ o, .opened o ∈ k' → .opened o ∈ k := by
    intro o ho
    rw [← mem_openings, ← hsame, mem_openings]
    exact ho
  refine ⟨h.update_slot hnow hspent hslot hk (fun o ho _ => hopened o ho) hz,
    fun o ho => h.hashed o (hopened o ho), fun o ho => h.fits o (hopened o ho),
    fun o ho => hnow ▸ h.past o (hopened o ho), ?_⟩
  rw [hsame]
  exact h.distinct

/-- A dispute is opened, and none like it was opened and slashed in the same second. -/
theorem opened (h : DisputesTracked d w k) {e : Env} {id endsAt : ℕ} {reasonHash : Bytes32} {z : Slot}
    (hblock : e.block = w.block) (hsame : w'.block = w.block) (hsender : e.sender ≠ 0)
    (hspent : ∀ id, (w.sm.entry id).Spent → (w'.sm.entry id).Spent)
    (hslot : w'.cm.slot = Function.update w.cm.slot id z) (hfree : ¬ (w.cm.slot id).Taken)
    (hid : id < 2 ^ 256) (hstatus : (w.sm.submissions id).status = .revealed)
    (hclear : (w.sm.entry id).clearedHash ≠ (w.sm.entry id).revealHash)
    (hends : e.now < endsAt) (hle : endsAt ≤ e.now + d.cm.challengeWindowSeconds)
    (hz : z.challenge = ChallengeManager.newChallenge e id reasonHash endsAt)
    (hhash : z.hash = d.challengeInstanceHash (z.opening id).tuple)
    (hfresh : .slashed (z.opening id).tuple ∉ k) :
    DisputesTracked d w' (.opened (z.opening id) :: k) := by
  have hnow : e.now = w.block.timestamp := congrArg Block.timestamp hblock
  have hat : (z.opening id).tuple.challengedAt = w.block.timestamp := by
    rw [← hnow]
    exact congrArg Challenge.challengedAt hz
  have hendsAt : (z.opening id).tuple.disputeEndsAt = endsAt := congrArg Challenge.disputeEndsAt hz
  have hk : k ⊆ .opened (z.opening id) :: k := List.subset_cons_self _ _
  have htime : w.block.timestamp = w'.block.timestamp := by rw [hsame]
  have htaken : z.Taken := by
    rw [Slot.Taken, hz]
    exact hsender
  -- the submission can be challenged, so it is not spent
  have hlive : ¬ (w.sm.entry id).Spent := by
    rintro (hs | hs | hs | ⟨-, hs⟩)
    · exact absurd (hstatus.symm.trans hs) nofun
    · exact absurd (hstatus.symm.trans hs) nofun
    · exact absurd (hstatus.symm.trans hs) nofun
    · exact absurd hs hclear
  refine ⟨h.update_slot htime hspent hslot hk ?_ ?_, ?_, ?_, ?_, ?_⟩
  · intro o ho hne
    obtain heq | ho := List.mem_cons.mp ho
    · cases heq
      exact absurd rfl hne
    · exact ho
  · refine ⟨fun _ => List.mem_cons_self .., fun _ => ?_, fun _ hpending => ?_, fun o ho hoid => ?_⟩
    · rw [hz]
      exact hends
    · rw [hz] at hpending
      cases hpending
    · obtain heq | ho := List.mem_cons.mp ho
      · cases heq
        exact Or.inr (Or.inl ⟨htaken, rfl⟩)
      · obtain hlt | ⟨hold, -⟩ | hslashed | hs := (h.slots id).settled o ho hoid
        · exact Or.inl (htime ▸ hlt)
        · exact absurd hold hfree
        · exact Or.inr (Or.inr (Or.inl (hk hslashed)))
        · exact absurd hs hlive
  · intro o ho
    obtain heq | ho := List.mem_cons.mp ho
    · cases heq
      exact hhash
    · exact h.hashed o ho
  · intro o ho
    obtain heq | ho := List.mem_cons.mp ho
    · cases heq
      have hlt := e.now_lt
      have hwindow := d.cm.window_le
      rw [hat, hendsAt]
      refine ⟨hid, ?_, ?_⟩
      · omega
      · have hmax : maxChallengeWindowSeconds < 2 ^ 63 := by decide
        omega
    · exact h.fits o ho
  · intro o ho
    obtain heq | ho := List.mem_cons.mp ho
    · cases heq
      rw [hat, htime]
    · exact htime ▸ h.past o ho
  · rw [openings_opened, List.map_cons, List.nodup_cons]
    refine ⟨fun hmem => ?_, h.distinct⟩
    obtain ⟨o, ho, htuple⟩ := List.mem_map.mp hmem
    have hoid : o.tuple.submissionId = id := by rw [htuple]; rfl
    obtain hlt | ⟨hold, -⟩ | hslashed | hs :=
      (h.slots id).settled o (mem_openings.mp ho) hoid
    · rw [htuple, hat] at hlt
      exact absurd hlt (lt_irrefl _)
    · exact absurd hold hfree
    · rw [htuple] at hslashed
      exact absurd hslashed hfresh
    · exact absurd hs hlive

/-- What a call of the challenge manager does to the slots, the history follows. -/
theorem call (h : DisputesTracked d w k) {e : Env} {c : ChallengeManager} {q : ChallengeCall}
    (hblock : e.block = w.block) (hsame : w'.block = w.block) (hsender : e.sender ≠ 0)
    (hr : SubmissionManager.Registered w.sm.submissionCount w.sm.entry)
    (hcount : w.sm.submissionCount < 2 ^ 256) (hc : c.slot = w.cm.slot)
    (hspent : ∀ id, (w.sm.entry id).Spent → (w'.sm.entry id).Spent)
    (hmove : ChallengeManager.SlotMove d e w.sm c w'.sm q w'.cm.slot)
    (hfresh : ¬ RepeatsSlashed (w, k) (.call e.sender e.value e.ext (.challenge q))) :
    DisputesTracked d w' (w.disputeActs (.call e.sender e.value e.ext (.challenge q)) w' k) := by
  have hnow : w.block.timestamp = w'.block.timestamp := by rw [hsame]
  have henow : e.now = w'.block.timestamp := by rw [hsame, ← hblock]
  have hquiet : ∀ q : ChallengeCall, ¬ q.Recorded →
      w.disputeActs (.call e.sender e.value e.ext (.challenge q)) w' k = k := by
    intro q hq
    cases q <;> first | rfl | exact absurd trivial hq
  have hsubset : ∀ act : DisputeAct, k ⊆ act :: k := fun act => List.subset_cons_self _ _
  have hch : ∀ id, c.challenges id = w.cm.challenges id :=
    fun id => congrArg Slot.challenge (congrFun hc id)
  generalize hz' : w'.cm.slot = z' at hmove
  cases hmove with
  | keep hq =>
      rw [hquiet q hq]
      exact h.quiet hnow.le hspent (hz'.trans hc)
  | @opened id endsAt revealHash reasonHash z hfree hsolver hstatus hclear hends hle hz hreveal hhash =>
      have hid : id < 2 ^ 256 := lt_of_le_of_lt ((hr.solver id).mp hsolver).2 hcount
      rw [hc] at hz' hfree
      have hopening : w'.cm.opening id = z.opening id := by
        rw [ChallengeManager.opening, hz', update_self]
      simp only [World.disputeActs, hopening]
      refine h.opened hblock hsame hsender hspent hz' hfree hid hstatus hclear hends hle hz hhash ?_
      intro hslashed
      refine hfresh ⟨_, mem_slashes.mpr hslashed, ?_, ?_⟩
      · have hchallenger : (z.opening id).tuple.challenger = e.sender :=
          congrArg Challenge.challenger hz
        have hreason : (z.opening id).tuple.reasonHash = reasonHash :=
          congrArg Challenge.reasonHash hz
        rw [hchallenger, hreason]
        rfl
      · exact (congrArg Challenge.challengedAt hz).trans (henow.trans hnow.symm)
  | @decided _ id z hq htaken hrelease hopening =>
      rw [hquiet q hq]
      rw [hc] at hz' htaken hopening
      have hpast := h.past _ ((h.slots id).current htaken)
      rw [hnow] at hpast
      have hslot := (h.slots id).mono hnow.le (hspent id) (fun _ hact => hact) (fun _ ho _ => ho)
      exact h.update hnow hspent hz' (fun _ hact => hact) rfl
        (hslot.decide htaken (henow ▸ hrelease) hpast hopening)
  | @timed _ id wins hq htaken hend =>
      rw [hquiet q hq]
      rw [hc] at hz' htaken hend
      rw [hch, henow] at hend
      have hslot := h.slots id
      have hlt : (w.cm.slot id).challenge.challengedAt < w'.block.timestamp := by
        obtain hends | ⟨hpending, hrelease⟩ := hend
        · exact lt_of_lt_of_le (hslot.deadline htaken) hends
        · exact lt_of_lt_of_le (hslot.release htaken hpending) hrelease
      refine h.update hnow hspent hz' (fun _ hact => hact) rfl ?_
      rw [hch]
      have hclose := hslot.close wins (hspent id) (fun _ hact => hact) (fun _ ho => ho)
        (Or.inl (hnow ▸ hlt))
      rw [← hnow]
      exact hclose
  | @slashed id hash proofHash htaken =>
      rw [hc] at hz' htaken
      have hclose := (h.slots id).close false (hspent id)
        (hsubset (.slashed (w.cm.opening id).tuple)) (fun o ho => ?_)
        (Or.inr (Or.inl (List.mem_cons_self ..)))
      · refine h.update hnow hspent hz' (hsubset _) rfl ?_
        rw [← hnow]
        exact hclose
      · exact (List.mem_cons.mp ho).resolve_left nofun
  | @corrected id hash proofHash wins B htaken hs =>
      rw [hquiet (.applyObjectiveResolution id hash wins proofHash B) not_false]
      rw [hc] at hz'
      refine h.update hnow hspent hz' (fun _ hact => hact) rfl ?_
      rw [hch, ← hnow]
      exact (h.slots id).close wins (hspent id) (fun _ hact => hact) (fun _ ho => ho)
        (Or.inr (Or.inr hs))

theorem step {a : Action} (h : DisputesTracked d w k) (hreach : d.protocol.Reachable Free w)
    (hstep : w.step d a = some w') (hfresh : ¬ RepeatsSlashed (w, k) a) :
    DisputesTracked d w' (w.disputeActs a w' k) := by
  have hr := registered_of_reachable hreach
  cases stepped_of_step hstep with
  | tick block _ _ hle => exact h.quiet hle (fun _ hs => hs) rfl
  | manager _ _ _ hrun =>
      exact h.quiet le_rfl ((SubmissionManager.move_of_run hrun).spent hr) rfl
  | @challenge sender value ext c c' s f hsender _ _ hrun =>
      have hmove := ChallengeManager.move_of_run hsender.ne.1 hrun
      have hspent : ∀ id, (w.sm.entry id).Spent → (s.entry id).Spent := by
        obtain hs | ⟨hook, hhook, -⟩ := hmove.hook w.ledger w.pool
        · rw [hs]
          exact fun _ hspent => hspent
        · exact (SubmissionManager.move_of_run hhook).spent hr
      have hslots := ChallengeManager.slotMove_of_move hmove (agreed_of_reachable hreach).bounded
      exact h.call (e := ⟨w.block, sender, value, ext⟩)
        (c := { w.cm with balance := w.cm.balance + value }) rfl rfl hsender.ne.1 hr
        (submissionCount_lt hreach) rfl hspent hslots hfresh
  | _ => exact h.quiet le_rfl (fun _ hs => hs) rfl

end DisputesTracked

theorem disputesTracked_of_reachable {d : Deployment} {p : World × List DisputeAct}
    (h : d.disputing.Reachable (fun p a => ¬ RepeatsSlashed p a) p) :
    DisputesTracked d p.1 p.2 := by
  refine h.invariant (P := fun p => DisputesTracked d p.1 p.2) (fun p hinit => ?_)
    (fun p a p' hreach htracked hfresh hstep => ?_)
  · obtain ⟨⟨block, wiring, -, -, hw⟩, hk⟩ := hinit
    rw [hk, hw]
    exact ⟨fun id => ⟨fun htaken => absurd rfl htaken, fun htaken => absurd rfl htaken,
      fun htaken => absurd rfl htaken, nofun⟩, nofun, nofun, nofun, List.nodup_nil⟩
  · obtain ⟨hw, hk⟩ := System.withHistory_step.mp hstep
    rw [hk]
    exact htracked.step (System.Reachable.history_fst (C := Free) hreach.free) hw hfresh

/-! ### The hashes of the openings -/

theorem challengePreimage_inj {d : Deployment} {x y : ChallengeInstance}
    (hx : x.submissionId < 2 ^ 256 ∧ x.challengedAt < 2 ^ 256 ∧ x.disputeEndsAt < 2 ^ 256)
    (hy : y.submissionId < 2 ^ 256 ∧ y.challengedAt < 2 ^ 256 ∧ y.disputeEndsAt < 2 ^ 256)
    (h : d.challengePreimage x = d.challengePreimage y) : x = y := by
  have hwords := abiEncode_injective h
  simp only [List.cons.injEq, and_true, true_and] at hwords
  obtain ⟨hid, hreveal, hchallenger, hreason, hat, hends⟩ := hwords
  cases x
  cases y
  simp only [ChallengeInstance.mk.injEq]
  exact ⟨uintWord_inj hx.1 hy.1 hid, hreveal, Address.word_injective hchallenger, hreason,
    uintWord_inj hx.2.1 hy.2.1 hat, uintWord_inj hx.2.2 hy.2.2 hends⟩

/-- Without a collision, openings with the same hash are the same. -/
theorem DisputesTracked.opening_inj {d : Deployment} {w : World} {k : List DisputeAct}
    (h : DisputesTracked d w k) (hfree : CollisionFree d k) {o o' : Opening} (ho : o ∈ openings k)
    (ho' : o' ∈ openings k) (hhash : o.hash = o'.hash) : o = o' := by
  have hm := mem_openings.mp ho
  have hm' := mem_openings.mp ho'
  have htuple : d.challengeInstanceHash o.tuple = d.challengeInstanceHash o'.tuple := by
    rw [← h.hashed o hm, ← h.hashed o' hm', hhash]
  have hpreimage : d.challengePreimage o.tuple = d.challengePreimage o'.tuple :=
    hfree ⟨o, ho, rfl⟩ ⟨o', ho', rfl⟩ htuple
  have hsame := challengePreimage_inj (h.fits o hm) (h.fits o' hm') hpreimage
  cases o
  cases o'
  simp only [Opening.mk.injEq]
  exact ⟨hsame, hhash⟩

theorem challengeLaws_of_reachable {d : Deployment} {p : World × List DisputeAct}
    (h : d.disputing.Reachable (fun p a => ¬ RepeatsSlashed p a) p) (hfree : CollisionFree d p.2) :
    ChallengeLaws d p.1 p.2 := by
  have htracked := disputesTracked_of_reachable h
  constructor
  · have hnodup : (openings p.2).Nodup := List.Nodup.of_map _ htracked.distinct
    exact List.Nodup.map_on
      (fun o ho o' ho' hhash => htracked.opening_inj hfree ho ho' hhash) hnodup
  · intro sender value ext c w' id hash hstep hnames
    cases stepped_of_step hstep with
    | challenge _ _ _ hrun =>
        obtain ⟨htaken, hhash⟩ := ChallengeManager.names_of_run hrun hnames
        have hmem : p.1.cm.opening id ∈ openings p.2 :=
          mem_openings.mpr ((htracked.slots id).current htaken)
        exact ⟨hmem, hhash, fun o ho heq => htracked.opening_inj hfree ho hmem (heq.trans hhash.symm)⟩

namespace Sample

/-- `solutionA` is challenged; within the second the resolver decides, is slashed, and the
challenger challenges again. -/
def slashingRun : List Action :=
  [solutionA.commit 1, .tick (blockAt 12 2 mature_fits), solutionA.reveal 1,
    .tick (blockAt 24 3 revealed_fits), .call challenger 1 {} (.challenge (.challenge 1 revealHashA 7)),
    .call resolver 1 {} (.challenge (.resolve 1 challengeHashA true 0xa1 (ascii "ar://a") 0xa2)),
    .call resolver 0 {} (.challenge (.slashResolverBond 1 challengeHashA 0xa3))]

def challengeAgain (reasonHash : Bytes32) : Action :=
  .call challenger 1 {} (.challenge (.challenge 1 revealHashA reasonHash))

def openingA (reasonHash : Bytes32) : Opening :=
  let tuple := ⟨1, revealHashA, challenger, reasonHash, start + 24, start + 24 + window⟩
  ⟨tuple, board.challengeInstanceHash tuple⟩

end Sample

/-- Challenged again for the same reason in the same second, the submission has two disputes with
one hash. -/
theorem challengeLaws_repeated : ∃ p, Sample.board.disputing.Reachable Free p ∧
    CollisionFree Sample.board p.2 ∧ ¬ ((openings p.2).map Opening.hash).Nodup := by
  have hrun : (Sample.board.disputing.exec (Sample.genesis, [])
      (Sample.slashingRun ++ [Sample.challengeAgain 7])).map (fun p => openings p.2) =
      some [Sample.openingA 7, Sample.openingA 7] := by decide +kernel
  obtain ⟨p, hp, hopenings⟩ := Option.map_eq_some_iff.mp hrun
  refine ⟨p, .of_exec ⟨Sample.genesis_init.1, rfl⟩ hp, ?_, ?_⟩
  · have hone : ∀ o ∈ openings p.2, o = Sample.openingA 7 := by
      rw [hopenings]
      simp
    rintro _ ⟨o, ho, rfl⟩ _ ⟨o', ho', rfl⟩ -
    rw [hone o ho, hone o' ho']
  · rw [hopenings]
    simp

theorem challengeLaws_sample : ∃ p,
    Sample.board.disputing.Reachable (fun p a => ¬ RepeatsSlashed p a) p ∧
    openings p.2 = [Sample.openingA 8, Sample.openingA 7] ∧ ChallengeLaws Sample.board p.1 p.2 := by
  have hrun : (Sample.board.disputing.execIf (fun p a => ¬ RepeatsSlashed p a) (Sample.genesis, [])
      (Sample.slashingRun ++ [Sample.challengeAgain 8])).map (fun p => openings p.2) =
      some [Sample.openingA 8, Sample.openingA 7] := by decide +kernel
  obtain ⟨p, hp, hopenings⟩ := Option.map_eq_some_iff.mp hrun
  have hreach : Sample.board.disputing.Reachable (fun p a => ¬ RepeatsSlashed p a) p :=
    .of_execIf ⟨Sample.genesis_init.1, rfl⟩ hp
  refine ⟨p, hreach, hopenings, challengeLaws_of_reachable hreach ?_⟩
  have hhash : Sample.board.crypto.keccak256
        (Sample.board.challengePreimage (Sample.openingA 7).tuple) ≠
      Sample.board.crypto.keccak256
        (Sample.board.challengePreimage (Sample.openingA 8).tuple) := by decide +kernel
  have htwo : ∀ o ∈ openings p.2, o = Sample.openingA 8 ∨ o = Sample.openingA 7 := by
    rw [hopenings]
    simp
  rintro _ ⟨o, ho, rfl⟩ _ ⟨o', ho', rfl⟩ heq
  obtain rfl | rfl := htwo o ho
  all_goals obtain rfl | rfl := htwo o' ho'
  · rfl
  · exact absurd heq.symm hhash
  · exact absurd heq hhash
  · rfl

end P42Prizes
