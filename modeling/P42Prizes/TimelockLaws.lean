import P42Prizes.MultisigTimelock

/-! # What the calls of the timelock do

Signers and threshold change only in the four governance functions, which all leave a strict majority
that an override quorum can still be formed from (`signerSet_of_reachable`).  The record of an operation
is written once by `_schedule`; later calls only count confirmations and advance its state, so the window
in which it can be executed never moves (`Move.follows`).

* `Move`: what one call can do to the storage, and `run_move`, one case for each function.
* `Stepped`: what one step of a run can do, and `step_stepped`. -/

namespace P42Prizes.Timelock

open Reverting Function Transition

/-! ### Thresholds -/

/-- A strict majority of at least three signers whose override threshold can be reached. -/
structure ValidThreshold (threshold count : ℕ) : Prop where
  count_ge : 3 ≤ count
  majority : count < threshold * 2
  override_le : overrideThresholdOf threshold count ≤ count

namespace ValidThreshold

variable {threshold count : ℕ}

theorem lt (h : ValidThreshold threshold count) : threshold < count := by
  have hle := h.override_le
  unfold overrideThresholdOf at hle
  omega

/-- The threshold that `addSigner` adjusts is valid. -/
theorem add (h : ValidThreshold threshold count) :
    ValidThreshold (raised threshold (count + 1)) (count + 1) := by
  have hlt := h.lt
  obtain ⟨hcount, hmajority, -⟩ := h
  unfold raised
  refine ⟨by omega, by omega, ?_⟩
  unfold overrideThresholdOf
  omega

/-- The threshold that `removeSigner` adjusts is valid. -/
theorem remove (h : ValidThreshold threshold count) (hcount : 4 ≤ count) :
    ValidThreshold (raised (if threshold < count - 1 then threshold else count - 1 - 1) (count - 1))
      (count - 1) := by
  have hlt := h.lt
  obtain ⟨-, hmajority, -⟩ := h
  unfold raised
  split
  · refine ⟨by omega, by omega, ?_⟩
    unfold overrideThresholdOf
    omega
  · refine ⟨by omega, by omega, ?_⟩
    unfold overrideThresholdOf
    omega

end ValidThreshold

theorem requireValidThreshold_eq_ok {threshold count : ℕ} :
    requireValidThreshold threshold count = .ok () ↔ ValidThreshold threshold count := by
  rw [requireValidThreshold, revertIf_eq_ok]
  constructor
  · intro h
    simp only [not_or, not_lt, not_le] at h
    obtain ⟨hcount, -, -, hmajority, hoverride⟩ := h
    exact ⟨hcount, hmajority, hoverride⟩
  · intro h
    have hlt := h.lt
    obtain ⟨hcount, hmajority, hoverride⟩ := h
    omega

/-! ### The list of signers -/

/-- `_removeSignerAt` removes the entry at the index, whatever the order of the others becomes. -/
theorem removeSignerAt_perm {t : MultisigTimelock} {index : ℕ} (hi : index < t.signers.length) :
    (t.removeSignerAt index).signers.Perm (t.signers.eraseIdx index) := by
  show (List.dropLast _).Perm _
  generalize t.signers = l at hi
  induction l using List.reverseRecOn with
  | nil => exact absurd hi (Nat.not_lt_zero index)
  | append_singleton l x _ =>
      rw [List.length_append, List.length_singleton, Nat.add_sub_cancel]
      rw [List.length_append, List.length_singleton] at hi
      by_cases hlast : index = l.length
      · subst hlast
        rw [if_neg (not_not.mpr rfl), List.dropLast_concat, List.eraseIdx_append_of_length_le le_rfl,
          Nat.sub_self, List.eraseIdx_zero, List.tail_cons, List.append_nil]
      · have hlt : index < l.length := by omega
        rw [if_pos hlast, List.getD_append_right _ _ _ _ le_rfl, Nat.sub_self,
          List.set_append_left _ _ hlt, List.dropLast_concat, List.eraseIdx_append_of_lt_length hlt]
        exact (List.set_perm_cons_eraseIdx hlt x).trans (List.perm_append_singleton x _).symm

/-- The array and the mapping of the signers agree, and the threshold suits them. -/
structure SignerSet (t : MultisigTimelock) : Prop where
  nodup : t.signers.Nodup
  nonzero : 0 ∉ t.signers
  mem : ∀ a, t.isSigner a = true ↔ a ∈ t.signers
  valid : ValidThreshold t.threshold t.signers.length

theorem signerIndex_eq_ok {t : MultisigTimelock} {signer : Address} {index : ℕ}
    (h : t.signerIndex signer = .ok index) :
    ∃ hi : index < t.signers.length, t.signers[index] = signer := by
  unfold MultisigTimelock.signerIndex at h
  split at h
  · next i hfind =>
      obtain rfl : i = index := Except.ok.inj h
      obtain ⟨hi, heq, -⟩ := List.findIdx?_eq_some_iff_getElem.mp hfind
      exact ⟨hi, beq_iff_eq.mp heq⟩
  · cases h

theorem signerIndex_of_mem {t : MultisigTimelock} {signer : Address} (h : signer ∈ t.signers) :
    ∃ index, t.signerIndex signer = .ok index := by
  unfold MultisigTimelock.signerIndex
  split
  · exact ⟨_, rfl⟩
  · next hfind =>
      rw [List.findIdx?_eq_none_iff] at hfind
      exact absurd (hfind signer h) (by simp)

section

variable {t t' : MultisigTimelock} {c : Config} {e : Env} {signer : Address}

theorem updateThreshold_signers (newThreshold newCount : ℕ) :
    (t.updateThreshold e newThreshold newCount).signers = t.signers ∧
    (t.updateThreshold e newThreshold newCount).isSigner = t.isSigner ∧
    (t.updateThreshold e newThreshold newCount).threshold = newThreshold := by
  unfold MultisigTimelock.updateThreshold
  split
  · exact ⟨rfl, rfl, rfl⟩
  · next h => exact ⟨rfl, rfl, (not_not.mp h).symm⟩

theorem pushSigner_ok (h : t.pushSigner signer = .ok t') :
    signer ≠ 0 ∧ t.isSigner signer = false ∧
    t' = { t with isSigner := update t.isSigner signer true, signers := t.signers ++ [signer] } := by
  simp only [MultisigTimelock.pushSigner, bind_eq_ok, revertIf_eq_ok, exists_const, pure_eq_ok,
    not_or, Bool.not_eq_true] at h
  exact ⟨h.1.1, h.1.2, h.2.symm⟩

/-- The members of a list with one more entry at its end. -/
theorem mem_append_update (hmem : ∀ a, t.isSigner a = true ↔ a ∈ t.signers) (a : Address) :
    update t.isSigner signer true a = true ↔ a ∈ t.signers ++ [signer] := by
  rw [List.mem_append, List.mem_singleton]
  by_cases ha : a = signer
  · subst ha
    rw [update_self]
    exact iff_of_true rfl (.inr rfl)
  · rw [update_of_ne ha, hmem a]
    exact ⟨.inl, fun h => h.resolve_right ha⟩

theorem pushSigners_ok {signers : List Address} (h : MultisigTimelock.pushSigners signers t = .ok t')
    (hnodup : t.signers.Nodup) (hnonzero : 0 ∉ t.signers)
    (hmem : ∀ a, t.isSigner a = true ↔ a ∈ t.signers) :
    (∃ isSigner, t' = { t with signers := t.signers ++ signers, isSigner := isSigner }) ∧
      t'.signers.Nodup ∧ 0 ∉ t'.signers ∧ ∀ a, t'.isSigner a = true ↔ a ∈ t'.signers := by
  induction signers generalizing t with
  | nil =>
      obtain rfl : t = t' := Except.ok.inj h
      exact ⟨⟨t.isSigner, by rw [List.append_nil]⟩, hnodup, hnonzero, hmem⟩
  | cons signer signers ih =>
      simp only [MultisigTimelock.pushSigners, bind_eq_ok] at h
      obtain ⟨t₁, hpush, hrest⟩ := h
      obtain ⟨hne, hfresh, rfl⟩ := pushSigner_ok hpush
      have hnot : signer ∉ t.signers := by
        rw [← hmem signer, hfresh]
        exact Bool.false_ne_true
      have hzero : 0 ∉ t.signers ++ [signer] := by
        rw [List.mem_append, List.mem_singleton]
        exact not_or.mpr ⟨hnonzero, hne.symm⟩
      obtain ⟨⟨isSigner, rfl⟩, hlaws⟩ := ih hrest
        (List.nodup_append_comm.mp (List.nodup_cons.mpr ⟨hnot, hnodup⟩)) hzero (mem_append_update hmem)
      refine ⟨⟨isSigner, ?_⟩, hlaws⟩
      rw [List.append_assoc, List.singleton_append]

theorem construct_ok {signers : List Address} {threshold : ℕ} {guardian : Address}
    (h : MultisigTimelock.construct c signers threshold guardian = .ok t) :
    0 < c.delaySeconds ∧ c.delaySeconds ≤ (2 ^ 64 - 1) / 2 ∧ guardian ≠ 0 ∧ SignerSet t ∧
    t.guardian = guardian ∧ t.ops = (fun _ => {}) ∧ t.logs = [] ∧ t.executingOverride = false := by
  simp only [MultisigTimelock.construct, bind_eq_ok, revertIf_eq_ok, pure_eq_ok, not_or,
    gt_iff_lt, not_lt, Unique.exists_iff, PUnit.default_eq_unit,
    requireValidThreshold_eq_ok] at h
  obtain ⟨⟨hpos, hle⟩, hguardian, t₁, hpush, hvalid, rfl⟩ := h
  obtain ⟨⟨isSigner, rfl⟩, hnodup, hzero, hmem⟩ :=
    pushSigners_ok hpush List.nodup_nil List.not_mem_nil (by simp)
  exact ⟨Nat.pos_of_ne_zero hpos, hle, hguardian, ⟨hnodup, hzero, hmem, hvalid⟩, rfl, rfl, rfl, rfl⟩

/-! ### Governance -/

theorem SignerSet.congr (h : SignerSet t) (hsigners : t'.signers = t.signers)
    (hmem : t'.isSigner = t.isSigner) (hthreshold : t'.threshold = t.threshold) : SignerSet t' where
  nodup := by rw [hsigners]; exact h.nodup
  nonzero := by rw [hsigners]; exact h.nonzero
  mem := by rw [hsigners, hmem]; exact h.mem
  valid := by rw [hsigners, hthreshold]; exact h.valid

theorem SignerSet.isSigner_eq_false (h : SignerSet t) {a : Address} :
    t.isSigner a = false ↔ a ∉ t.signers := by
  rw [← h.mem a, Bool.not_eq_true]

theorem SignerSet.addSigner (h : SignerSet t) (hok : t.addSigner c e signer = .ok t') : SignerSet t' := by
  simp only [MultisigTimelock.addSigner, bind_eq_ok, revertIf_eq_ok, pure_eq_ok, not_or,
    Unique.exists_iff, PUnit.default_eq_unit, requireValidThreshold_eq_ok] at hok
  obtain ⟨-, ⟨hne, hfresh⟩, hvalid, rfl⟩ := hok
  rw [Bool.not_eq_true, h.isSigner_eq_false] at hfresh
  have hnew : SignerSet { t with
      isSigner := update t.isSigner signer true
      signers := t.signers ++ [signer]
      governanceEpoch := t.governanceEpoch + 1
      threshold := raised t.threshold (t.signers.length + 1) } := by
    refine ⟨List.nodup_append_comm.mp (List.nodup_cons.mpr ⟨hfresh, h.nodup⟩), ?_,
      mem_append_update h.mem, ?_⟩
    · rw [List.mem_append, List.mem_singleton]
      exact not_or.mpr ⟨h.nonzero, Ne.symm hne⟩
    · rw [List.length_append, List.length_singleton]
      exact hvalid
  obtain ⟨hsigners, hmem, hthreshold⟩ := updateThreshold_signers (t := { t with
    isSigner := update t.isSigner signer true
    signers := t.signers ++ [signer]
    governanceEpoch := t.governanceEpoch + 1 }) (e := e) (raised t.threshold (t.signers.length + 1))
      (t.signers.length + 1)
  exact hnew.congr hsigners hmem hthreshold

/-- The members of the list without the entry at `index`. -/
theorem SignerSet.mem_eraseIdx (h : SignerSet t) {index : ℕ} (hi : index < t.signers.length)
    (a : Address) : a ∈ t.signers.eraseIdx index ↔ a ≠ t.signers[index] ∧ a ∈ t.signers := by
  have hperm := List.getElem_cons_eraseIdx_perm hi
  have hnodup := List.nodup_cons.mp (hperm.nodup_iff.mpr h.nodup)
  rw [← hperm.mem_iff, List.mem_cons]
  constructor
  · intro ha
    exact ⟨fun heq => hnodup.1 (heq ▸ ha), .inr ha⟩
  · rintro ⟨hne, ha⟩
    exact ha.resolve_left hne

/-- Clearing the mapping of the member at `index` follows its removal from the array. -/
theorem SignerSet.mem_erased (h : SignerSet t) {index : ℕ} (hi : index < t.signers.length)
    (a : Address) :
    update t.isSigner t.signers[index] false a = true ↔ a ∈ t.signers.eraseIdx index := by
  rw [h.mem_eraseIdx hi]
  by_cases ha : a = t.signers[index]
  · subst ha
    rw [update_self]
    exact iff_of_false Bool.false_ne_true (fun hne => hne.1 rfl)
  · rw [update_of_ne ha, h.mem a]
    exact ⟨fun hmem => ⟨ha, hmem⟩, fun hmem => hmem.2⟩

theorem SignerSet.removeSigner (h : SignerSet t) (hok : t.removeSigner c e signer = .ok t') :
    SignerSet t' := by
  simp only [MultisigTimelock.removeSigner, bind_eq_ok, revertIf_eq_ok, pure_eq_ok,
    Unique.exists_iff, PUnit.default_eq_unit, requireValidThreshold_eq_ok] at hok
  obtain ⟨-, -, hvalid, index, hindex, rfl⟩ := hok
  obtain ⟨hi, rfl⟩ := signerIndex_eq_ok hindex
  generalize hthreshold : raised (if t.threshold < t.signers.length - 1 then t.threshold
    else t.signers.length - 1 - 1) (t.signers.length - 1) = newThreshold at hvalid
  have hperm := removeSignerAt_perm hi
  have hlength : (t.removeSignerAt index).signers.length = t.signers.length - 1 := by
    rw [hperm.length_eq, List.length_eraseIdx_of_lt hi]
  have hgetD : t.signers.getD index 0 = t.signers[index] := List.getD_eq_getElem _ _ hi
  have hnew : SignerSet { t.removeSignerAt index with threshold := newThreshold } := by
    refine ⟨hperm.nodup_iff.mpr (h.nodup.sublist (List.eraseIdx_sublist _ _)), ?_, ?_, ?_⟩
    · intro hzero
      exact h.nonzero (List.mem_of_mem_eraseIdx (hperm.mem_iff.mp hzero))
    · intro a
      rw [hperm.mem_iff, ← h.mem_erased hi, ← hgetD]
      exact Iff.rfl
    · rw [hlength]
      exact hvalid
  obtain ⟨hsigners, hmem, hthreshold'⟩ := updateThreshold_signers (t := { t.removeSignerAt index with
    governanceEpoch := (t.removeSignerAt index).governanceEpoch + 1 }) (e := e) newThreshold
      (t.signers.length - 1)
  exact hnew.congr hsigners hmem hthreshold'

theorem SignerSet.swapSigner {oldSigner newSigner : Address} (h : SignerSet t)
    (hok : t.swapSigner c e oldSigner newSigner = .ok t') : SignerSet t' := by
  simp only [MultisigTimelock.swapSigner, bind_eq_ok, revertIf_eq_ok, pure_eq_ok, not_or,
    Unique.exists_iff, PUnit.default_eq_unit] at hok
  obtain ⟨-, ⟨hold, hne, hfresh⟩, index, hindex, rfl⟩ := hok
  obtain ⟨hi, rfl⟩ := signerIndex_eq_ok hindex
  rw [Bool.not_eq_true, h.isSigner_eq_false] at hfresh
  have hperm := List.set_perm_cons_eraseIdx hi newSigner
  have hnot : newSigner ∉ t.signers.eraseIdx index := fun hmem =>
    hfresh (List.mem_of_mem_eraseIdx hmem)
  refine ⟨hperm.nodup_iff.mpr (List.nodup_cons.mpr
    ⟨hnot, h.nodup.sublist (List.eraseIdx_sublist _ _)⟩), ?_, ?_, ?_⟩
  · intro hzero
    obtain heq | hmem := List.mem_cons.mp (hperm.mem_iff.mp hzero)
    · exact hne heq.symm
    · exact h.nonzero (List.mem_of_mem_eraseIdx hmem)
  · intro a
    show update (update t.isSigner t.signers[index] false) newSigner true a = true ↔
      a ∈ t.signers.set index newSigner
    rw [hperm.mem_iff, List.mem_cons, ← h.mem_erased hi]
    by_cases ha : a = newSigner
    · subst ha
      rw [update_self]
      exact iff_of_true rfl (.inl rfl)
    · rw [update_of_ne ha]
      exact ⟨.inr, fun hor => hor.resolve_left ha⟩
  · show ValidThreshold t.threshold (t.signers.set index newSigner).length
    rw [List.length_set]
    exact h.valid

theorem SignerSet.setThreshold {threshold : ℕ} (h : SignerSet t)
    (hok : t.setThreshold c e threshold = .ok t') : SignerSet t' := by
  simp only [MultisigTimelock.setThreshold, bind_eq_ok, pure_eq_ok, Unique.exists_iff,
    PUnit.default_eq_unit, requireValidThreshold_eq_ok] at hok
  obtain ⟨-, hvalid, rfl⟩ := hok
  exact ⟨h.nodup, h.nonzero, h.mem, hvalid⟩

/-! ### What one call does -/

/-- The events that the life of an operation is read from. -/
def Event.lifecycle : Event → Bool
  | .scheduled .. | .executed .. => true
  | _ => false

/-- Nothing that governance decides has changed. -/
structure SameGovernance (t t' : MultisigTimelock) : Prop where
  signers : t'.signers = t.signers
  isSigner : t'.isSigner = t.isSigner
  threshold : t'.threshold = t.threshold
  guardian : t'.guardian = t.guardian
  governanceEpoch : t'.governanceEpoch = t.governanceEpoch
  isPauser : t'.isPauser = t.isPauser
  pauseTargetAllowed : t'.pauseTargetAllowed = t.pauseTargetAllowed

/-- An operation that is still pending or has just ended, in the window it was given. -/
structure Advances (op op' : Op) : Prop where
  pending : op.state = .pending
  eta : op'.eta = op.eta
  expiresAt : op'.expiresAt = op.expiresAt
  overrideClass : op'.overrideClass = op.overrideClass
  family : op'.family = op.family
  state : op'.state = .pending ∨ op'.state = .cancelled ∨ op'.state = .expired

/-- What `execute` checks. -/
structure Ready (c : Config) (e : Env) (o : Operation) (t : MultisigTimelock) : Prop where
  pending : (t.ops (c.opId o)).state = .pending
  le_expiresAt : e.now ≤ (t.ops (c.opId o)).expiresAt
  eta_le : (t.ops (c.opId o)).eta ≤ e.now
  confirmed : t.need c (c.opId o) o ≤ t.currentConfirmations (c.opId o)

/-- The class of the operation that a call schedules. -/
def TimelockCall.scheduledClass : TimelockCall → Option Bool
  | .schedule _ => some false
  | .scheduleOverride _ => some true
  | _ => none

/-- What a call does to the operations, with the class of the operation it schedules, if any, its frame,
and its events, newest first. -/
inductive Move (c : Config) (e : Env) (t t' : MultisigTimelock) :
    Option Bool → Option Frame → List Event → Prop
  | quiet {frame : Option Frame} {events : List Event} :
      t'.ops = t.ops → SameGovernance t t' → t'.executingOverride = t.executingOverride →
      (∀ ev ∈ events, ev.lifecycle = false) → (∀ o b b', frame ≠ some (.execution o b b')) →
      Move c e t t' none frame events
  | scheduled {events : List Event} (o : Operation) (overrideClass : Bool) :
      t.isSigner e.sender = true → (t.ops (c.opId o)).state = .none →
      t'.ops = update t.ops (c.opId o) (MultisigTimelock.newOp c e o overrideClass) → SameGovernance t t' →
      t'.executingOverride = t.executingOverride → (∀ ev ∈ events, ev.lifecycle = false) →
      Move c e t t' (some overrideClass) none
        (events ++ [.scheduled (c.opId o) o (MultisigTimelock.newOp c e o overrideClass).eta])
  | advanced {events : List Event} (id : Bytes32) (op : Op) :
      Advances (t.ops id) op → t'.ops = update t.ops id op → SameGovernance t t' →
      t'.executingOverride = t.executingOverride → (∀ ev ∈ events, ev.lifecycle = false) →
      Move c e t t' none none events
  | began (o : Operation) : Ready c e o t →
      t' = { t.modifyOp (c.opId o) (fun op => { op with state := .executed }) with
        executingOverride := (t.ops (c.opId o)).overrideClass } →
      Move c e t t' none (some (.execution o t.executingOverride false)) []
  | governed {events : List Event} : e.sender = c.address → t.executingOverride = true →
      t'.ops = t.ops → t'.executingOverride = true → (SignerSet t → SignerSet t') →
      (∀ ev ∈ events, ev.lifecycle = false) → Move c e t t' none none events

/-- The events of a call stand before the older ones, with its transaction. -/
def Logged (e : Env) (t t' : MultisigTimelock) (events : List Event) : Prop :=
  t'.logs = events.map (Log.mk e.tx) ++ t.logs

theorem emitScheduled_eq (id : Bytes32) (o : Operation) (op : Op) :
    ∃ events : List Event, (∀ ev ∈ events, ev.lifecycle = false) ∧
      t.emitScheduled e id o op =
        { t with logs := (events ++ [Event.scheduled id o op.eta]).map (Log.mk e.tx) ++ t.logs } := by
  cases hclass : op.overrideClass with
  | false =>
      refine ⟨[.confirmed id e.sender 1], by simp [Event.lifecycle], ?_⟩
      simp [MultisigTimelock.emitScheduled, MultisigTimelock.emit, hclass]
  | true =>
      refine ⟨[.confirmed id e.sender 1, .overrideScheduled id op.family op.eta op.expiresAt],
        by simp [Event.lifecycle], ?_⟩
      simp [MultisigTimelock.emitScheduled, MultisigTimelock.emit, hclass]

theorem scheduleAs_move {o : Operation} {cls : Bool} (hsigner : t.isSigner e.sender = true)
    (h : t.scheduleAs c e o cls = .ok t') :
    ∃ events, Logged e t t' events ∧ Move c e t t' (some cls) none events := by
  simp only [MultisigTimelock.scheduleAs, bind_eq_ok, require_eq_ok, revertIf_eq_ok, pure_eq_ok,
    exists_const, ne_eq, not_not] at h
  obtain ⟨-, hfresh, rfl⟩ := h
  obtain ⟨events, hquiet, heq⟩ := emitScheduled_eq (t := { t with
    ops := update t.ops (c.opId o) (MultisigTimelock.newOp c e o cls)
    confirmedBy := update t.confirmedBy (c.opId o) (update (t.confirmedBy (c.opId o)) e.sender true) })
    (e := e) (c.opId o) o (MultisigTimelock.newOp c e o cls)
  rw [heq]
  exact ⟨_, rfl, .scheduled o cls hsigner hfresh rfl ⟨rfl, rfl, rfl, rfl, rfl, rfl, rfl⟩ rfl hquiet⟩

theorem pendingOp_eq_ok {id : Bytes32} : t.pendingOp e id = .ok () ↔
    (t.ops id).state = .pending ∧ e.now ≤ (t.ops id).expiresAt := by
  simp only [MultisigTimelock.pendingOp, bind_eq_ok, revertIf_eq_ok, exists_const, not_not, ne_eq,
    gt_iff_lt, not_lt]
  constructor
  · rintro ⟨-, hpending, hle⟩
    exact ⟨hpending, hle⟩
  · rintro ⟨hpending, hle⟩
    exact ⟨by rw [hpending]; decide, hpending, hle⟩

theorem confirm_move {id : Bytes32} (h : t.confirm e id = .ok t') :
    ∃ events, Logged e t t' events ∧ Move c e t t' none none events := by
  simp only [MultisigTimelock.confirm, bind_eq_ok, revertIf_eq_ok, pure_eq_ok, Unique.exists_iff,
    PUnit.default_eq_unit, pendingOp_eq_ok] at h
  obtain ⟨-, ⟨hpending, -⟩, -, rfl⟩ := h
  refine ⟨[_], rfl, .advanced id { t.ops id with confirmations := (t.ops id).confirmations + 1 }
    ⟨hpending, rfl, rfl, rfl, rfl, .inl hpending⟩ rfl ⟨rfl, rfl, rfl, rfl, rfl, rfl, rfl⟩ rfl ?_⟩
  simp [Event.lifecycle]

theorem approveSignerRecovery_move {target : Address} {data : Bytes} {salt : Bytes32}
    (h : t.approveSignerRecovery c e target data salt = .ok t') :
    ∃ events, Logged e t t' events ∧ Move c e t t' none none events := by
  simp only [MultisigTimelock.approveSignerRecovery, bind_eq_ok, revertIf_eq_ok, pure_eq_ok,
    Unique.exists_iff] at h
  obtain ⟨-, -, -, -, rfl⟩ := h
  exact ⟨[_], rfl, .quiet rfl ⟨rfl, rfl, rfl, rfl, rfl, rfl, rfl⟩ rfl (by simp [Event.lifecycle])
    fun _ _ _ hframe => by cases hframe⟩

theorem cancel_move {id : Bytes32} (h : t.cancel e id = .ok t') :
    ∃ events, Logged e t t' events ∧ Move c e t t' none none events := by
  simp only [MultisigTimelock.cancel, bind_eq_ok, revertIf_eq_ok, pure_eq_ok, Unique.exists_iff,
    PUnit.default_eq_unit, pendingOp_eq_ok] at h
  obtain ⟨-, ⟨hpending, -⟩, -, -, rfl⟩ := h
  refine ⟨[_], rfl, .advanced id { t.ops id with state := .cancelled }
    ⟨hpending, rfl, rfl, rfl, rfl, .inr (.inl rfl)⟩ rfl ⟨rfl, rfl, rfl, rfl, rfl, rfl, rfl⟩ rfl ?_⟩
  simp [Event.lifecycle]

theorem confirmCancel_move {id : Bytes32} (h : t.confirmCancel e id = .ok t') :
    ∃ events, Logged e t t' events ∧ Move c e t t' none none events := by
  simp only [MultisigTimelock.confirmCancel, bind_eq_ok, revertIf_eq_ok, pure_eq_ok,
    Unique.exists_iff, PUnit.default_eq_unit, pendingOp_eq_ok] at h
  obtain ⟨-, ⟨hpending, -⟩, -, rfl⟩ := h
  unfold MultisigTimelock.cancelIfConfirmed
  split
  · refine ⟨[_, _], rfl, .advanced id
      { t.ops id with
        cancelConfirmations := (t.ops id).cancelConfirmations + 1
        state := .cancelled }
      ⟨hpending, rfl, rfl, rfl, rfl, .inr (.inl rfl)⟩ ?_ ⟨rfl, rfl, rfl, rfl, rfl, rfl, rfl⟩ rfl ?_⟩
    · -- the record is written twice
      simp [MultisigTimelock.emit, MultisigTimelock.modifyOp]
    · simp [Event.lifecycle]
  · refine ⟨[_], rfl, .advanced id
      { t.ops id with cancelConfirmations := (t.ops id).cancelConfirmations + 1 }
      ⟨hpending, rfl, rfl, rfl, rfl, .inl hpending⟩ rfl ⟨rfl, rfl, rfl, rfl, rfl, rfl, rfl⟩ rfl ?_⟩
    simp [Event.lifecycle]

theorem expire_move {id : Bytes32} (h : t.expire e id = .ok t') :
    ∃ events, Logged e t t' events ∧ Move c e t t' none none events := by
  simp only [MultisigTimelock.expire, bind_eq_ok, revertIf_eq_ok, pure_eq_ok, Unique.exists_iff,
    ne_eq, not_not] at h
  obtain ⟨-, hpending, -, rfl⟩ := h
  refine ⟨[_], rfl, .advanced id { t.ops id with state := .expired }
    ⟨hpending, rfl, rfl, rfl, rfl, .inr (.inr rfl)⟩ rfl ⟨rfl, rfl, rfl, rfl, rfl, rfl, rfl⟩ rfl ?_⟩
  simp [Event.lifecycle]

theorem requireReady_eq_ok {o : Operation} : t.requireReady c e o = .ok () ↔ Ready c e o t := by
  simp only [MultisigTimelock.requireReady, bind_eq_ok, revertIf_eq_ok, exists_const, not_not, ne_eq,
    gt_iff_lt, not_lt]
  constructor
  · rintro ⟨hpending, hle, heta, hneed⟩
    exact ⟨hpending, hle, heta, hneed⟩
  · rintro ⟨hpending, hle, heta, hneed⟩
    exact ⟨hpending, hle, heta, hneed⟩

theorem beginExecute_move {o : Operation} {f : Frame} (h : t.beginExecute c e o = .ok (t', f)) :
    ∃ events, Logged e t t' events ∧ Move c e t t' none (some f) events := by
  simp only [MultisigTimelock.beginExecute, bind_eq_ok, pure_eq_ok, Unique.exists_iff,
    PUnit.default_eq_unit, requireReady_eq_ok, Prod.mk.injEq] at h
  obtain ⟨hready, rfl, rfl⟩ := h
  refine ⟨[], rfl, .began o hready ?_⟩
  simp [MultisigTimelock.modifyOp]

/-- A governance function: `t₁` is the storage before its last events are emitted. -/
theorem Move.of_governance {events : List Event} (hself : t.onlySelfOverride c e = .ok ())
    (hops : t'.ops = t.ops) (hoverride : t'.executingOverride = t.executingOverride)
    (hsigners : SignerSet t → SignerSet t') (hquiet : ∀ ev ∈ events, ev.lifecycle = false) :
    Move c e t t' none none events := by
  rw [MultisigTimelock.onlySelfOverride, revertIf_eq_ok, not_or, not_not, Bool.not_eq_false] at hself
  exact .governed hself.1 hself.2 hops (hoverride.trans hself.2) hsigners hquiet

/-- The event of `updateThreshold`, if it emits one. -/
theorem updateThreshold_logs (newThreshold newCount : ℕ) : ∃ events : List Event,
    (∀ ev ∈ events, ev.lifecycle = false) ∧
      Logged e t (t.updateThreshold e newThreshold newCount) events := by
  unfold MultisigTimelock.updateThreshold
  split
  · exact ⟨[_], by simp [Event.lifecycle], rfl⟩
  · exact ⟨[], by simp, rfl⟩

theorem updateThreshold_ops (newThreshold newCount : ℕ) :
    (t.updateThreshold e newThreshold newCount).ops = t.ops ∧
    (t.updateThreshold e newThreshold newCount).executingOverride = t.executingOverride := by
  unfold MultisigTimelock.updateThreshold
  split
  · exact ⟨rfl, rfl⟩
  · exact ⟨rfl, rfl⟩

/-- A function that ends by `updateThreshold` and one more event. -/
theorem updateThreshold_move {newThreshold newCount : ℕ} {t₁ : MultisigTimelock} {event : Event}
    (hself : t.onlySelfOverride c e = .ok ()) (hops : t₁.ops = t.ops)
    (hoverride : t₁.executingOverride = t.executingOverride) (hlogs : t₁.logs = t.logs)
    (hevent : event.lifecycle = false)
    (hsigners : SignerSet t → SignerSet ((t₁.updateThreshold e newThreshold newCount).emit e event)) :
    ∃ events, Logged e t ((t₁.updateThreshold e newThreshold newCount).emit e event) events ∧
      Move c e t ((t₁.updateThreshold e newThreshold newCount).emit e event) none none events := by
  obtain ⟨events, hquiet, hlogged⟩ := updateThreshold_logs (t := t₁) (e := e) newThreshold newCount
  obtain ⟨hops', hoverride'⟩ := updateThreshold_ops (t := t₁) (e := e) newThreshold newCount
  refine ⟨event :: events, ?_, .of_governance hself (hops'.trans hops) (hoverride'.trans hoverride)
    hsigners ?_⟩
  · show _ :: (t₁.updateThreshold e newThreshold newCount).logs =
      _ :: (events.map (Log.mk e.tx) ++ t.logs)
    rw [hlogged, hlogs]
  · intro ev hev
    obtain rfl | hev := List.mem_cons.mp hev
    · exact hevent
    · exact hquiet ev hev

theorem addSigner_move (h : t.addSigner c e signer = .ok t') :
    ∃ events, Logged e t t' events ∧ Move c e t t' none none events := by
  have hsigners : SignerSet t → SignerSet t' := fun hset => hset.addSigner h
  simp only [MultisigTimelock.addSigner, bind_eq_ok, pure_eq_ok, Unique.exists_iff,
    PUnit.default_eq_unit] at h
  obtain ⟨hself, -, -, rfl⟩ := h
  exact updateThreshold_move hself rfl rfl rfl rfl hsigners

theorem removeSigner_move (h : t.removeSigner c e signer = .ok t') :
    ∃ events, Logged e t t' events ∧ Move c e t t' none none events := by
  have hsigners : SignerSet t → SignerSet t' := fun hset => hset.removeSigner h
  simp only [MultisigTimelock.removeSigner, bind_eq_ok, pure_eq_ok, Unique.exists_iff,
    PUnit.default_eq_unit] at h
  obtain ⟨hself, -, -, index, -, rfl⟩ := h
  exact updateThreshold_move hself rfl rfl rfl rfl hsigners

theorem swapSigner_move {oldSigner newSigner : Address}
    (h : t.swapSigner c e oldSigner newSigner = .ok t') :
    ∃ events, Logged e t t' events ∧ Move c e t t' none none events := by
  have hsigners : SignerSet t → SignerSet t' := fun hset => hset.swapSigner h
  simp only [MultisigTimelock.swapSigner, bind_eq_ok, pure_eq_ok, Unique.exists_iff,
    PUnit.default_eq_unit] at h
  obtain ⟨hself, -, index, -, rfl⟩ := h
  exact ⟨[_], rfl, .of_governance hself rfl rfl hsigners (by simp [Event.lifecycle])⟩

theorem setThreshold_move {threshold : ℕ} (h : t.setThreshold c e threshold = .ok t') :
    ∃ events, Logged e t t' events ∧ Move c e t t' none none events := by
  have hsigners : SignerSet t → SignerSet t' := fun hset => hset.setThreshold h
  simp only [MultisigTimelock.setThreshold, bind_eq_ok, pure_eq_ok, Unique.exists_iff,
    PUnit.default_eq_unit] at h
  obtain ⟨hself, -, rfl⟩ := h
  exact ⟨[_], rfl, .of_governance hself rfl rfl hsigners (by simp [Event.lifecycle])⟩

theorem setGuardian_move {guardian : Address} (h : t.setGuardian c e guardian = .ok t') :
    ∃ events, Logged e t t' events ∧ Move c e t t' none none events := by
  simp only [MultisigTimelock.setGuardian, bind_eq_ok, pure_eq_ok, Unique.exists_iff,
    PUnit.default_eq_unit] at h
  obtain ⟨hself, -, rfl⟩ := h
  exact ⟨[_], rfl, .of_governance hself rfl rfl (fun hset => hset.congr rfl rfl rfl)
    (by simp [Event.lifecycle])⟩

theorem setPauser_move {pauser : Address} {allowed : Bool} (h : t.setPauser c e pauser allowed = .ok t') :
    ∃ events, Logged e t t' events ∧ Move c e t t' none none events := by
  simp only [MultisigTimelock.setPauser, bind_eq_ok, pure_eq_ok, Unique.exists_iff,
    PUnit.default_eq_unit] at h
  obtain ⟨hself, -, rfl⟩ := h
  exact ⟨[_], rfl, .of_governance hself rfl rfl (fun hset => hset.congr rfl rfl rfl)
    (by simp [Event.lifecycle])⟩

theorem setPauseTarget_move {target : Address} {allowed : Bool}
    (h : t.setPauseTarget c e target allowed = .ok t') :
    ∃ events, Logged e t t' events ∧ Move c e t t' none none events := by
  simp only [MultisigTimelock.setPauseTarget, bind_eq_ok, pure_eq_ok, Unique.exists_iff,
    PUnit.default_eq_unit] at h
  obtain ⟨hself, -, rfl⟩ := h
  exact ⟨[_], rfl, .of_governance hself rfl rfl (fun hset => hset.congr rfl rfl rfl)
    (by simp [Event.lifecycle])⟩

theorem Move.refl {frame : Option Frame} (hframe : ∀ o b b', frame ≠ some (.execution o b b')) :
    ∃ events, Logged e t t events ∧ Move c e t t none frame events :=
  ⟨[], rfl, .quiet rfl ⟨rfl, rfl, rfl, rfl, rfl, rfl, rfl⟩ rfl (fun _ hev => nomatch hev) hframe⟩

theorem emergencyPause_move {target : Address} {selector : Bytes} {f : Frame}
    (h : t.beginPause c e target selector = .ok f) :
    ∃ events, Logged e t t events ∧ Move c e t t none (some f) events := by
  simp only [MultisigTimelock.beginPause, bind_eq_ok, pure_eq_ok, Unique.exists_iff] at h
  obtain ⟨-, -, -, rfl⟩ := h
  exact Move.refl fun _ _ _ hframe => by cases hframe

/-- A call that makes no call of its own. -/
theorem frameless_move {x : Outcome MultisigTimelock} {cls : Option Bool} {frame : Option Frame}
    (h : ((·, none) <$> x : Outcome (MultisigTimelock × Option Frame)) = .ok (t', frame))
    (hmove : ∀ t₁, x = .ok t₁ → ∃ events, Logged e t t₁ events ∧ Move c e t t₁ cls none events) :
    ∃ events, Logged e t t' events ∧ Move c e t t' cls frame events := by
  simp only [map_eq_ok, Prod.mk.injEq] at h
  obtain ⟨t₁, hok, rfl, rfl⟩ := h
  exact hmove t₁ hok

theorem onlySigner_eq_ok : t.onlySigner e = .ok () ↔ t.isSigner e.sender = true := by
  rw [MultisigTimelock.onlySigner, revertIf_eq_ok, Bool.not_eq_false]

/-- One case for each function of the contract. -/
theorem run_move {f : TimelockCall} {frame : Option Frame} (h : f.run c e t = .ok (t', frame)) :
    ∃ events, Logged e t t' events ∧ Move c e t t' f.scheduledClass frame events := by
  cases f with
  | receive =>
      obtain ⟨rfl, rfl⟩ : t = t' ∧ none = frame := by simpa [TimelockCall.run] using h
      exact Move.refl nofun
  | schedule o =>
      refine frameless_move h (fun t₁ hok => ?_)
      simp only [MultisigTimelock.schedule, bind_eq_ok, Unique.exists_iff, PUnit.default_eq_unit,
        onlySigner_eq_ok] at hok
      exact scheduleAs_move hok.1 hok.2
  | scheduleOverride o =>
      refine frameless_move h (fun t₁ hok => ?_)
      simp only [MultisigTimelock.scheduleOverride, bind_eq_ok, Unique.exists_iff,
        PUnit.default_eq_unit, onlySigner_eq_ok] at hok
      exact scheduleAs_move hok.1 hok.2
  | confirm id => exact frameless_move h (fun _ => confirm_move)
  | approveSignerRecovery target data salt =>
      exact frameless_move h (fun _ => approveSignerRecovery_move)
  | cancel id => exact frameless_move h (fun _ => cancel_move)
  | confirmCancel id => exact frameless_move h (fun _ => confirmCancel_move)
  | expire id => exact frameless_move h (fun _ => expire_move)
  | execute o =>
      simp only [TimelockCall.run, map_eq_ok, Prod.mk.injEq] at h
      obtain ⟨r, hok, rfl, rfl⟩ := h
      exact beginExecute_move hok
  | addSigner signer => exact frameless_move h (fun _ => addSigner_move)
  | removeSigner signer => exact frameless_move h (fun _ => removeSigner_move)
  | swapSigner oldSigner newSigner => exact frameless_move h (fun _ => swapSigner_move)
  | setThreshold threshold => exact frameless_move h (fun _ => setThreshold_move)
  | setGuardian guardian => exact frameless_move h (fun _ => setGuardian_move)
  | setPauser pauser allowed => exact frameless_move h (fun _ => setPauser_move)
  | setPauseTarget target allowed => exact frameless_move h (fun _ => setPauseTarget_move)
  | emergencyPause target selector =>
      simp only [TimelockCall.run, map_eq_ok, Prod.mk.injEq] at h
      obtain ⟨f, hok, rfl, rfl⟩ := h
      exact emergencyPause_move hok

/-! ### What one call keeps -/

theorem Move.signerSet {cls : Option Bool} {frame : Option Frame} {events : List Event}
    (h : Move c e t t' cls frame events) (hset : SignerSet t) : SignerSet t' := by
  cases h with
  | quiet _ hgov _ _ _ => exact hset.congr hgov.signers hgov.isSigner hgov.threshold
  | scheduled o cls _ _ _ hgov _ _ => exact hset.congr hgov.signers hgov.isSigner hgov.threshold
  | advanced id op _ _ hgov _ _ => exact hset.congr hgov.signers hgov.isSigner hgov.threshold
  | began o _ heq =>
      subst heq
      exact hset.congr rfl rfl rfl
  | governed _ _ _ _ hsigners _ => exact hsigners hset

/-- The record of an operation once it is scheduled: its window stays, and its end is final. -/
structure Op.Follows (op op' : Op) : Prop where
  eta : op'.eta = op.eta
  expiresAt : op'.expiresAt = op.expiresAt
  overrideClass : op'.overrideClass = op.overrideClass
  family : op'.family = op.family
  scheduled : op'.state ≠ .none
  final : op.state ≠ .pending → op' = op

theorem Op.Follows.refl {op : Op} (h : op.state ≠ .none) : op.Follows op :=
  ⟨rfl, rfl, rfl, rfl, h, fun _ => rfl⟩

theorem Advances.follows {op op' : Op} (h : Advances op op') : op.Follows op' := by
  refine ⟨h.eta, h.expiresAt, h.overrideClass, h.family, ?_, fun hne => absurd h.pending hne⟩
  obtain hs | hs | hs := h.state <;> rw [hs] <;> exact nofun

theorem Move.follows {cls : Option Bool} {frame : Option Frame} {events : List Event}
    (h : Move c e t t' cls frame events) {id : Bytes32} (hid : (t.ops id).state ≠ .none) :
    (t.ops id).Follows (t'.ops id) := by
  cases h with
  | quiet hops _ _ _ _ =>
      rw [hops]
      exact .refl hid
  | scheduled o cls _ hfresh hops _ _ _ =>
      have hne : id ≠ c.opId o := fun heq => hid (heq ▸ hfresh)
      rw [hops, update_of_ne hne]
      exact .refl hid
  | advanced id' op hadv hops _ _ _ =>
      rw [hops]
      by_cases hne : id = id'
      · subst hne
        rw [update_self]
        exact hadv.follows
      · rw [update_of_ne hne]
        exact .refl hid
  | began o hready heq =>
      subst heq
      show (t.ops id).Follows (update t.ops _ _ id)
      by_cases hne : id = c.opId o
      · subst hne
        rw [update_self]
        exact ⟨rfl, rfl, rfl, rfl, nofun, fun hstate => absurd hready.pending hstate⟩
      · rw [update_of_ne hne]
        exact .refl hid
  | governed _ _ hops _ _ _ =>
      rw [hops]
      exact .refl hid

end

/-! ### What one step of a run does -/

section

variable {c : Config} {w w' : World} {a : Action}

inductive Stepped (c : Config) (w : World) : Action → World → Prop
  | transacted {tx : Tx} : w.frames = [] → w.tx.timestamp ≤ tx.timestamp →
      w.tx.blockNumber ≤ tx.blockNumber → Stepped c w (.transact tx) { w with tx := tx }
  | called {sender : Address} {f : TimelockCall} {t : MultisigTimelock} {frame : Option Frame} :
      sender ≠ c.address → f.run c ⟨sender, w.tx⟩ w.timelock = .ok (t, frame) →
      Stepped c w (.call sender f) { w with timelock := t, frames := frame.toList ++ w.frames }
  | selfCalled {o : Operation} {previousOverride : Bool} {frames : List Frame} {f : TimelockCall}
      {t : MultisigTimelock} {frame : Option Frame} :
      w.frames = .execution o previousOverride false :: frames → c.dispatch o.data = some f →
      o.target = c.address → f.run c ⟨c.address, w.tx⟩ w.timelock = .ok (t, frame) →
      Stepped c w .selfCall
        { w with timelock := t, frames := frame.toList ++ .execution o previousOverride true :: frames }
  | returned {o : Operation} {previousOverride entered : Bool} {frames : List Frame} :
      w.frames = .execution o previousOverride entered :: frames →
      (o.target ≠ c.address ∨ entered = true) →
      Stepped c w .finish
        { w with
          timelock := { w.timelock with executingOverride := previousOverride }.emit ⟨0, w.tx⟩
            (.executed (c.opId o) o.target o.value)
          frames := frames }
  | paused {caller target : Address} {selector : Bytes} {frames : List Frame} :
      w.frames = .pause caller target selector :: frames → target ≠ c.address →
      Stepped c w .finish
        { w with
          timelock := w.timelock.emit ⟨0, w.tx⟩ (.emergencyPaused caller target selector)
          frames := frames }

theorem call_eq_some {sender : Address} {f : TimelockCall} (h : w.call c sender f = some w') :
    ∃ t frame, f.run c ⟨sender, w.tx⟩ w.timelock = .ok (t, frame) ∧
      w' = { w with timelock := t, frames := frame.toList ++ w.frames } := by
  unfold World.call at h
  split at h
  · next t frame hrun => exact ⟨t, frame, hrun, (Option.some.inj h).symm⟩
  · cases h

theorem selfCall_stepped (h : w.selfCall c = some w') : Stepped c w .selfCall w' := by
  unfold World.selfCall at h
  split at h
  · next o previousOverride frames hframes =>
      split at h
      · next f hdispatch =>
          split at h
          · next htarget =>
              obtain ⟨t, frame, hrun, rfl⟩ := call_eq_some h
              exact .selfCalled hframes hdispatch htarget.1 hrun
          · cases h
      · cases h
  · cases h

theorem finish_stepped (h : w.finish c = some w') : Stepped c w .finish w' := by
  unfold World.finish at h
  dsimp only at h
  split at h
  · next o previousOverride entered frames hframes =>
      split at h
      · next hdone =>
          obtain rfl := Option.some.inj h
          exact .returned hframes hdone
      · cases h
  · next caller target selector frames hframes =>
      split at h
      · next htarget =>
          obtain rfl := Option.some.inj h
          exact .paused hframes htarget
      · cases h
  · cases h

theorem step_stepped (h : (timelock c).step w a = some w') : Stepped c w a w' := by
  cases a with
  | transact tx =>
      simp only [timelock, World.step, World.transact, Option.ite_none_right_eq_some,
        Option.some.injEq] at h
      obtain ⟨⟨hframes, htime, hblock⟩, rfl⟩ := h
      exact .transacted hframes htime hblock
  | call sender f =>
      simp only [timelock, World.step, Option.ite_none_right_eq_some] at h
      obtain ⟨hsender, hcall⟩ := h
      obtain ⟨t, frame, hrun, rfl⟩ := call_eq_some hcall
      exact .called hsender hrun
  | selfCall => exact selfCall_stepped h
  | finish => exact finish_stepped h

theorem Stepped.signerSet (h : Stepped c w a w') (hset : SignerSet w.timelock) :
    SignerSet w'.timelock := by
  cases h with
  | transacted _ _ _ => exact hset
  | called _ hrun =>
      obtain ⟨events, -, hmove⟩ := run_move hrun
      exact hmove.signerSet hset
  | selfCalled _ _ _ hrun =>
      obtain ⟨events, -, hmove⟩ := run_move hrun
      exact hmove.signerSet hset
  | returned _ _ => exact hset.congr rfl rfl rfl
  | paused _ _ => exact hset.congr rfl rfl rfl

theorem signerSet_of_reachable (h : (timelock c).Reachable Free w) : SignerSet w.timelock := by
  refine h.invariant ?_ (fun w a w' _ hset _ hstep => (step_stepped hstep).signerSet hset)
  rintro w ⟨signers, threshold, guardian, hok, -⟩
  obtain ⟨-, -, -, hset, -⟩ := construct_ok hok
  exact hset

/-! ### Growth and shrinkage of the signer set -/

variable {t : MultisigTimelock} {e : Env} {signer : Address}

theorem addSigner_of_fresh (hset : SignerSet t) (hself : t.onlySelfOverride c e = .ok ())
    (hne : signer ≠ 0) (hfresh : signer ∉ t.signers) :
    ∃ t', t.addSigner c e signer = .ok t' ∧ t'.signers = t.signers ++ [signer] := by
  simp only [MultisigTimelock.addSigner, bind_eq_ok, pure_eq_ok, revertIf_eq_ok, Unique.exists_iff,
    PUnit.default_eq_unit, requireValidThreshold_eq_ok, not_or, Bool.not_eq_true,
    hset.isSigner_eq_false]
  exact ⟨_, ⟨hself, ⟨hne, hfresh⟩, hset.valid.add, rfl⟩, (updateThreshold_signers _ _).1⟩

theorem removeSigner_of_mem (hset : SignerSet t) (hself : t.onlySelfOverride c e = .ok ())
    (hmem : signer ∈ t.signers) (hcount : 4 ≤ t.signers.length) :
    ∃ t', t.removeSigner c e signer = .ok t' ∧ t'.signers.Perm (t.signers.erase signer) := by
  obtain ⟨index, hindex⟩ := signerIndex_of_mem hmem
  obtain ⟨hi, hget⟩ := signerIndex_eq_ok hindex
  have herase : t.signers.eraseIdx index = t.signers.erase signer := by
    rw [← hget, hset.nodup.erase_getElem]
  simp only [MultisigTimelock.removeSigner, bind_eq_ok, pure_eq_ok, revertIf_eq_ok, Unique.exists_iff,
    PUnit.default_eq_unit, requireValidThreshold_eq_ok, Bool.not_eq_false, hset.mem]
  refine ⟨_, ⟨hself, hmem, hset.valid.remove hcount, index, hindex, rfl⟩, ?_⟩
  rw [← herase]
  refine List.Perm.trans (.of_eq ?_) (removeSignerAt_perm hi)
  exact (updateThreshold_signers _ _).1

/-- The signers of every reachable state, and what governance can do to them. -/
theorem signerSetLaws (h : (timelock c).Reachable Free w) :
    w.timelock.signers.Nodup ∧ 0 ∉ w.timelock.signers ∧
    (∀ a, w.timelock.isSigner a = true ↔ a ∈ w.timelock.signers) ∧
    3 ≤ w.timelock.signers.length ∧ w.timelock.signers.length < 2 * w.timelock.threshold ∧
    w.timelock.overrideThreshold ≤ w.timelock.signers.length ∧
    ∀ e : Env, e.sender = c.address → w.timelock.executingOverride = true →
      (∀ signer, signer ≠ 0 → signer ∉ w.timelock.signers →
        ∃ t', w.timelock.addSigner c e signer = .ok t' ∧ t'.signers = w.timelock.signers ++ [signer]) ∧
      (∀ signer ∈ w.timelock.signers, 4 ≤ w.timelock.signers.length →
        ∃ t', w.timelock.removeSigner c e signer = .ok t' ∧
          t'.signers.Perm (w.timelock.signers.erase signer)) := by
  have hset := signerSet_of_reachable h
  have hmajority := hset.valid.majority
  refine ⟨hset.nodup, hset.nonzero, hset.mem, hset.valid.count_ge, by omega, hset.valid.override_le, ?_⟩
  intro e hsender hoverride
  have hself : w.timelock.onlySelfOverride c e = .ok () := by
    rw [MultisigTimelock.onlySelfOverride, revertIf_eq_ok, not_or, not_not, Bool.not_eq_false]
    exact ⟨hsender, hoverride⟩
  exact ⟨fun signer hne hfresh => addSigner_of_fresh hset hself hne hfresh,
    fun signer hmem hcount => removeSigner_of_mem hset hself hmem hcount⟩

end

/-! ### A run -/

namespace Sample

def crypto : Crypto where
  keccak256 bs := BitVec.ofNat 256 (bs.foldl (fun acc b => (acc * 257 + b.toNat) % 2 ^ 256) 7)
  sha256 bs := BitVec.ofNat 256 (bs.foldl (fun acc b => (acc * 263 + b.toNat) % 2 ^ 256) 11)
  ecrecover _ _ _ _ := 0
  chainid := 8453

def newSigner : Address := 104

/-- The calldata of `addSigner(newSigner)`. -/
def addSignerCall (selector : String → Bytes) : Bytes :=
  selector "addSigner(address)" ++ wordBytes newSigner.word

def config (delaySeconds : ℕ) : Config :=
  let bare : Config := ⟨crypto, 1000, delaySeconds, fun _ => none⟩
  { bare with
    dispatch := fun data => if data = addSignerCall bare.selector then some (.addSigner newSigner) else none }

def operation : Operation := ⟨1000, 0, addSignerCall (config 0).selector, 0⟩

def tx (timestamp : ℕ) (h : timestamp < 2 ^ 64 := by decide) : Tx := ⟨timestamp, 0, 0, 0, h⟩

/-- A timelock of three signers, of which two are the threshold. -/
def deployed (delaySeconds : ℕ) : World where
  timelock := (MultisigTimelock.construct (config delaySeconds) [101, 102, 103] 2 9).toOption.getD {}
  frames := []
  tx := tx 1700000000

theorem deployed_init {d : ℕ}
    (h : (MultisigTimelock.construct (config d) [101, 102, 103] 2 9).toOption.isSome = true) :
    (timelock (config d)).init (deployed d) := by
  refine ⟨[101, 102, 103], 2, 9, ?_, rfl⟩
  unfold deployed
  revert h
  cases MultisigTimelock.construct (config d) [101, 102, 103] 2 9 with
  | error => exact nofun
  | ok t => exact fun _ => rfl

/-- All signers confirm the addition of a signer, as an override operation. -/
def confirmations : List Action :=
  [.call 101 (.scheduleOverride operation),
   .call 102 (.confirm ((config 0).opId operation)),
   .call 103 (.confirm ((config 0).opId operation))]

/-- The operation is being executed two days later. -/
def execution : List Action := confirmations ++ [.transact (tx 1700172800), .call 101 (.execute operation)]

end Sample

/-- While the addition of a signer is being executed, another one can still be added. -/
theorem signerSetLaws_execution : ∃ w, (timelock (Sample.config 86400)).Reachable Free w ∧
    w.timelock.signers = [101, 102, 103, 104] ∧
    w.timelock.overrideThreshold ≤ w.timelock.signers.length ∧
    (∃ t', w.timelock.addSigner (Sample.config 86400) ⟨1000, w.tx⟩ 105 = .ok t' ∧
      t'.signers = w.timelock.signers ++ [105]) ∧
    (∃ t', w.timelock.removeSigner (Sample.config 86400) ⟨1000, w.tx⟩ 101 = .ok t' ∧
      t'.signers.Perm (w.timelock.signers.erase 101)) := by
  have hexec : ((timelock (Sample.config 86400)).exec (Sample.deployed 86400)
      (Sample.execution ++ [.selfCall])).map
        (fun w => (w.timelock.signers, w.timelock.executingOverride)) =
      some ([101, 102, 103, 104], true) := by
    decide +kernel
  obtain ⟨w, hw, hfacts⟩ := Option.map_eq_some_iff.mp hexec
  rw [Prod.mk.injEq] at hfacts
  obtain ⟨hsigners, hoverride⟩ := hfacts
  have hreach : (timelock (Sample.config 86400)).Reachable Free w :=
    .of_exec (Sample.deployed_init (by decide +kernel)) hw
  obtain ⟨-, -, -, -, -, hthreshold, hgovern⟩ := signerSetLaws hreach
  obtain ⟨hadd, hremove⟩ := hgovern ⟨1000, w.tx⟩ rfl hoverride
  refine ⟨w, hreach, hsigners, hthreshold, hadd 105 (by decide) ?_, hremove 101 ?_ ?_⟩
  · rw [hsigners]
    decide
  · rw [hsigners]
    decide
  · rw [hsigners]
    decide

end P42Prizes.Timelock
