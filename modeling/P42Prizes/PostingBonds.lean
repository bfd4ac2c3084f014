import P42Prizes.Register

/-! # The posting bonds

The events of the submission manager are read as a book of postings: a commit and a top-up post a
bond under the submission, `_makeBondClaimable` settles everything posted under it to one
account.  `SubmissionManager.vault` is the book together with what the storage says, and every
call is one operation of the vault or none (`Move.sound`), so the vault stays sound.  The last
part follows the bonds that collateralize a credit. -/

namespace P42Prizes

open Reverting Function Transition Finset

/-- What an event does to the book of postings. -/
def ManagerEvent.book : ManagerEvent → Escrow.Book ℕ Address → Escrow.Book ℕ Address
  | committed id _ _ _ bondWei _ _ _ _, b => b.post id bondWei
  | bondToppedUp id _ amount _, b => b.post id amount
  | submissionBondClaimable id claimant _, b => b.settle id claimant
  | _, b => b

/-- What an event says was paid to `a`. -/
def ManagerEvent.paidTo (a : Address) : ManagerEvent → ℕ
  | bondClaimed claimant amount => if claimant = a then amount else 0
  | _ => 0

theorem ManagerEvent.book_settledTo (ev : ManagerEvent) {b : Escrow.Book ℕ Address} {n : ℕ}
    {p : Escrow.Posting ℕ Address} {a : Address} (h : b.SettledTo n p a) :
    (ev.book b).SettledTo n p a := by
  cases ev with
  | committed => exact h.post _ _
  | bondToppedUp => exact h.post _ _
  | submissionBondClaimable => exact h.settle _ _
  | _ => exact h

theorem ManagerEvent.IsNote.book {ev : ManagerEvent} (h : ev.IsNote) (b : Escrow.Book ℕ Address) :
    ev.book b = b := by
  cases ev with
  | committed => exact h.elim
  | bondToppedUp => exact h.elim
  | submissionBondClaimable => exact h.elim
  | _ => rfl

theorem ManagerEvent.IsNote.paidTo {ev : ManagerEvent} (h : ev.IsNote) (a : Address) :
    ev.paidTo a = 0 := by
  cases ev with
  | bondClaimed => exact h.elim
  | _ => rfl

namespace SubmissionManager

variable {d : Deployment} {e : Env} {l l' : PayoutLedger} {p : BountyPool}
  {s s' t : SubmissionManager} {c : ManagerCall} {f : List Frame}

/-- The book of all postings. -/
def postings (s : SubmissionManager) : Escrow.Book ℕ Address := s.logs.foldr ManagerEvent.book []

/-- What `a` has withdrawn so far. -/
def withdrawn (s : SubmissionManager) (a : Address) : ℕ := (s.logs.map (ManagerEvent.paidTo a)).sum

/-- The posting bonds; `sent` is what suspended withdrawals have sent. -/
def vault (sent : Address → ℕ) (s : SubmissionManager) : Escrow.Vault ℕ Address where
  escrow := ⟨fun id => (s.submissions id).bondWei, s.claimableBondWei⟩
  book := s.postings
  out a := s.withdrawn a + sent a
  balance := s.balance
  surplus := s.forcedEth
  keys := range (s.submissionCount + 1)

/-! ### The vault under the updates -/

variable (sent : Address → ℕ)

theorem vault_congr (hbond : ∀ id, (t.submissions id).bondWei = (s.submissions id).bondWei)
    (hclaim : t.claimableBondWei = s.claimableBondWei) (hbook : t.postings = s.postings)
    (hout : t.withdrawn = s.withdrawn) (hbalance : t.balance = s.balance)
    (hforced : t.forcedEth = s.forcedEth) (hcount : t.submissionCount = s.submissionCount) :
    t.vault sent = s.vault sent := by
  have hbond' : (fun id => (t.submissions id).bondWei) = fun id => (s.submissions id).bondWei :=
    funext hbond
  rw [vault, vault, hbond', hclaim, hbook, hout, hbalance, hforced, hcount]

theorem foldr_book_of_isNote {evs : List ManagerEvent} (h : ∀ ev ∈ evs, ev.IsNote)
    (b : Escrow.Book ℕ Address) : evs.foldr ManagerEvent.book b = b := by
  induction evs with
  | nil => rfl
  | cons ev evs ih =>
      rw [List.foldr_cons, ih (fun x hx => h x (List.mem_cons_of_mem _ hx)),
        (h ev (List.mem_cons_self ..)).book]

theorem sum_paidTo_of_isNote {evs : List ManagerEvent} (h : ∀ ev ∈ evs, ev.IsNote) (a : Address) :
    (evs.map (ManagerEvent.paidTo a)).sum = 0 := by
  induction evs with
  | nil => rfl
  | cons ev evs ih =>
      rw [List.map_cons, List.sum_cons, (h ev (List.mem_cons_self ..)).paidTo, zero_add]
      exact ih (fun x hx => h x (List.mem_cons_of_mem _ hx))

theorem vault_note {evs : List ManagerEvent} (h : ∀ ev ∈ evs, ev.IsNote) :
    (s.note evs).vault sent = s.vault sent := by
  refine vault_congr sent (fun _ => rfl) rfl ?_ ?_ rfl rfl rfl
  · show (evs ++ s.logs).foldr ManagerEvent.book [] = _
    rw [List.foldr_append, foldr_book_of_isNote h]
    rfl
  · funext a
    show ((evs ++ s.logs).map (ManagerEvent.paidTo a)).sum = _
    rw [List.map_append, List.sum_append, sum_paidTo_of_isNote h, zero_add]
    rfl

/-- An update of one submission that keeps its bond. -/
theorem sound_update (h : (s.vault sent).Sound) {id : ℕ} {sub : Submission}
    (hsub : t.submissions = update s.submissions id sub)
    (hbond : sub.bondWei = (s.submissions id).bondWei)
    (hclaim : t.claimableBondWei = s.claimableBondWei) (hlogs : t.logs = s.logs)
    (hbalance : t.balance = s.balance) (hforced : t.forcedEth = s.forcedEth)
    (hcount : t.submissionCount = s.submissionCount) : (t.vault sent).Sound := by
  have hpostings : t.postings = s.postings := by rw [postings, postings, hlogs]
  have hout : t.withdrawn = s.withdrawn := by
    funext a
    rw [withdrawn, withdrawn, hlogs]
  refine (vault_congr sent (fun j => ?_) hclaim hpostings hout hbalance hforced hcount) ▸ h
  rw [hsub]
  by_cases hj : j = id
  · subst hj
    rw [update_self, hbond]
  · rw [update_of_ne hj]

theorem vault_payBond (id : ℕ) (a : Address) :
    (s.payBond id a).vault sent =
      if (s.submissions id).bondWei = 0 then s.vault sent else (s.vault sent).settle id a := by
  have hheld : (fun j => ((s.payBond id a).submissions j).bondWei) =
      update (fun j => (s.submissions j).bondWei) id 0 := by
    funext j
    by_cases hj : j = id
    · subst hj
      simp [payBond]
    · simp [payBond, hj]
  split
  · rename_i hzero
    have hsub : { s.submissions id with bondWei := 0 } = s.submissions id := by rw [← hzero]
    have hpay : s.payBond id a = s := by
      simp only [payBond, hsub, update_eq_self, hzero, add_zero, bondEvents, if_true,
        List.nil_append]
    rw [hpay]
  · rename_i hne
    have hlogs : (s.payBond id a).logs =
        .submissionBondClaimable id a (s.submissions id).bondWei :: s.logs := by
      simp only [payBond, bondEvents, hne, if_false, List.singleton_append]
    have hbook : (s.payBond id a).postings = s.postings.settle id a := by
      rw [postings, hlogs]
      rfl
    have hout : (s.payBond id a).withdrawn = s.withdrawn := by
      funext b
      rw [withdrawn, hlogs, List.map_cons, List.sum_cons]
      exact zero_add _
    rw [vault, hheld, hbook, hout]
    rfl

/-- Settling a bond keeps the vault sound. -/
theorem sound_payBond (h : (s.vault sent).Sound) (id : ℕ) (a : Address) :
    ((s.payBond id a).vault sent).Sound := by
  rw [vault_payBond]
  split
  · exact h
  · exact h.settle id a

theorem vault_emit {ev : ManagerEvent} (h : ev.book = id ∧ ∀ a, ev.paidTo a = 0) :
    (s.emit ev).vault sent = s.vault sent := by
  refine vault_congr sent (fun _ => rfl) rfl ?_ ?_ rfl rfl rfl
  · show ev.book s.postings = s.postings
    rw [h.1]
    rfl
  · funext a
    show ev.paidTo a + s.withdrawn a = s.withdrawn a
    rw [h.2, zero_add]

theorem sound_retire (h : (s.vault sent).Sound) (id : ℕ) (source : SubmissionStatus) (a : Address)
    {evs : List ManagerEvent} (hevs : ∀ ev ∈ evs, ev.IsNote) :
    ((((s.retire id source .rejected).payBond id a).note evs).vault sent).Sound := by
  rw [vault_note sent hevs]
  refine sound_payBond sent ?_ id a
  exact sound_update sent h rfl rfl rfl rfl rfl rfl rfl

theorem sound_supersede (h : (s.vault sent).Sound) (id pid : ℕ) :
    ((s.supersede id pid).vault sent).Sound := by
  unfold supersede
  split
  · exact sound_retire sent h pid .revealed _ (by simp [ManagerEvent.IsNote])
  · exact h

theorem sound_takePriority (h : (s.vault sent).Sound) (id : ℕ) (hash : Bytes32) :
    ((s.takePriority id hash).vault sent).Sound := by
  have hpublished : ((((s.setSolutionCidHash id hash).publish id).note
      [.duplicatePriorityAssigned hash id]).vault sent).Sound := by
    rw [vault_note sent (by simp [ManagerEvent.IsNote])]
    exact sound_update sent h rfl rfl rfl rfl rfl rfl rfl
  unfold takePriority
  dsimp only
  split
  · exact hpublished
  · exact sound_supersede sent hpublished id _

theorem sound_yieldPriority (h : (s.vault sent).Sound) (id : ℕ) (hash : Bytes32) :
    ((s.yieldPriority id hash).vault sent).Sound := by
  refine sound_retire sent ?_ id .committed _ (by simp [ManagerEvent.IsNote])
  exact h

/-! ### Calls -/

/-- A call without value keeps the vault sound. -/
theorem Move.sound (hmove : Move d e l p s c s' l' f) {sent' : Address → ℕ}
    (hsent : ∀ a, sent' a = inFlight (Frame.managerBondOf a) f + sent a)
    (hpay : (Call.manager c).payable = false) (h : (s.vault sent).Sound) :
    (s'.vault sent').Sound := by
  have hkeep : f = [] → sent' = sent := by
    rintro rfl
    funext a
    rw [hsent, inFlight_nil, zero_add]
  cases hmove with
  | administer _ hadmin =>
      rw [hkeep rfl]
      obtain ⟨evs, hevs, hlogs⟩ := hadmin.logs
      have hregister := hadmin.register
      have hbonds := hadmin.bonds
      have hvault : s'.vault sent = (s.note evs).vault sent := by
        refine vault_congr sent (fun id => ?_) ?_ ?_ ?_ ?_ ?_ ?_
        · exact congrArg (fun r => (r.submissions id).bondWei) hregister
        · exact congrArg BondState.claimableBondWei hbonds
        · rw [postings, hlogs]
          rfl
        · funext a
          rw [withdrawn, hlogs]
          rfl
        · exact congrArg BondState.balance hbonds
        · exact congrArg BondState.forcedEth hbonds
        · exact congrArg RegisterState.submissionCount hregister
      rw [hvault, vault_note sent hevs]
      exact h
  | commit => cases hpay
  | addBond => cases hpay
  | @reveal id _ cid _ _ _ r t recorded _ _ _ _ _ _ _ _ _ _ _ hrec =>
      subst hrec
      rw [hkeep rfl, vault_emit sent ⟨rfl, fun _ => rfl⟩]
      have hrecorded : ((s.recordReveal d e id r t).vault sent).Sound :=
        sound_update sent h rfl rfl rfl rfl rfl rfl rfl
      split
      · exact sound_takePriority sent hrecorded id _
      · exact sound_yieldPriority sent hrecorded id _
  | retire _ evs _ _ _ hevs =>
      rw [hkeep rfl]
      exact sound_retire sent h _ _ _ hevs
  | @finalize id hash =>
      rw [hkeep rfl]
      have hevs : ∀ ev ∈ s.finalizeEvents d e id hash p, ev.IsNote := by
        unfold finalizeEvents
        split <;> simp [ManagerEvent.IsNote]
      unfold finalized
      dsimp only
      rw [vault_note sent hevs]
      have hfinal : ((s.finalizeAs e id hash (s.gain d (s.submissions id).claimedScoreAtoms)
          (s.creditOf d id)).vault sent).Sound := sound_update sent h rfl rfl rfl rfl rfl rfl rfl
      split
      · exact sound_payBond sent hfinal _ _
      · exact hfinal
  | release =>
      rw [hkeep rfl]
      exact sound_payBond sent h _ _
  | @void id =>
      rw [hkeep rfl]
      unfold voided
      dsimp only
      rw [vault_note sent (by split <;> simp [ManagerEvent.IsNote])]
      refine sound_payBond sent ?_ _ _
      exact sound_update sent h rfl rfl rfl rfl rfl rfl rfl
  | mark =>
      rw [hkeep rfl, vault_note sent (by simp [ManagerEvent.IsNote])]
      exact sound_update sent h rfl rfl rfl rfl rfl rfl rfl
  | rearm evs _ _ _ _ _ _ hevs =>
      rw [hkeep rfl, vault_note sent hevs]
      exact sound_update sent h rfl rfl rfl rfl rfl rfl rfl
  | @clear id _ evs _ _ _ _ hevs =>
      rw [hkeep rfl, vault_note sent hevs]
      exact sound_update sent h rfl rfl rfl rfl rfl rfl rfl
  | withdraw =>
      have hout : (fun a => s.withdrawn a + sent' a) = update (fun a => s.withdrawn a + sent a)
          e.sender (s.withdrawn e.sender + sent e.sender + s.claimableBondWei e.sender) := by
        funext a
        rw [hsent a, inFlight_cons, inFlight_nil]
        by_cases ha : a = e.sender
        · subst ha
          rw [update_self]
          simp only [Frame.managerBondOf, if_true]
          omega
        · rw [update_of_ne ha]
          have hne : ¬ e.sender = a := fun heq => ha heq.symm
          simp only [Frame.managerBondOf, hne, if_false]
          omega
      have hvault : (s.withdraw e.sender).vault sent' = (s.vault sent).withdraw e.sender := by
        show Escrow.Vault.mk _ _ (fun a => s.withdrawn a + sent' a) _ _ _ = _
        rw [hout]
        rfl
      rw [hvault]
      exact h.withdraw e.sender

/-- A commit posts a bond under the new submission. -/
theorem sound_commit (h : (t.vault sent).Sound) (hr : Registered t.submissionCount t.entry)
    {sub : Submission} {b activeAt : ℕ} {paid : Bool} {ev : ManagerEvent}
    (hs : s = { t with balance := t.balance + e.value }) (hbond : sub.bondWei = e.value)
    (hbook : ev.book = fun b => b.post (s.submissionCount + 1) e.value)
    (hpaid : ∀ a, ev.paidTo a = 0) :
    (((s.addCommit sub b activeAt paid).emit ev).vault sent).Sound := by
  subst hs
  have hzero : (t.submissions (t.submissionCount + 1)).bondWei = 0 := by
    refine hr.bond (t.submissionCount + 1) ?_
    by_contra hne
    have hle := ((hr.solver (t.submissionCount + 1)).mp hne).2
    omega
  have hheld : (fun id => (update t.submissions (t.submissionCount + 1) sub id).bondWei) =
      update (fun id => (t.submissions id).bondWei) (t.submissionCount + 1)
        ((t.submissions (t.submissionCount + 1)).bondWei + e.value) := by
    funext j
    by_cases hj : j = t.submissionCount + 1
    · subst hj
      rw [update_self, update_self, hbond, hzero, zero_add]
    · rw [update_of_ne hj, update_of_ne hj]
  have hkeys : range (t.submissionCount + 1 + 1) =
      insert (t.submissionCount + 1) (range (t.submissionCount + 1)) := range_add_one
  have hvault : ((({ t with balance := t.balance + e.value } : SubmissionManager).addCommit sub b
      activeAt paid).emit ev).vault sent =
        (t.vault sent).deposit (t.submissionCount + 1) e.value := by
    have hout : ∀ a, ((({ t with balance := t.balance + e.value } : SubmissionManager).addCommit sub b
        activeAt paid).emit ev).withdrawn a = t.withdrawn a := by
      intro a
      show ev.paidTo a + t.withdrawn a = t.withdrawn a
      rw [hpaid, zero_add]
    show Escrow.Vault.mk ⟨fun id => (update t.submissions (t.submissionCount + 1) sub id).bondWei,
      t.claimableBondWei⟩ (ev.book t.postings) (fun a => SubmissionManager.withdrawn _ a + sent a)
      (t.balance + e.value) t.forcedEth (range (t.submissionCount + 1 + 1)) = _
    simp only [hout]
    rw [hheld, hbook, hkeys]
    rfl
  rw [hvault]
  exact h.deposit _ _

/-- A top-up posts more under an existing submission. -/
theorem sound_addBond (h : (t.vault sent).Sound) {id : ℕ} {ev : ManagerEvent}
    (hs : s = { t with balance := t.balance + e.value }) (hid : id ≤ t.submissionCount)
    (hbook : ev.book = fun b => b.post id e.value) (hpaid : ∀ a, ev.paidTo a = 0) :
    (((s.addBond id e.value).emit ev).vault sent).Sound := by
  subst hs
  have hheld : (fun j => (update t.submissions id { t.submissions id with
      bondWei := (t.submissions id).bondWei + e.value } j).bondWei) =
      update (fun id => (t.submissions id).bondWei) id ((t.submissions id).bondWei + e.value) := by
    funext j
    by_cases hj : j = id
    · subst hj
      rw [update_self, update_self]
    · rw [update_of_ne hj, update_of_ne hj]
  have hkeys : insert id (range (t.submissionCount + 1)) = range (t.submissionCount + 1) :=
    insert_eq_self.mpr (mem_range.mpr (by omega))
  have hout : ∀ a, ((({ t with balance := t.balance + e.value } : SubmissionManager).addBond id
      e.value).emit ev).withdrawn a = t.withdrawn a := by
    intro a
    show ev.paidTo a + t.withdrawn a = t.withdrawn a
    rw [hpaid, zero_add]
  have hvault : ((({ t with balance := t.balance + e.value } : SubmissionManager).addBond id
      e.value).emit ev).vault sent = (t.vault sent).deposit id e.value := by
    show Escrow.Vault.mk ⟨fun j => (update t.submissions id { t.submissions id with
        bondWei := (t.submissions id).bondWei + e.value } j).bondWei, t.claimableBondWei⟩
      (ev.book t.postings) (fun a => SubmissionManager.withdrawn _ a + sent a)
      (t.balance + e.value) t.forcedEth (range (t.submissionCount + 1)) = _
    simp only [hout]
    rw [hheld, hbook]
    show _ = Escrow.Vault.mk _ _ _ _ _ (insert id (range (t.submissionCount + 1)))
    rw [hkeys]
    rfl
  rw [hvault]
  exact h.deposit _ _

end SubmissionManager

/-- The posting bonds of a board. -/
def World.postingVault (w : World) : Escrow.Vault ℕ Address :=
  w.sm.vault (fun a => inFlight (Frame.managerBondOf a) w.frames)

theorem postingVault_step {d : Deployment} {w w' : World} {a : Action}
    (hr : SubmissionManager.Registered w.sm.submissionCount w.sm.entry) (h : w.postingVault.Sound)
    (hstep : w.step d a = some w') : w'.postingVault.Sound := by
  cases manager_stepped hstep with
  | quiet _ hsm _ hframes =>
      have hsame : w'.postingVault = w.postingVault := by
        rw [World.postingVault, World.postingVault, hsm, funext hframes]
      rw [hsame]
      exact h
  | eth amount _ _ hsm _ hframes =>
      have hvault : w'.postingVault = w.postingVault.donate amount := by
        rw [World.postingVault, hsm, hframes]
        rfl
      rw [hvault]
      exact h.donate amount
  | finish claimant amount _ _ hframes hsm =>
      have hvault : w'.postingVault = w.postingVault := by
        have hout : ∀ b, (w.sm.finishClaimBond claimant amount).withdrawn b +
            inFlight (Frame.managerBondOf b) w'.frames =
              w.sm.withdrawn b + inFlight (Frame.managerBondOf b) w.frames := by
          intro b
          rw [hframes, inFlight_cons]
          show (ManagerEvent.bondClaimed claimant amount).paidTo b + w.sm.withdrawn b + _ = _
          simp only [ManagerEvent.paidTo, Frame.managerBondOf]
          omega
        rw [World.postingVault, World.postingVault, hsm]
        show Escrow.Vault.mk _ _ (fun b => (w.sm.finishClaimBond claimant amount).withdrawn b +
          inFlight (Frame.managerBondOf b) w'.frames) _ _ _ = _
        simp only [hout]
        rfl
      rw [hvault]
      exact h
  | call e c f _ _ _ hpay _ hrun _ hframes _ =>
      have hsame : f = [] → w'.postingVault = w'.sm.vault
          (fun b => inFlight (Frame.managerBondOf b) w.frames) := by
        rintro rfl
        rw [World.postingVault]
        congr 1
        funext b
        rw [hframes b, inFlight_nil, zero_add]
      by_cases hvalue : (Call.manager c).payable = true
      · cases c with
        | commit commitment commitDaHash =>
            simp only [ManagerCall.run, map_eq_ok, Prod.mk.injEq] at hrun
            obtain ⟨_, hrun, hs', -, rfl⟩ := hrun
            obtain ⟨-, -, -, required, activeAt, sub, -, -, -, -, hsub, rfl⟩ :=
              SubmissionManager.commit_ok hrun
            rw [hsame rfl, ← hs']
            exact SubmissionManager.sound_commit _ h hr rfl (by rw [hsub]) rfl (fun _ => rfl)
        | topUpBond id =>
            simp only [ManagerCall.run, map_eq_ok, Prod.mk.injEq] at hrun
            obtain ⟨_, hrun, hs', -, rfl⟩ := hrun
            obtain ⟨hsolver, -, rfl⟩ := SubmissionManager.topUpBond_ok hrun
            rw [hsame rfl, ← hs']
            exact SubmissionManager.sound_addBond _ h rfl ((hr.solver id).mp hsolver).2 rfl
              (fun _ => rfl)
        | _ => cases hvalue
      · have hzero : e.value = 0 := hpay.resolve_right hvalue
        rw [hzero] at hrun
        exact (SubmissionManager.move_of_run hrun).sound _ hframes (Bool.not_eq_true _ ▸ hvalue) h

theorem postingVault_of_reachable {d : Deployment} {C : World → Action → Prop} {w : World}
    (h : d.protocol.Reachable C w) : w.postingVault.Sound := by
  refine h.invariant (P := fun w => w.postingVault.Sound) ?_ ?_
  · rintro _ ⟨block, wiring, -, -, rfl⟩
    refine ⟨?_, ⟨fun _ => rfl, fun _ => rfl⟩, fun _ _ => rfl⟩
    simp [World.postingVault, SubmissionManager.vault, Deployment.genesis, Escrow.total]
  · intro w a w' hreach hP _ hstep
    exact postingVault_step (registered_of_reachable hreach) hP hstep

/-! ### Bonds of settled submissions -/

/-- A submission that lost has no bond left, and a credit keeps its collateral until the ledger
is closed. -/
structure Entry.Bonded (d : Deployment) (closed : Bool) (x : Entry) : Prop where
  lost : x.sub.status = .rejected ∨ x.sub.status = .voided → x.sub.bondWei = 0
  collateral : x.sub.status = .finalized → x.info.creditAtoms ≠ 0 → closed = false →
    ∃ required, SubmissionManager.requiredPostingBondForPool d d.pc.fundingCap = .ok required ∧
      required ≤ x.sub.bondWei

namespace SubmissionManager

variable {d : Deployment} {e : Env} {l l' : PayoutLedger} {p : BountyPool}
  {s s' : SubmissionManager} {c : ManagerCall} {f : List Frame}

theorem Turn.bonded {id : ℕ} {y : Entry} (h : Turn d e l s c id y) : y.Bonded d l.closed := by
  cases h with
  | addBond hstatus =>
      have hopen : (s.submissions id).status ≠ .rejected ∧ (s.submissions id).status ≠ .voided ∧
          (s.submissions id).status ≠ .finalized := by
        obtain hs | hs | hs := hstatus <;> rw [hs] <;> decide
      refine ⟨fun hlost => ?_, fun hfinal => absurd hfinal hopen.2.2⟩
      obtain hlost | hlost := hlost
      · exact absurd hlost hopen.1
      · exact absurd hlost hopen.2.1
  | reveal => exact ⟨fun hlost => hlost.elim (nomatch ·) (nomatch ·), (nomatch ·)⟩
  | yield => exact ⟨fun _ => rfl, (nomatch ·)⟩
  | retire => exact ⟨fun _ => rfl, (nomatch ·)⟩
  | @finalize id hash _ _ _ _ hcollateral =>
      refine ⟨fun hlost => hlost.elim (nomatch ·) (nomatch ·), fun _ hcredit _ => ?_⟩
      have hne : s.creditOf d id ≠ 0 := hcredit
      obtain ⟨required, hrequired, hle⟩ := requireCollateral_eq_ok.mp (hcollateral hne)
      refine ⟨required, hrequired, ?_⟩
      show required ≤ if s.creditOf d id = 0 then 0 else (s.submissions id).bondWei
      rw [if_neg hne]
      exact hle
  | release hclosed hstatus =>
      refine ⟨fun _ => rfl, fun _ _ hopen => ?_⟩
      rw [hclosed] at hopen
      cases hopen
  | void => exact ⟨fun _ => rfl, (nomatch ·)⟩
  | mark => exact ⟨fun hlost => hlost.elim (nomatch ·) (nomatch ·), (nomatch ·)⟩
  | rearm => exact ⟨fun hlost => hlost.elim (nomatch ·) (nomatch ·), (nomatch ·)⟩
  | clear => exact ⟨fun hlost => hlost.elim (nomatch ·) (nomatch ·), (nomatch ·)⟩

theorem Move.closed (h : Move d e l p s c s' l' f) : l'.closed = l.closed := by
  cases h with
  | finalize _ _ _ _ _ hcredit =>
      split at hcredit
      · rw [hcredit]
      · obtain ⟨-, -, -, -, rfl⟩ := PayoutLedger.recordCredit_ok hcredit.2
        rfl
  | void _ _ _ _ _ _ hcredit =>
      split at hcredit
      · rw [hcredit]
      · obtain ⟨-, -, -, -, -, rfl⟩ := PayoutLedger.voidCredit_ok hcredit
        rfl
  | _ => rfl

theorem Turns.bonded {n : ℕ} {entries : ℕ → Entry} (h : Turns d e l s c n entries)
    (hb : ∀ id, (s.entry id).Bonded d l.closed) : ∀ id, (entries id).Bonded d l.closed := by
  refine h.forall (P := fun _ x => x.Bonded d l.closed) ?_ (fun _ _ hturn _ => hturn.bonded) hb
  intro sub t _ _ hstatus _
  have hcommitted : (s.committedEntry sub t).sub.status = .committed := hstatus
  refine ⟨fun hlost => ?_, fun hfinal => ?_⟩
  · rw [hcommitted] at hlost
    obtain h | h := hlost <;> cases h
  · rw [hcommitted] at hfinal
    cases hfinal

end SubmissionManager

theorem bonded_of_reachable {d : Deployment} {C : World → Action → Prop} {w : World}
    (h : d.protocol.Reachable C w) (id : ℕ) : (w.sm.entry id).Bonded d w.ledger.closed := by
  revert id
  refine h.invariant (P := fun w => ∀ id, (w.sm.entry id).Bonded d w.ledger.closed) ?_ ?_
  · rintro _ ⟨block, wiring, -, -, rfl⟩ id
    exact ⟨fun _ => rfl, (nomatch ·)⟩
  · intro w a w' _ hP _ hstep
    cases manager_stepped hstep with
    | quiet _ hsm hclosed _ =>
        intro id
        rw [hsm]
        refine ⟨(hP id).lost, fun hfinal hcredit hopen => (hP id).collateral hfinal hcredit ?_⟩
        cases hc : w.ledger.closed with
        | false => rfl
        | true =>
            rw [hclosed hc] at hopen
            cases hopen
    | eth amount _ _ hsm hledger _ =>
        intro id
        rw [hsm, hledger]
        exact hP id
    | finish claimant amount _ hledger _ hsm =>
        intro id
        rw [hsm, hledger]
        exact hP id
    | call e c f _ _ _ _ _ hrun _ _ _ =>
        have hmove := SubmissionManager.move_of_run hrun
        rw [hmove.closed]
        exact hmove.turns.bonded hP

/-! ### Settled for good -/

theorem SubmissionManager.Move.logs {d : Deployment} {e : Env} {l l' : PayoutLedger}
    {p : BountyPool} {s s' : SubmissionManager} {c : ManagerCall} {f : List Frame}
    (h : Move d e l p s c s' l' f) : s.logs <:+ s'.logs := by
  have hpay : ∀ (t : SubmissionManager) id a, t.logs <:+ (t.payBond id a).logs :=
    fun t id a => List.suffix_append _ _
  have hnote : ∀ (t : SubmissionManager) evs, t.logs <:+ (t.note evs).logs :=
    fun t evs => List.suffix_append _ _
  have hemit : ∀ (t : SubmissionManager) ev, t.logs <:+ (t.emit ev).logs :=
    fun t ev => List.suffix_cons _ _
  have hsupersede : ∀ (t : SubmissionManager) id pid, t.logs <:+ (t.supersede id pid).logs := by
    intro t id pid
    unfold supersede
    split
    · exact (hpay (t.retire pid .revealed .rejected) pid _).trans (hnote _ _)
    · exact List.suffix_refl _
  cases h with
  | administer _ hadmin =>
      obtain ⟨evs, -, hlogs⟩ := hadmin.logs
      exact ⟨evs, hlogs.symm⟩
  | commit => exact hemit _ _
  | addBond => exact hemit _ _
  | @reveal id _ cid _ _ _ _ _ recorded _ _ _ _ _ _ _ _ _ _ _ hrec =>
      have hsame : recorded.logs = s.logs := by rw [hrec]; rfl
      rw [← hsame]
      refine List.IsSuffix.trans ?_ (hemit _ _)
      split
      · unfold takePriority
        dsimp only
        split
        · exact hnote _ _
        · exact (hnote ((recorded.setSolutionCidHash id (d.crypto.keccak256 cid)).publish id) _).trans
            (hsupersede _ _ _)
      · exact (hpay ((recorded.setSolutionCidHash id (d.crypto.keccak256 cid)).retire id
          .committed .rejected) id _).trans (hnote _ _)
  | retire => exact (hpay (s.retire _ _ _) _ _).trans (hnote _ _)
  | finalize =>
      unfold finalized
      dsimp only
      refine List.IsSuffix.trans ?_ (hnote _ _)
      split
      · exact hpay (s.finalizeAs _ _ _ _ _) _ _
      · exact List.suffix_refl _
  | release => exact hpay _ _ _
  | void => exact (hpay (s.voidAs _) _ _).trans (hnote _ _)
  | mark => exact hnote (s.markAs _) _
  | rearm => exact hnote (s.rearmAs _ _) _
  | clear => exact hnote ((s.rearmAs _ _).clearReveal _) _
  | withdraw => exact List.suffix_refl _

theorem manager_logs {d : Deployment} {w w' : World} {a : Action} (h : w.step d a = some w') :
    w.sm.logs <:+ w'.sm.logs := by
  cases manager_stepped h with
  | quiet _ hsm _ _ => rw [hsm]
  | eth amount _ _ hsm _ _ => rw [hsm]
  | finish claimant amount _ _ _ hsm =>
      rw [hsm]
      exact List.suffix_cons _ _
  | call e c f _ _ _ _ _ hrun _ _ _ => exact (SubmissionManager.move_of_run hrun).logs

/-- What a posting was settled to stays so in every continuation. -/
theorem settledTo_run {d : Deployment} {C : World → Action → Prop} {w w' : World}
    {as : List Action} (h : d.protocol.Run C w as w') {n : ℕ} {p : Escrow.Posting ℕ Address}
    {a : Address} (hp : w.sm.postings.SettledTo n p a) : w'.sm.postings.SettledTo n p a := by
  refine h.invariant (P := fun v => v.sm.postings.SettledTo n p a) ?_ hp
  intro v b v' hv _ hstep
  obtain ⟨evs, hevs⟩ := manager_logs hstep
  have hfold : ∀ evs : List ManagerEvent,
      ((evs ++ v.sm.logs).foldr ManagerEvent.book []).SettledTo n p a := by
    intro evs
    induction evs with
    | nil => exact hv
    | cons ev evs ih => exact ev.book_settledTo ih
  rw [SubmissionManager.postings, ← hevs]
  exact hfold evs

/-- The laws of the posting bonds in one state. -/
structure PostingBondLaws (d : Deployment) (w : World) : Prop where
  /-- The contract holds the bonds, the claims and the forced ETH, and nothing else. -/
  balance : w.sm.balance = w.sm.forcedEth +
    (∑ id ∈ range (w.sm.submissionCount + 1), (w.sm.submissions id).bondWei +
      ∑ a, w.sm.claimableBondWei a)
  /-- Every submission with a bond is in the sum. -/
  counted : ∀ id, w.sm.submissionCount < id → (w.sm.submissions id).bondWei = 0
  /-- The bond of a submission is what was posted for it and not settled. -/
  held : ∀ id, w.sm.postings.unsettled id = (w.sm.submissions id).bondWei
  /-- What was settled to an account it may claim or has withdrawn. -/
  owed : ∀ a, w.sm.postings.settled a = w.sm.claimableBondWei a +
    (w.sm.withdrawn a + inFlight (Frame.managerBondOf a) w.frames)
  /-- A posting is settled once, to one account. -/
  once : ∀ as w' n p a, d.protocol.Run Free w as w' → w.sm.postings.SettledTo n p a →
    w'.sm.postings.SettledTo n p a
  lost : ∀ id, (w.sm.submissions id).status = .rejected ∨ (w.sm.submissions id).status = .voided →
    (w.sm.submissions id).bondWei = 0
  collateral : ∀ id, (w.sm.submissions id).status = .finalized →
    (w.sm.finalizeInfo id).creditAtoms ≠ 0 → w.ledger.closed = false →
    ∃ required, SubmissionManager.requiredPostingBondForPool d d.pc.fundingCap = .ok required ∧
      required ≤ (w.sm.submissions id).bondWei

/-- **The posting bonds are conserved** in every reachable state. -/
theorem postingBondLaws_of_reachable {d : Deployment} {w : World}
    (h : d.protocol.Reachable Free w) : PostingBondLaws d w := by
  have hvault := postingVault_of_reachable h
  have hbonded := bonded_of_reachable h
  refine ⟨hvault.balance, fun id hid => hvault.idle id ?_, hvault.tracks.held, hvault.tracks.owed,
    fun _ _ _ _ _ hrun hp => settledTo_run hrun hp, fun id => (hbonded id).lost,
    fun id => (hbonded id).collateral⟩
  show id ∉ range (w.sm.submissionCount + 1)
  rw [mem_range]
  omega

theorem postingBondLaws_sample : ∃ w,
    Sample.board.protocol.exec Sample.genesis [Sample.solutionA.commit 1] = some w ∧
    w.sm.balance = 1 ∧ PostingBondLaws Sample.board w := by
  have hrun : (Sample.board.protocol.exec Sample.genesis [Sample.solutionA.commit 1]).map
      (fun w => w.sm.balance) = some 1 := by decide +kernel
  obtain ⟨w, hw, hbalance⟩ := Option.map_eq_some_iff.mp hrun
  exact ⟨w, hw, hbalance, postingBondLaws_of_reachable (.of_exec Sample.genesis_init.1 hw)⟩

end P42Prizes
