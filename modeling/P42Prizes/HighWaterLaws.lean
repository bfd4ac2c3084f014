import P42Prizes.HighWater

/-! # Three implementations, one rule

The accepted checkpoints form a history, the last first, and one rule (`rule`) says what may follow it.
The tables render a history (`Renders`), and on tables that render one the transition, the decision of
the portal and the exact read all answer by the rule; so the tables of every run render a history, and
what the validation of the migration asks of them holds of every history. -/

namespace P42Prizes.HighWater

open Reverting Transition

/-! ### Histories -/

namespace Candidate

variable (c : Candidate)

abbrev block : ℤ := c.checkpoint.finalizedBlockNumber
abbrev timestamp : ℤ := c.checkpoint.checkpointTimestamp

end Candidate

/-- What is answered to a candidate after a history; nothing when it is rejected. -/
def rule : List Candidate → Candidate → Option TransitionKind
  | [], _ => some .first
  | cur :: old, p =>
      if cur.identity = p.identity then
        if p.timestamp < cur.timestamp ∨ p.block < cur.block then none
        else if p.block = cur.block then if p.checkpoint = cur.checkpoint then some .same else none
        else some .advance
      else if ∃ x ∈ cur :: old, x.identity = p.identity then none
      else if p.timestamp ≤ cur.timestamp then none
      else if cur.identity.sameChain p.identity then
        if p.block ≤ cur.block then none else some .renew
      else if ∃ x ∈ cur :: old, x.identity.sameChain p.identity = true then none
      else if p.identity.releaseBindingDigest = cur.identity.releaseBindingDigest ∨
          p.identity.authorizationDigest = cur.identity.authorizationDigest ∨
          p.identity.deploymentConfigHash = cur.identity.deploymentConfigHash then none
      else some .renew

/-- The candidates were accepted one after the other, the last one first. -/
inductive History : List Candidate → Prop
  | nil : History []
  | cons {old p kind} : History old → p.valid = true → rule old p = some kind → kind ≠ .same →
      History (p :: old)

section Histories

variable {history old : List Candidate} {cur p x : Candidate}

/-- A candidate that is accepted has a later block, or a later time and an identity of its own. -/
theorem rule_cons {kind : TransitionKind} (h : rule (cur :: old) p = some kind) (hkind : kind ≠ .same) :
    kind = .advance ∧ cur.identity = p.identity ∧ cur.timestamp ≤ p.timestamp ∧ cur.block < p.block ∨
      kind = .renew ∧ (∀ x ∈ cur :: old, x.identity ≠ p.identity) ∧ cur.timestamp < p.timestamp ∧
        (cur.identity.sameChain p.identity = true → cur.block < p.block) ∧
        (cur.identity.sameChain p.identity = false →
          (∀ x ∈ cur :: old, x.identity.sameChain p.identity = false) ∧
          p.identity.releaseBindingDigest ≠ cur.identity.releaseBindingDigest ∧
          p.identity.authorizationDigest ≠ cur.identity.authorizationDigest ∧
          p.identity.deploymentConfigHash ≠ cur.identity.deploymentConfigHash) := by
  simp only [rule] at h
  split at h
  · rename_i hidentity
    split at h
    · cases h
    rename_i hbounds
    split at h
    · split at h
      · cases h
        exact absurd rfl hkind
      · cases h
    · cases h
      exact .inl ⟨rfl, hidentity, by omega, by omega⟩
  split at h
  · cases h
  rename_i hreplay
  split at h
  · cases h
  rename_i htimestamp
  have hnone : ∀ x ∈ cur :: old, x.identity ≠ p.identity := fun x hx heq => hreplay ⟨x, hx, heq⟩
  split at h
  · rename_i hchain
    split at h
    · cases h
    · cases h
      refine .inr ⟨rfl, hnone, by omega, fun _ => by omega, fun hother => ?_⟩
      rw [hchain] at hother
      cases hother
  · rename_i hchain
    split at h
    · cases h
    rename_i hchains
    split at h
    · cases h
    rename_i hdigests
    cases h
    rw [not_or, not_or] at hdigests
    refine .inr ⟨rfl, hnone, by omega, fun hsame => absurd hsame hchain, fun _ => ⟨?_, hdigests⟩⟩
    intro x hx
    by_contra hsame
    exact hchains ⟨x, hx, by simpa using hsame⟩

end Histories

/-! ### What a history bounds -/

/-- Earlier candidates are no later, and those of the last time are of the last identity. -/
theorem History.bounds {cur : Candidate} {old : List Candidate} (h : History (cur :: old)) :
    ∀ x ∈ cur :: old, x.timestamp ≤ cur.timestamp ∧
      (x.timestamp = cur.timestamp → x.identity = cur.identity) ∧
      (x.identity.sameChain cur.identity = true → x.block ≤ cur.block) := by
  generalize hlist : cur :: old = history at h
  induction h generalizing cur old with
  | nil => cases hlist
  | @cons tail p kind htail _ hrule hkind ih =>
      rw [List.cons.injEq] at hlist
      obtain ⟨hcur, rfl⟩ := hlist
      subst hcur
      have hself : ∀ x, x = cur → x.timestamp ≤ cur.timestamp ∧
          (x.timestamp = cur.timestamp → x.identity = cur.identity) ∧
          (x.identity.sameChain cur.identity = true → x.block ≤ cur.block) := by
        rintro x rfl
        exact ⟨le_refl _, fun _ => rfl, fun _ => le_refl _⟩
      intro x hx
      rcases List.mem_cons.mp hx with rfl | hx
      · exact hself x rfl
      cases old with
      | nil => cases hx
      | cons prev old =>
          obtain ⟨htime, hidentity, hblock⟩ := ih rfl x hx
          rcases rule_cons hrule hkind with ⟨-, hsame, hlater, hhigher⟩ | ⟨-, -, hlater, hchain, hother⟩
          · refine ⟨htime.trans hlater, fun heq => ?_, fun hsameChain => ?_⟩
            · rw [← hsame]
              exact hidentity (le_antisymm htime (heq ▸ hlater))
            · rw [← hsame] at hsameChain
              exact (hblock hsameChain).trans hhigher.le
          · refine ⟨htime.trans hlater.le, fun heq => ?_, fun hsameChain => ?_⟩
            · omega
            · cases hcurrent : prev.identity.sameChain cur.identity with
              | true =>
                  refine (hblock ?_).trans (hchain hcurrent).le
                  simp only [Identity.sameChain, Bool.and_eq_true, decide_eq_true_eq] at hcurrent hsameChain ⊢
                  exact ⟨hsameChain.1.trans hcurrent.1.symm, hsameChain.2.trans hcurrent.2.symm⟩
              | false =>
                  rw [(hother hcurrent).1 x hx] at hsameChain
                  cases hsameChain

/-- The digest of a candidate determines the rest of its checkpoint. -/
def Candidate.Means (contents : String → ℤ × String × ℤ) (c : Candidate) : Prop :=
  contents c.checkpoint.checkpointDigest =
    (c.checkpoint.finalizedBlockNumber, c.checkpoint.finalizedBlockHash, c.checkpoint.checkpointTimestamp)

/-- So the digest of a candidate that is accepted is new. -/
theorem History.digest_fresh {contents : String → ℤ × String × ℤ} {history : List Candidate}
    {p : Candidate} {kind : TransitionKind} (h : History history)
    (hmeans : ∀ x ∈ history, x.Means contents) (hp : p.Means contents)
    (hrule : rule history p = some kind) (hkind : kind ≠ .same) :
    ∀ x ∈ history, x.checkpoint.checkpointDigest ≠ p.checkpoint.checkpointDigest := by
  intro x hx heq
  have hcontents := (hmeans x hx).symm.trans ((congrArg contents heq).trans hp)
  simp only [Prod.mk.injEq] at hcontents
  obtain ⟨hblock, -, htime⟩ := hcontents
  cases history with
  | nil => cases hx
  | cons cur old =>
      obtain ⟨hbefore, hidentity, hchain⟩ := h.bounds x hx
      rcases rule_cons hrule hkind with ⟨-, hsame, hlater, hhigher⟩ | ⟨-, -, hlater, -⟩
      · have hafter : cur.timestamp ≤ x.timestamp := hlater.trans_eq htime.symm
        have hx' := hidentity (le_antisymm hbefore hafter)
        have hle := hchain (by simp [hx', Identity.sameChain])
        simp only [Candidate.block] at hle hhigher
        omega
      · simp only [Candidate.timestamp] at hbefore hlater
        omega

/-! ### Tables that render a history -/

def renderEpochs : List Candidate → List IdentityEpoch
  | [] => []
  | [c] => [⟨1, c.identity⟩]
  | c :: prev :: old =>
      if c.identity = prev.identity then renderEpochs (prev :: old)
      else renderEpochs (prev :: old) ++ [⟨(renderEpochs (prev :: old)).length + 1, c.identity⟩]

def renderAcceptances : List Candidate → List CheckpointAcceptance
  | [] => []
  | c :: old =>
      renderAcceptances old ++ [⟨old.length + 1, (renderEpochs (c :: old)).length, c.checkpoint⟩]

structure Renders (history : List Candidate) (t : Tables) : Prop where
  epochs : t.epochs = renderEpochs history
  acceptances : t.acceptances = renderAcceptances history
  control : history = [] ∧ t.control = {} ∨ history ≠ [] ∧ ∃ now, t.control =
    ⟨some (renderEpochs history).length, some history.length, (renderEpochs history).length + 1,
      history.length + 1, some now⟩

section Render

variable {history old : List Candidate} {c cur p : Candidate} {t : Tables}

/-- The last epoch is that of the last candidate. -/
theorem renderEpochs_cons (c : Candidate) (old : List Candidate) : ∃ before,
    renderEpochs (c :: old) = before ++ [⟨before.length + 1, c.identity⟩] := by
  induction old generalizing c with
  | nil => exact ⟨[], rfl⟩
  | cons prev old ih =>
      rw [renderEpochs]
      split
      · rename_i heq
        obtain ⟨before, hbefore⟩ := ih prev
        exact ⟨before, heq ▸ hbefore⟩
      · exact ⟨_, rfl⟩

theorem renderEpochs_ids (history : List Candidate) :
    (renderEpochs history).map IdentityEpoch.epochId = List.range' 1 (renderEpochs history).length := by
  induction history with
  | nil => rfl
  | cons c old ih =>
      cases old with
      | nil => rfl
      | cons prev old =>
          rw [renderEpochs]
          split
          · exact ih
          · rw [List.map_append, ih, List.length_append, List.length_singleton, List.range'_concat]
            simp [Nat.add_comm]

theorem renderAcceptances_ids (history : List Candidate) :
    (renderAcceptances history).map CheckpointAcceptance.acceptanceId = List.range' 1 history.length := by
  induction history with
  | nil => rfl
  | cons c old ih =>
      rw [renderAcceptances, List.map_append, ih, List.length_cons, List.range'_concat]
      simp [Nat.add_comm]

theorem renderAcceptances_length (history : List Candidate) :
    (renderAcceptances history).length = history.length := by
  have hlength := congrArg List.length (renderAcceptances_ids history)
  rwa [List.length_map, List.length_range'] at hlength

/-- The identities of the epochs are those of the history. -/
theorem mem_renderEpochs_identity {x : Identity} :
    (∃ e ∈ renderEpochs history, e.identity = x) ↔ ∃ c ∈ history, c.identity = x := by
  induction history with
  | nil => simp [renderEpochs]
  | cons c old ih =>
      cases old with
      | nil => simp [renderEpochs]
      | cons prev old =>
          rw [renderEpochs]
          split
          · rename_i heq
            rw [ih]
            simp [heq]
          · simp only [List.mem_append, or_and_right, exists_or, ih, List.mem_cons (b := c)]
            simp [or_comm]

theorem renderEpochs_length_pos (c : Candidate) (old : List Candidate) :
    0 < (renderEpochs (c :: old)).length := by
  obtain ⟨before, hbefore⟩ := renderEpochs_cons c old
  rw [hbefore, List.length_append, List.length_singleton]
  exact Nat.succ_pos _

theorem max?_range' (n : ℕ) : (List.range' 1 n).max?.getD 0 = n ∧
    (n ≠ 0 → (List.range' 1 n).max? = some n) := by
  cases n with
  | zero => exact ⟨rfl, fun h => absurd rfl h⟩
  | succ n =>
      have hmax : (List.range' 1 (n + 1)).max? = some (n + 1) := by
        rw [List.max?_eq_some_iff]
        simp only [List.mem_range'_1]
        exact ⟨by omega, fun b hb => by omega⟩
      rw [hmax]
      exact ⟨rfl, fun _ => rfl⟩

end Render

/-! ### The last epoch and the last acceptance -/

section Last

variable {history old : List Candidate} {c cur p : Candidate} {t : Tables}

theorem filter_last {α : Type} {f : α → ℕ} {before : List α} {x : α}
    (hids : ((before ++ [x]).map f).Nodup) {n : ℕ} (hn : f x = n) :
    (before ++ [x]).filter (fun y => f y = n) = [x] := by
  have hbefore : before.filter (fun y => f y = n) = [] := by
    rw [List.filter_eq_nil_iff]
    intro y hy heq
    rw [List.map_append, List.nodup_append] at hids
    exact hids.2.2 _ (List.mem_map_of_mem hy) _ (List.mem_singleton_self _)
      ((of_decide_eq_true heq).trans hn.symm)
  rw [List.filter_append, hbefore, List.nil_append, List.filter_singleton, decide_eq_true hn]
  rfl

theorem renderComplete (history : List Candidate) :
    ∀ e ∈ renderEpochs history, ∃ a ∈ renderAcceptances history, a.epochId = e.epochId := by
  induction history with
  | nil => exact fun _ h => absurd h List.not_mem_nil
  | cons c old ih =>
      have hlast : ∃ a ∈ renderAcceptances (c :: old), a.epochId = (renderEpochs (c :: old)).length :=
        ⟨_, List.mem_append_right _ (List.mem_singleton_self _), rfl⟩
      intro e he
      obtain ⟨before, hbefore⟩ := renderEpochs_cons c old
      cases old with
      | nil =>
          obtain rfl := List.mem_singleton.mp he
          exact hlast
      | cons prev old =>
          rw [renderEpochs] at he
          split at he
          · obtain ⟨a, ha, heq⟩ := ih e he
            exact ⟨a, List.mem_append_left _ ha, heq⟩
          · rename_i hne
            rcases List.mem_append.mp he with he | he
            · obtain ⟨a, ha, heq⟩ := ih e he
              exact ⟨a, List.mem_append_left _ ha, heq⟩
            · obtain rfl := List.mem_singleton.mp he
              obtain ⟨a, ha, heq⟩ := hlast
              refine ⟨a, ha, heq.trans ?_⟩
              rw [renderEpochs, if_neg hne, List.length_append, List.length_singleton]

/-- The rows that the functions read of tables that render a history. -/
structure Last (t : Tables) (cur : Candidate) (n m : ℕ) : Prop where
  maxEpoch : t.maxEpoch = some n
  maxAcceptance : t.maxAcceptance = some m
  epochs : t.epochs.length = n
  acceptances : t.acceptances.length = m
  complete : t.Complete
  epoch : t.epochs.filter (fun e => e.epochId = n) = [⟨n, cur.identity⟩]
  acceptance : t.acceptances.filter (fun a => a.acceptanceId = m) = [⟨m, n, cur.checkpoint⟩]
  control : ∃ now, t.control = ⟨some n, some m, n + 1, m + 1, some now⟩
  pos : 0 < n ∧ 0 < m

theorem Renders.last (h : Renders (cur :: old) t) :
    Last t cur (renderEpochs (cur :: old)).length (old.length + 1) := by
  obtain ⟨before, hbefore⟩ := renderEpochs_cons cur old
  have hlength : (renderEpochs (cur :: old)).length = before.length + 1 := by
    rw [hbefore, List.length_append, List.length_singleton]
  have hepochIds := renderEpochs_ids (cur :: old)
  have hacceptanceIds := renderAcceptances_ids (cur :: old)
  constructor
  · rw [Tables.maxEpoch, h.epochs, hepochIds]
    exact (max?_range' _).2 (by omega)
  · rw [Tables.maxAcceptance, h.acceptances, hacceptanceIds]
    exact (max?_range' _).2 (Nat.succ_ne_zero _)
  · rw [h.epochs]
  · rw [h.acceptances, renderAcceptances_length, List.length_cons]
  · intro e he
    rw [h.acceptances]
    exact renderComplete _ e (h.epochs ▸ he)
  · rw [h.epochs]
    have hnodup : ((renderEpochs (cur :: old)).map IdentityEpoch.epochId).Nodup := by
      rw [hepochIds]
      exact List.nodup_range'
    rw [hbefore] at hnodup
    rw [hlength, hbefore]
    exact filter_last hnodup rfl
  · rw [h.acceptances]
    have hnodup : ((renderAcceptances (cur :: old)).map CheckpointAcceptance.acceptanceId).Nodup := by
      rw [hacceptanceIds]
      exact List.nodup_range'
    rw [renderAcceptances] at hnodup ⊢
    exact filter_last hnodup rfl
  · rcases h.control with ⟨hnil, -⟩ | ⟨-, now, hcontrol⟩
    · cases hnil
    · exact ⟨now, hcontrol⟩
  · exact ⟨renderEpochs_length_pos cur old, Nat.succ_pos _⟩

theorem Last.currentRows {n m : ℕ} (h : Last t cur n m) (kind : TransitionKind) :
    t.currentRows kind = [⟨kind, ⟨n, cur.identity⟩, ⟨m, n, cur.checkpoint⟩, t.control⟩] := by
  obtain ⟨now, hcontrol⟩ := h.control
  have hepoch : t.epochs.filter (fun e => some e.epochId = t.control.currentEpoch) =
      [⟨n, cur.identity⟩] := by
    rw [← h.epoch, hcontrol]
    simp
  have hacceptance : t.acceptances.filter (fun a => some a.acceptanceId = t.control.currentAcceptance) =
      [⟨m, n, cur.checkpoint⟩] := by
    rw [← h.acceptance, hcontrol]
    simp
  rw [Tables.currentRows, hepoch, hacceptance]
  rfl

/-- The identities and the chains of the epochs are those of the history. -/
theorem Renders.exists_epoch (h : Renders history t) (P : Identity → Prop) :
    (∃ e ∈ t.epochs, P e.identity) ↔ ∃ x ∈ history, P x.identity := by
  rw [h.epochs]
  constructor
  · rintro ⟨e, he, hP⟩
    obtain ⟨x, hx, heq⟩ := mem_renderEpochs_identity.mp ⟨e, he, rfl⟩
    exact ⟨x, hx, heq ▸ hP⟩
  · rintro ⟨x, hx, hP⟩
    obtain ⟨e, he, heq⟩ := mem_renderEpochs_identity.mpr ⟨x, hx, rfl⟩
    exact ⟨e, he, heq ▸ hP⟩

end Last

/-! ### The writes -/

section Writes

variable {history old : List Candidate} {c cur p : Candidate} {t : Tables} {now : ℕ}

theorem revertIf_neg {ε : Type} {q : Prop} [Decidable q] {e : ε} (h : ¬ q) : revertIf q e = .ok () :=
  if_neg h

theorem revertIf_pos {ε : Type} {q : Prop} [Decidable q] {e : ε} (h : q) : revertIf q e = .error e :=
  if_pos h

theorem ok_bind {ε α β : Type} (a : α) (f : α → Except ε β) : (Except.ok a >>= f) = f a := rfl

theorem error_bind {ε α β : Type} (e : ε) (f : α → Except ε β) : (Except.error e >>= f) = .error e := rfl

theorem insertEpoch_eq {row : IdentityEpoch} (hid : 0 < row.epochId) (hvalid : row.identity.valid = true)
    (hnew : ∀ e ∈ t.epochs, e.epochId ≠ row.epochId ∧ e.identity ≠ row.identity) :
    t.insertEpoch row = .ok { t with epochs := t.epochs ++ [row] } := by
  rw [Tables.insertEpoch, revertIf_neg, ok_bind, revertIf_neg]
  · rfl
  · rintro ⟨e, he, heq | heq⟩
    · exact (hnew e he).1 heq
    · exact (hnew e he).2 heq
  · rintro (h | h)
    · omega
    · rw [hvalid] at h
      cases h

theorem insertAcceptance_eq {row : CheckpointAcceptance} (hid : 0 < row.acceptanceId)
    (hvalid : row.checkpoint.valid = true) (hepoch : ∃ e ∈ t.epochs, e.epochId = row.epochId)
    (hnew : ∀ a ∈ t.acceptances, a.acceptanceId ≠ row.acceptanceId ∧
      a.checkpoint.checkpointDigest ≠ row.checkpoint.checkpointDigest) :
    t.insertAcceptance row = .ok { t with acceptances := t.acceptances ++ [row] } := by
  rw [Tables.insertAcceptance, revertIf_neg, ok_bind, revertIf_neg, ok_bind, revertIf_neg]
  · rfl
  · rintro ⟨a, ha, heq | heq | ⟨-, heq⟩⟩
    · exact (hnew a ha).1 heq
    · exact (hnew a ha).2 heq
    · exact (hnew a ha).2 (congrArg Checkpoint.checkpointDigest heq)
  · obtain ⟨e, he, heq⟩ := hepoch
    exact fun hall => hall e he heq
  · rintro (h | h)
    · omega
    · rw [hvalid] at h
      cases h

theorem updateControl_eq {n m : ℕ} (hn : 0 < n) (hm : 0 < m) (hepoch : ∃ e ∈ t.epochs, e.epochId = n)
    (hacceptance : ∃ a ∈ t.acceptances, a.acceptanceId = m) :
    t.updateControl ⟨some n, some m, n + 1, m + 1, some now⟩ =
      .ok { t with control := ⟨some n, some m, n + 1, m + 1, some now⟩ } := by
  rw [Tables.updateControl, revertIf_neg, ok_bind, revertIf_neg, ok_bind, revertIf_neg]
  · rfl
  · rintro ⟨m', hm', hall⟩
    cases hm'
    obtain ⟨a, ha, heq⟩ := hacceptance
    exact hall a ha heq
  · rintro ⟨n', hn', hall⟩
    cases hn'
    obtain ⟨e, he, heq⟩ := hepoch
    exact hall e he heq
  · rw [not_not]
    exact .inr ⟨n, rfl, m, rfl, hn, hm, rfl, rfl, by simp⟩

theorem Renders.epochId_le (h : Renders history t) :
    ∀ e ∈ t.epochs, e.epochId ≤ (renderEpochs history).length := by
  intro e he
  rw [h.epochs] at he
  have hmem := List.mem_map_of_mem (f := IdentityEpoch.epochId) he
  rw [renderEpochs_ids, List.mem_range'_1] at hmem
  omega

theorem Renders.acceptanceId_le (h : Renders history t) :
    ∀ a ∈ t.acceptances, a.acceptanceId ≤ history.length := by
  intro a ha
  rw [h.acceptances] at ha
  have hmem := List.mem_map_of_mem (f := CheckpointAcceptance.acceptanceId) ha
  rw [renderAcceptances_ids, List.mem_range'_1] at hmem
  omega

theorem mem_renderAcceptances {a : CheckpointAcceptance} (h : a ∈ renderAcceptances history) :
    ∃ x ∈ history, a.checkpoint = x.checkpoint := by
  induction history with
  | nil => cases h
  | cons c old ih =>
      rcases List.mem_append.mp h with h | h
      · obtain ⟨x, hx, heq⟩ := ih h
        exact ⟨x, List.mem_cons_of_mem _ hx, heq⟩
      · obtain rfl := List.mem_singleton.mp h
        exact ⟨c, List.mem_cons_self .., rfl⟩

/-- The acceptance of a candidate whose digest is new. -/
theorem Renders.new_acceptance (h : Renders history t)
    (hfresh : ∀ x ∈ history, x.checkpoint.checkpointDigest ≠ p.checkpoint.checkpointDigest) :
    ∀ a ∈ t.acceptances, a.acceptanceId ≠ history.length + 1 ∧
      a.checkpoint.checkpointDigest ≠ p.checkpoint.checkpointDigest := by
  intro a ha
  have hle := h.acceptanceId_le a ha
  rw [h.acceptances] at ha
  obtain ⟨x, hx, heq⟩ := mem_renderAcceptances ha
  exact ⟨by omega, heq ▸ hfresh x hx⟩

/-- An epoch is opened for an identity that is new. -/
theorem Renders.openEpoch (now : ℕ) (h : Renders history t) (hvalid : p.valid = true)
    (hfresh : ∀ x ∈ history, x.checkpoint.checkpointDigest ≠ p.checkpoint.checkpointDigest)
    (hidentity : ∀ x ∈ history, x.identity ≠ p.identity) :
    ∃ t', t.openEpoch now ((renderEpochs history).length + 1) (history.length + 1) p = .ok t' ∧
      Renders (p :: history) t' := by
  simp only [Candidate.valid, Bool.and_eq_true] at hvalid
  have hepochs : ∀ e ∈ t.epochs, e.epochId ≠ (renderEpochs history).length + 1 ∧
      e.identity ≠ p.identity := by
    intro e he
    have hle := h.epochId_le e he
    refine ⟨by omega, fun heq => ?_⟩
    obtain ⟨x, hx, hx'⟩ := (h.exists_epoch (· = p.identity)).mp ⟨e, he, heq⟩
    exact hidentity x hx hx'
  have hrender : renderEpochs (p :: history) =
      renderEpochs history ++ [⟨(renderEpochs history).length + 1, p.identity⟩] := by
    cases history with
    | nil => rfl
    | cons prev old => rw [renderEpochs, if_neg (Ne.symm (hidentity prev (List.mem_cons_self ..)))]
  have hlength : (renderEpochs (p :: history)).length = (renderEpochs history).length + 1 := by
    rw [hrender, List.length_append, List.length_singleton]
  rw [Tables.openEpoch, insertEpoch_eq (Nat.succ_pos _) hvalid.2 hepochs, ok_bind,
    insertAcceptance_eq (Nat.succ_pos _) hvalid.1
      ⟨_, List.mem_append_right _ (List.mem_singleton_self _), rfl⟩ (h.new_acceptance hfresh), ok_bind,
    updateControl_eq (Nat.succ_pos _) (Nat.succ_pos _)
      ⟨_, List.mem_append_right _ (List.mem_singleton_self _), rfl⟩
      ⟨_, List.mem_append_right _ (List.mem_singleton_self _), rfl⟩]
  refine ⟨_, rfl, ?_⟩
  constructor
  · rw [hrender, ← h.epochs]
  · rw [renderAcceptances, hlength, ← h.acceptances]
  · exact .inr ⟨List.cons_ne_nil _ _, now, by rw [hlength, List.length_cons]⟩

/-- An acceptance is added to the last epoch. -/
theorem Renders.advance (now : ℕ) (h : Renders (cur :: old) t) (hvalid : p.checkpoint.valid = true)
    (hfresh : ∀ x ∈ cur :: old, x.checkpoint.checkpointDigest ≠ p.checkpoint.checkpointDigest)
    (hidentity : cur.identity = p.identity) :
    ∃ t', (do
      let control := t.control
      let t ← t.insertAcceptance ⟨old.length + 1 + 1, (renderEpochs (cur :: old)).length, p.checkpoint⟩
      t.updateControl { control with
        currentAcceptance := some (old.length + 1 + 1)
        nextAcceptance := old.length + 1 + 2
        updatedAt := some now }) = .ok t' ∧ Renders (p :: cur :: old) t' := by
  have hlast := h.last
  obtain ⟨before, hcontrol⟩ := hlast.control
  have hepoch : ∃ e ∈ t.epochs, e.epochId = (renderEpochs (cur :: old)).length := by
    have hmem : (⟨(renderEpochs (cur :: old)).length, cur.identity⟩ : IdentityEpoch) ∈
        t.epochs.filter (fun e => e.epochId = (renderEpochs (cur :: old)).length) := by
      rw [hlast.epoch]
      exact List.mem_singleton_self _
    exact ⟨_, (List.mem_filter.mp hmem).1, rfl⟩
  have hrender : renderEpochs (p :: cur :: old) = renderEpochs (cur :: old) := by
    rw [renderEpochs, if_pos hidentity.symm]
  simp only
  rw [insertAcceptance_eq (Nat.succ_pos _) hvalid hepoch (h.new_acceptance hfresh), ok_bind, hcontrol]
  have hupdate := @updateControl_eq { t with acceptances := t.acceptances ++
      [⟨old.length + 1 + 1, (renderEpochs (cur :: old)).length, p.checkpoint⟩] } now _ _
    hlast.pos.1 (Nat.succ_pos (old.length + 1)) hepoch
    ⟨_, List.mem_append_right _ (List.mem_singleton_self _), rfl⟩
  refine ⟨_, hupdate, ?_⟩
  constructor
  · rw [hrender, ← h.epochs]
  · rw [renderAcceptances, hrender, ← h.acceptances]
    rfl
  · exact .inr ⟨List.cons_ne_nil _ _, now, by rw [hrender]; rfl⟩

end Writes

/-! ### The answers -/

/-- The history after an answer. -/
def after (history : List Candidate) (p : Candidate) (kind : TransitionKind) : List Candidate :=
  if kind = .same then history else p :: history

/-- The row of an answer, given the control row after it. -/
def rowAfter (history : List Candidate) (p : Candidate) (kind : TransitionKind)
    (control : CheckpointControl) : TransitionRow :=
  let n := (renderEpochs (after history p kind)).length
  let m := (after history p kind).length
  ⟨kind, ⟨n, p.identity⟩, ⟨m, n, p.checkpoint⟩, control⟩

section Answers

variable {history old : List Candidate} {cur p : Candidate} {t : Tables} {now : ℕ}

/-- What the transition returns when the candidate is accepted, or accepted already. -/
def Transitions (history : List Candidate) (t : Tables) (p : Candidate) (kind : TransitionKind)
    (result : Except CheckpointError (List TransitionRow × Tables)) : Prop :=
  ∃ t', result = .ok ([rowAfter history p kind t'.control], t') ∧ Renders (after history p kind) t' ∧
    (kind = .same → t' = t)

/-- The transition by a rule that may reject. -/
def Follows (history : List Candidate) (t : Tables) (p : Candidate)
    (result : Except CheckpointError (List TransitionRow × Tables)) : Prop :=
  match rule history p with
  | none => ∃ e, result = .error e
  | some kind => Transitions history t p kind result

theorem Renders.currentRows {c : Candidate} (h : Renders (c :: old) t) (kind : TransitionKind) :
    t.currentRows kind = [⟨kind, ⟨(renderEpochs (c :: old)).length, c.identity⟩,
      ⟨old.length + 1, (renderEpochs (c :: old)).length, c.checkpoint⟩, t.control⟩] :=
  h.last.currentRows kind

theorem checkpoint_eq {x y : Checkpoint} (hblock : x.finalizedBlockNumber = y.finalizedBlockNumber)
    (hhash : x.finalizedBlockHash = y.finalizedBlockHash) (hdigest : x.checkpointDigest = y.checkpointDigest)
    (htime : x.checkpointTimestamp = y.checkpointTimestamp) : x = y := by
  cases x
  cases y
  simp_all

theorem accept_follows (h : Renders (cur :: old) t) (hvalid : p.valid = true)
    (hfresh : ∀ kind, rule (cur :: old) p = some kind → kind ≠ .same →
      ∀ x ∈ cur :: old, x.checkpoint.checkpointDigest ≠ p.checkpoint.checkpointDigest) :
    Follows (cur :: old) t p (t.accept now p ⟨(renderEpochs (cur :: old)).length, cur.identity⟩
      ⟨old.length + 1, (renderEpochs (cur :: old)).length, cur.checkpoint⟩) := by
  have hvalid' := hvalid
  simp only [Candidate.valid, Bool.and_eq_true] at hvalid'
  unfold Follows Tables.accept
  by_cases hidentity : cur.identity = p.identity
  · simp only [if_pos hidentity]
    by_cases htime : p.timestamp < cur.timestamp
    · simp only [rule, if_pos hidentity, if_pos (Or.inl htime), revertIf_pos htime]
      exact ⟨_, rfl⟩
    rw [revertIf_neg htime, ok_bind]
    by_cases hblock : p.block < cur.block
    · simp only [rule, if_pos hidentity, if_pos (Or.inr hblock), revertIf_pos hblock]
      exact ⟨_, rfl⟩
    rw [revertIf_neg hblock, ok_bind]
    have hbounds : ¬ (p.timestamp < cur.timestamp ∨ p.block < cur.block) := not_or.mpr ⟨htime, hblock⟩
    by_cases heq : p.block = cur.block
    · rw [if_pos heq]
      by_cases hsame : p.checkpoint = cur.checkpoint
      · simp only [rule, if_pos hidentity, if_neg hbounds, if_pos heq, if_pos hsame]
        rw [revertIf_neg (by simp [hsame]), ok_bind]
        refine ⟨t, ?_, h, fun _ => rfl⟩
        rw [h.currentRows, rowAfter, after, if_pos rfl, hsame, hidentity]
        rfl
      · simp only [rule, if_pos hidentity, if_neg hbounds, if_pos heq, if_neg hsame]
        rw [revertIf_pos]
        · exact ⟨_, rfl⟩
        · by_contra hnone
          simp only [not_or, not_not] at hnone
          exact hsame (checkpoint_eq heq hnone.1 hnone.2.1 hnone.2.2)
    · have hrule : rule (cur :: old) p = some .advance := by
        simp only [rule, if_pos hidentity, if_neg hbounds, if_neg heq]
      rw [if_neg heq, hrule]
      obtain ⟨t', hrun, hrender⟩ := h.advance now hvalid'.1 (hfresh _ hrule (by simp)) hidentity
      obtain ⟨inserted, hinsert, hupdate⟩ := bind_eq_ok.mp hrun
      simp only
      rw [hinsert, ok_bind, hupdate, ok_bind]
      refine ⟨t', ?_, hrender, by simp⟩
      rw [hrender.currentRows]
      rfl
  · simp only [if_neg hidentity]
    have hreplay := h.exists_epoch (· = p.identity)
    by_cases hhistorical : ∃ x ∈ cur :: old, x.identity = p.identity
    · simp only [rule, if_neg hidentity, if_pos hhistorical, revertIf_pos (hreplay.mpr hhistorical)]
      exact ⟨_, rfl⟩
    rw [revertIf_neg (fun hold => hhistorical (hreplay.mp hold)), ok_bind]
    by_cases htime : p.timestamp ≤ cur.timestamp
    · simp only [rule, if_neg hidentity, if_neg hhistorical, if_pos htime, revertIf_pos htime]
      exact ⟨_, rfl⟩
    rw [revertIf_neg htime, ok_bind]
    -- what is left when nothing stands against the renewal
    have hrenew : rule (cur :: old) p = some .renew →
        Transitions (cur :: old) t p .renew (do
          let t ← t.openEpoch now ((renderEpochs (cur :: old)).length + 1) (old.length + 1 + 1) p
          pure (t.currentRows .renew, t)) := by
      intro hrule
      obtain ⟨t', hopen, hrender⟩ := h.openEpoch now hvalid (hfresh _ hrule (by simp))
        (fun x hx heq => hhistorical ⟨x, hx, heq⟩)
      refine ⟨t', ?_, hrender, by simp⟩
      rw [List.length_cons] at hopen
      rw [hopen, ok_bind, hrender.currentRows]
      rfl
    by_cases hchain : cur.identity.sameChain p.identity = true
    · simp only [if_pos hchain]
      by_cases hblock : p.block ≤ cur.block
      · simp only [rule, if_neg hidentity, if_neg hhistorical, if_neg htime, if_pos hchain,
          if_pos hblock, revertIf_pos hblock]
        exact ⟨_, rfl⟩
      · have hrule : rule (cur :: old) p = some .renew := by
          simp only [rule, if_neg hidentity, if_neg hhistorical, if_neg htime, if_pos hchain, if_neg hblock]
        rw [revertIf_neg hblock, ok_bind, hrule]
        exact hrenew hrule
    · simp only [if_neg hchain]
      have hchains := h.exists_epoch (fun x => x.sameChain p.identity = true)
      by_cases hother : ∃ x ∈ cur :: old, x.identity.sameChain p.identity = true
      · simp only [rule, if_neg hidentity, if_neg hhistorical, if_neg htime, if_neg hchain, if_pos hother,
          revertIf_pos (hchains.mpr hother)]
        exact ⟨_, rfl⟩
      rw [revertIf_neg (fun hold => hother (hchains.mp hold)), ok_bind]
      by_cases hdigests : p.identity.releaseBindingDigest = cur.identity.releaseBindingDigest ∨
          p.identity.authorizationDigest = cur.identity.authorizationDigest ∨
          p.identity.deploymentConfigHash = cur.identity.deploymentConfigHash
      · simp only [rule, if_neg hidentity, if_neg hhistorical, if_neg htime, if_neg hchain, if_neg hother,
          if_pos hdigests, revertIf_pos hdigests]
        exact ⟨_, rfl⟩
      · have hrule : rule (cur :: old) p = some .renew := by
          simp only [rule, if_neg hidentity, if_neg hhistorical, if_neg htime, if_neg hchain,
            if_neg hother, if_neg hdigests]
        rw [revertIf_neg hdigests, ok_bind, hrule]
        exact hrenew hrule

end Answers

section Implementations

variable {history old : List Candidate} {cur p : Candidate} {t : Tables} {now : ℕ}

theorem Renders.of_nil (h : Renders [] t) : t = {} := by
  obtain ⟨epochs, acceptances, control⟩ := t
  obtain ⟨rfl, rfl, ⟨-, rfl⟩ | ⟨hne, -⟩⟩ := h
  · rfl
  · exact absurd rfl hne

/-- The transition of the database follows the rule. -/
theorem transition_follows (now : ℕ) (h : Renders history t) (hvalid : p.valid = true)
    (hfresh : ∀ kind, rule history p = some kind → kind ≠ .same →
      ∀ x ∈ history, x.checkpoint.checkpointDigest ≠ p.checkpoint.checkpointDigest) :
    Follows history t p (transition now p t) := by
  have hcandidate : ¬ p.valid = false := by simp [hvalid]
  cases history with
  | nil =>
      obtain ⟨t', hopen, hrender⟩ := h.openEpoch now hvalid (fun _ hx => absurd hx List.not_mem_nil)
        (fun _ hx => absurd hx List.not_mem_nil)
      obtain rfl := h.of_nil
      have hempty : ¬ ((Tables.maxEpoch {}).getD 0 ≠ ([] : List IdentityEpoch).length ∨
          (Tables.maxAcceptance {}).getD 0 ≠ ([] : List CheckpointAcceptance).length ∨
          ¬ Tables.Complete {}) := by decide
      rw [transition, revertIf_neg hcandidate, ok_bind]
      simp only
      rw [revertIf_neg hempty, ok_bind, if_pos (by decide), revertIf_neg (by decide), ok_bind]
      change Tables.openEpoch {} now 1 1 p = _ at hopen
      rw [hopen, ok_bind]
      refine ⟨t', ?_, hrender, by simp⟩
      rw [hrender.currentRows]
      rfl
  | cons cur old =>
      have hlast := h.last
      obtain ⟨before, hcontrol⟩ := hlast.control
      rw [transition, revertIf_neg hcandidate, ok_bind]
      simp only [hlast.maxEpoch, hlast.maxAcceptance, Option.getD_some]
      rw [revertIf_neg, ok_bind, if_neg, revertIf_neg, ok_bind, hlast.epoch, hlast.acceptance]
      · simp only [strict, ok_bind]
        rw [revertIf_neg (by simp), ok_bind]
        exact accept_follows h hvalid hfresh
      · simp [hcontrol, ne]
      · have hpos := hlast.pos
        omega
      · simp [hlast.epochs, hlast.acceptances, hlast.complete]

theorem rule_same : rule (cur :: old) p = some .same ↔
    cur.identity = p.identity ∧ cur.checkpoint = p.checkpoint := by
  constructor
  · intro h
    simp only [rule] at h
    split at h
    · rename_i hidentity
      split at h
      · cases h
      split at h
      · split at h
        · rename_i hcheckpoint
          exact ⟨hidentity, hcheckpoint.symm⟩
        · cases h
      · cases h
    split at h
    · cases h
    split at h
    · cases h
    split at h
    · split at h <;> cases h
    · split at h
      · cases h
      · split at h <;> cases h
  · rintro ⟨hidentity, hcheckpoint⟩
    simp [rule, Candidate.timestamp, Candidate.block, hidentity, hcheckpoint]

/-- The decision of the portal follows the rule. -/
theorem decide_follows (h : Renders history t) :
    (decideIndexerCheckpointEpoch t.control t.epochs t.currentAcceptance p).toOption =
      (rule history p).map (fun kind =>
        ⟨kind, (renderEpochs (after history p kind)).length, (after history p kind).length⟩) := by
  cases history with
  | nil =>
      obtain rfl := h.of_nil
      rfl
  | cons cur old =>
      have hlast := h.last
      obtain ⟨before, hcontrol⟩ := hlast.control
      have hidentity : t.epochs.find? (fun row => row.epochId = (renderEpochs (cur :: old)).length) =
          some ⟨(renderEpochs (cur :: old)).length, cur.identity⟩ := by
        rw [← List.head?_filter, hlast.epoch]
        rfl
      have hcurrent : t.currentAcceptance =
          some ⟨old.length + 1, (renderEpochs (cur :: old)).length, cur.checkpoint⟩ := by
        rw [Tables.currentAcceptance, ← List.head?_filter, hcontrol]
        simp only [Option.some.injEq]
        rw [hlast.acceptance]
        rfl
      have hreplay := h.exists_epoch (· = p.identity)
      have hchains := h.exists_epoch (fun x => x.sameChain p.identity = true)
      unfold decideIndexerCheckpointEpoch
      rw [hcontrol, hcurrent]
      simp only [hidentity]
      rw [revertIf_neg (by simp), ok_bind]
      by_cases hsameIdentity : cur.identity = p.identity
      · rw [if_pos hsameIdentity]
        by_cases htime : p.timestamp < cur.timestamp
        · simp [rule, hsameIdentity, htime, revertIf_pos, Except.toOption, error_bind]
        rw [revertIf_neg htime, ok_bind]
        by_cases hblock : p.block < cur.block
        · simp [rule, hsameIdentity, hblock, revertIf_pos, Except.toOption, error_bind]
        rw [revertIf_neg hblock, ok_bind]
        by_cases heq : p.block = cur.block
        · rw [if_pos heq]
          by_cases hsame : p.checkpoint = cur.checkpoint
          · rw [revertIf_neg (by simp [hsame]), ok_bind, rule_same.mpr ⟨hsameIdentity, hsame.symm⟩]
            rfl
          · rw [revertIf_pos, error_bind]
            · simp [rule, hsameIdentity, htime, heq, hsame, Except.toOption]
            · by_contra hnone
              simp only [not_or, not_not] at hnone
              exact hsame (checkpoint_eq heq hnone.1 hnone.2.1 hnone.2.2)
        · have hrule : rule (cur :: old) p = some .advance := by
            simp only [rule, if_pos hsameIdentity, if_neg (not_or.mpr ⟨htime, hblock⟩), if_neg heq]
          rw [if_neg heq, hrule]
          simp [after, renderEpochs, hsameIdentity, Except.toOption, pure, Except.pure]
      · rw [if_neg hsameIdentity]
        by_cases hhistorical : ∃ x ∈ cur :: old, x.identity = p.identity
        · rw [revertIf_pos (hreplay.mpr hhistorical), error_bind]
          simp only [rule, if_neg hsameIdentity, if_pos hhistorical]
          rfl
        rw [revertIf_neg (fun hold => hhistorical (hreplay.mp hold)), ok_bind]
        by_cases htime : p.timestamp ≤ cur.timestamp
        · rw [revertIf_pos htime, error_bind]
          simp only [rule, if_neg hsameIdentity, if_neg hhistorical, if_pos htime]
          rfl
        rw [revertIf_neg htime, ok_bind]
        have hrenew : (Except.ok ⟨.renew, (renderEpochs (cur :: old)).length + 1, old.length + 1 + 1⟩ :
            Except CheckpointError EpochDecision).toOption = (some TransitionKind.renew).map (fun kind =>
              ⟨kind, (renderEpochs (after (cur :: old) p kind)).length,
                (after (cur :: old) p kind).length⟩) := by
          simp [after, renderEpochs, Ne.symm hsameIdentity, Except.toOption]
        by_cases hchain : cur.identity.sameChain p.identity = true
        · rw [if_pos hchain]
          by_cases hblock : p.block ≤ cur.block
          · rw [revertIf_pos hblock, error_bind]
            simp only [rule, if_neg hsameIdentity, if_neg hhistorical, if_neg htime, if_pos hchain,
              if_pos hblock]
            rfl
          · rw [revertIf_neg hblock, ok_bind]
            simp only [rule, if_neg hsameIdentity, if_neg hhistorical, if_neg htime, if_pos hchain,
              if_neg hblock]
            exact hrenew
        · rw [if_neg hchain]
          by_cases hother : ∃ x ∈ cur :: old, x.identity.sameChain p.identity = true
          · rw [revertIf_pos (hchains.mpr hother), error_bind]
            simp only [rule, if_neg hsameIdentity, if_neg hhistorical, if_neg htime, if_neg hchain,
              if_pos hother]
            rfl
          rw [revertIf_neg (fun hold => hother (hchains.mp hold)), ok_bind]
          by_cases hdigests : p.identity.releaseBindingDigest = cur.identity.releaseBindingDigest ∨
              p.identity.authorizationDigest = cur.identity.authorizationDigest ∨
              p.identity.deploymentConfigHash = cur.identity.deploymentConfigHash
          · rw [revertIf_pos hdigests, error_bind]
            simp only [rule, if_neg hsameIdentity, if_neg hhistorical, if_neg htime, if_neg hchain,
              if_neg hother, if_pos hdigests]
            rfl
          · rw [revertIf_neg hdigests, ok_bind]
            simp only [rule, if_neg hsameIdentity, if_neg hhistorical, if_neg htime, if_neg hchain,
              if_neg hother, if_neg hdigests]
            exact hrenew

/-- The exact read finds the current row when the rule says that the candidate is accepted already. -/
theorem readExact_follows (h : Renders history t) (hvalid : p.valid = true) :
    readExact p t = .ok (if rule history p = some .same then [rowAfter history p .same t.control] else []) := by
  have hcandidate : ¬ p.valid = false := by simp [hvalid]
  cases history with
  | nil =>
      obtain rfl := h.of_nil
      rw [readExact, revertIf_neg hcandidate, ok_bind]
      rfl
  | cons cur old =>
      have hlast := h.last
      obtain ⟨before, hcontrol⟩ := hlast.control
      rw [readExact, revertIf_neg hcandidate, ok_bind]
      simp only [hlast.maxEpoch, hlast.maxAcceptance]
      rw [revertIf_neg, ok_bind, hlast.epoch, hlast.acceptance]
      · simp only [strict, ok_bind]
        rw [revertIf_neg (by simp), ok_bind]
        by_cases hsame : rule (cur :: old) p = some .same
        · obtain ⟨hidentity, hcheckpoint⟩ := rule_same.mp hsame
          rw [if_pos hsame, if_neg (by simp [hidentity, hcheckpoint]), h.currentRows, hidentity, hcheckpoint]
          rfl
        · rw [if_neg hsame, if_pos]
          · rfl
          · by_contra hnone
            rw [not_or, not_ne_iff, not_ne_iff] at hnone
            exact hsame (rule_same.mpr hnone)
      · simp [hcontrol, ne]

end Implementations

/-! ### The validation of the migration -/

section Validation

variable {history old : List Candidate} {c cur p : Candidate} {t : Tables} {epochs : List IdentityEpoch}

theorem Identity.sameChain_comm (x y : Identity) : x.sameChain y = y.sameChain x := by
  simp [Identity.sameChain, eq_comm]

theorem filter_unique {α : Type} {f : α → ℕ} {l : List α} {x : α} (hids : (l.map f).Nodup) (hx : x ∈ l) :
    l.filter (fun y => f y = f x) = [x] := by
  obtain ⟨before, later, rfl⟩ := List.append_of_mem hx
  rw [List.map_append, List.map_cons] at hids
  obtain ⟨-, hcons, hdisjoint⟩ := List.nodup_append.mp hids
  obtain ⟨hlater, -⟩ := List.nodup_cons.mp hcons
  have hbefore : before.filter (fun y => f y = f x) = [] := by
    rw [List.filter_eq_nil_iff]
    intro y hy heq
    exact hdisjoint _ (List.mem_map_of_mem hy) _ (List.mem_cons_self ..) (of_decide_eq_true heq)
  have hafter : later.filter (fun y => f y = f x) = [] := by
    rw [List.filter_eq_nil_iff]
    intro y hy heq
    exact hlater (of_decide_eq_true heq ▸ List.mem_map_of_mem hy)
  rw [List.filter_append, List.filter_cons_of_pos (by simp), hbefore, hafter]
  rfl

theorem zip_concat {α : Type} (previous : Option α) (rows : List α) (x : α) :
    (previous :: (rows ++ [x]).map some).zip (rows ++ [x]) =
      (previous :: rows.map some).zip rows ++ [(rows.getLast?.or previous, x)] := by
  induction rows generalizing previous with
  | nil => rfl
  | cons row rows ih =>
      rw [List.cons_append, List.map_cons, List.zip_cons_cons, ih, List.map_cons, List.zip_cons_cons,
        List.cons_append, List.getLast?_cons]
      cases rows.getLast? <;> rfl

theorem lag_concat {α : Type} (rows : List α) (x : α) :
    lag (rows ++ [x]) = lag rows ++ [(rows.getLast?, x)] := by
  rw [lag, zip_concat, Option.or_none]
  rfl

/-- The rows of a history as the validation joins them. -/
def renderOrdered : List Candidate → List OrderedRow
  | [] => []
  | c :: old => renderOrdered old ++
      [⟨⟨old.length + 1, (renderEpochs (c :: old)).length, c.checkpoint⟩, c.identity⟩]

/-- Later epochs are appended. -/
theorem renderEpochs_isPrefix (c : Candidate) (old : List Candidate) :
    renderEpochs old <+: renderEpochs (c :: old) := by
  cases old with
  | nil => exact List.nil_prefix
  | cons prev old =>
      rw [renderEpochs]
      split
      · exact List.prefix_rfl
      · exact List.prefix_append _ _

theorem joined_eq (hids : (epochs.map IdentityEpoch.epochId).Nodup)
    (hrender : renderEpochs history <+: epochs) :
    (renderAcceptances history).flatMap (fun a =>
      (epochs.filter (fun e => e.epochId = a.epochId)).map (fun e => (⟨a, e.identity⟩ : OrderedRow))) =
        renderOrdered history := by
  induction history with
  | nil => rfl
  | cons c old ih =>
      obtain ⟨before, hbefore⟩ := renderEpochs_cons c old
      have hlength : (renderEpochs (c :: old)).length = before.length + 1 := by
        rw [hbefore, List.length_append, List.length_singleton]
      have hmem : (⟨before.length + 1, c.identity⟩ : IdentityEpoch) ∈ epochs :=
        hrender.subset (hbefore ▸ List.mem_append_right _ (List.mem_singleton_self _))
      rw [renderAcceptances, List.flatMap_append, ih ((renderEpochs_isPrefix c old).trans hrender),
        renderOrdered, List.flatMap_singleton, hlength, filter_unique hids hmem]
      rfl

theorem Renders.ordered (h : Renders history t) : t.ordered = renderOrdered history := by
  have hsorted : t.acceptances.Pairwise (fun a b => a.acceptanceId ≤ b.acceptanceId) := by
    have hids := renderAcceptances_ids history
    rw [← h.acceptances] at hids
    have hpairwise : (t.acceptances.map CheckpointAcceptance.acceptanceId).Pairwise (· ≤ ·) := by
      rw [hids]
      exact (List.pairwise_lt_range' (s := 1) (n := history.length)).imp (fun h => h.le)
    exact List.pairwise_map.mp hpairwise
  rw [Tables.ordered, List.Pairwise.insertionSort_eq hsorted, h.acceptances, h.epochs]
  refine joined_eq ?_ List.prefix_rfl
  rw [renderEpochs_ids]
  exact List.nodup_range'

/-- An epoch up to the last one of a history is an epoch of the history. -/
theorem mem_of_epochId_le (hids : epochs.map IdentityEpoch.epochId = List.range' 1 epochs.length)
    (hrender : renderEpochs history <+: epochs) {e : IdentityEpoch} (he : e ∈ epochs)
    (hle : e.epochId ≤ (renderEpochs history).length) : e ∈ renderEpochs history := by
  obtain ⟨later, rfl⟩ := hrender
  rcases List.mem_append.mp he with he | he
  · exact he
  · rw [List.map_append, renderEpochs_ids, List.length_append, List.range'_append.symm] at hids
    have hmem := List.mem_map_of_mem (f := IdentityEpoch.epochId) he
    rw [List.append_cancel_left hids, List.mem_range'_1] at hmem
    omega

/-- No row of a history regresses. -/
theorem History.not_regresses (h : History history)
    (hids : t.epochs.map IdentityEpoch.epochId = List.range' 1 t.epochs.length)
    (hrender : renderEpochs history <+: t.epochs) :
    ∀ rows ∈ lag (renderOrdered history), ¬ t.Regresses rows.1 rows.2 := by
  induction h with
  | nil => exact fun _ h => absurd h List.not_mem_nil
  | @cons old p kind hold _ hrule hkind ih =>
      have hrender' := (renderEpochs_isPrefix p old).trans hrender
      intro rows hrows
      rw [renderOrdered, lag_concat] at hrows
      rcases List.mem_append.mp hrows with hrows | hrows
      · exact ih hrender' rows hrows
      obtain rfl := List.mem_singleton.mp hrows
      cases old with
      | nil => simp [renderOrdered, Tables.Regresses, renderEpochs]
      | cons cur old =>
          rw [renderOrdered, List.getLast?_concat]
          have hepoch : ∀ e ∈ t.epochs, e.epochId < (renderEpochs (cur :: old)).length + 1 →
              ∃ x ∈ cur :: old, x.identity = e.identity := by
            intro e he hlt
            exact mem_renderEpochs_identity.mp
              ⟨e, mem_of_epochId_le hids hrender' he (Nat.le_of_lt_succ hlt), rfl⟩
          rcases rule_cons hrule hkind with ⟨-, hsame, htime, hblock⟩ | ⟨-, hnew, htime, hchain, hother⟩
          · have hlength : (renderEpochs (p :: cur :: old)).length = (renderEpochs (cur :: old)).length := by
              rw [renderEpochs, if_pos hsame.symm]
            simp only [Tables.Regresses, hlength, List.length_cons]
            simp only [Candidate.timestamp, Candidate.block] at htime hblock
            omega
          · have hlength : (renderEpochs (p :: cur :: old)).length =
                (renderEpochs (cur :: old)).length + 1 := by
              rw [renderEpochs, if_neg (Ne.symm (hnew cur (List.mem_cons_self ..))), List.length_append,
                List.length_singleton]
            simp only [Tables.Regresses, hlength, List.length_cons]
            rintro (hid | hid | hid | ⟨hid, -⟩ | ⟨-, hregress⟩)
            · exact hid rfl
            · omega
            · omega
            · omega
            rcases hregress with hle | ⟨e, he, hlt, heq⟩ | ⟨hsame, hle⟩ | ⟨hdifferent, hdigests⟩
            · exact absurd hle (not_le.mpr htime)
            · obtain ⟨x, hx, hx'⟩ := hepoch e he hlt
              exact hnew x hx (hx'.trans heq)
            · rw [Identity.sameChain_comm] at hsame
              exact absurd hle (not_le.mpr (hchain hsame))
            · rw [Identity.sameChain_comm] at hdifferent
              obtain ⟨hchains, hrelease, hauthorization, hconfig⟩ := hother hdifferent
              rcases hdigests with heq | heq | heq | ⟨e, he, hlt, heq⟩
              · exact hrelease heq
              · exact hauthorization heq
              · exact hconfig heq
              · obtain ⟨x, hx, hx'⟩ := hepoch e he hlt
                rw [← hx', hchains x hx] at heq
                cases heq

theorem History.identities (h : History history) : ((renderEpochs history).map IdentityEpoch.identity).Nodup := by
  induction h with
  | nil => exact List.nodup_nil
  | @cons old p kind hold _ hrule hkind ih =>
      cases old with
      | nil => exact List.nodup_singleton _
      | cons cur old =>
          rw [renderEpochs]
          split
          · exact ih
          · rename_i hne
            rw [List.map_append]
            refine List.nodup_append.mpr ⟨ih, List.nodup_singleton _, ?_⟩
            rintro x hx y hy rfl
            obtain rfl := List.mem_singleton.mp hy
            obtain ⟨e, he, heq⟩ := List.mem_map.mp hx
            obtain ⟨z, hz, hz'⟩ := mem_renderEpochs_identity.mp ⟨e, he, heq⟩
            rcases rule_cons hrule hkind with ⟨-, hsame, -⟩ | ⟨-, hnew, -⟩
            · exact hne hsame.symm
            · exact hnew z hz hz'

/-- The tables of every history pass the validation. -/
theorem validateHistory_eq (hh : History history) (h : Renders history t) : validateHistory t = .ok () := by
  have hidentities := hh.identities
  rw [← h.epochs] at hidentities
  rw [validateHistory, revertIf_neg (not_not.mpr hidentities), ok_bind]
  cases history with
  | nil =>
      obtain rfl := h.of_nil
      rfl
  | cons cur old =>
      have hlast := h.last
      obtain ⟨before, hcontrol⟩ := hlast.control
      have hpos := hlast.pos
      have hids := renderEpochs_ids (cur :: old)
      rw [← h.epochs] at hids
      simp only [hlast.maxEpoch, hlast.maxAcceptance, Option.getD_some]
      rw [revertIf_neg, ok_bind, if_neg (by omega), revertIf_neg, ok_bind, revertIf_neg, ok_bind, revertIf_neg]
      · rintro ⟨a, ha, e, he, -, heq, hne⟩
        have hmem : a ∈ t.acceptances.filter (fun a => a.acceptanceId = old.length + 1) :=
          List.mem_filter.mpr ⟨ha, by simpa using heq⟩
        rw [hlast.acceptance, List.mem_singleton] at hmem
        rw [hmem] at hne
        exact hne rfl
      · rintro ⟨rows, hrows, hregress⟩
        rw [h.ordered] at hrows
        exact hh.not_regresses hids (h.epochs ▸ List.prefix_rfl) rows hrows hregress
      · simp [hcontrol, ne]
      · simp only [hlast.epochs, hlast.acceptances, hlast.complete, ne_eq, not_true_eq_false, or_false,
          false_or, not_not]
        omega

end Validation

/-! ### Along a history -/

section Along

variable {history old : List Candidate} {c cur p : Candidate} {t : Tables}

theorem mem_renderOrdered {row : OrderedRow} (h : row ∈ renderOrdered history) :
    (∃ x ∈ history, row.acceptance.checkpoint = x.checkpoint ∧ row.identity = x.identity) ∧
      row.acceptance.acceptanceId ≤ history.length ∧
      row.acceptance.epochId ≤ (renderEpochs history).length := by
  induction history with
  | nil => cases h
  | cons c old ih =>
      rcases List.mem_append.mp h with h | h
      · obtain ⟨⟨x, hx, heq⟩, hid, hepoch⟩ := ih h
        refine ⟨⟨x, List.mem_cons_of_mem _ hx, heq⟩, ?_, hepoch.trans (renderEpochs_isPrefix c old).length_le⟩
        rw [List.length_cons]
        omega
      · obtain rfl := List.mem_singleton.mp h
        exact ⟨⟨c, List.mem_cons_self .., rfl, rfl⟩, le_refl _, le_refl _⟩

/-- What holds of an acceptance and a later one. -/
structure Later (a b : OrderedRow) : Prop where
  acceptanceId : a.acceptance.acceptanceId < b.acceptance.acceptanceId
  epochId : a.acceptance.epochId ≤ b.acceptance.epochId
  timestamp : a.acceptance.checkpoint.checkpointTimestamp ≤ b.acceptance.checkpoint.checkpointTimestamp
  block : a.identity.sameChain b.identity = true →
    a.acceptance.checkpoint.finalizedBlockNumber < b.acceptance.checkpoint.finalizedBlockNumber

theorem Identity.sameChain_trans {x y z : Identity} (hxz : x.sameChain z = true)
    (hyz : y.sameChain z = true) : x.sameChain y = true := by
  simp only [Identity.sameChain, Bool.and_eq_true, decide_eq_true_eq] at *
  exact ⟨hxz.1.trans hyz.1.symm, hxz.2.trans hyz.2.symm⟩

theorem History.later (h : History history) : (renderOrdered history).Pairwise Later := by
  induction h with
  | nil => exact .nil
  | @cons old p kind hold _ hrule hkind ih =>
      rw [renderOrdered, List.pairwise_append]
      refine ⟨ih, List.pairwise_singleton _ _, ?_⟩
      intro a ha b hb
      obtain rfl := List.mem_singleton.mp hb
      obtain ⟨⟨x, hx, hcheckpoint, hidentity⟩, hid, hepoch⟩ := mem_renderOrdered ha
      cases old with
      | nil => cases hx
      | cons cur old =>
          obtain ⟨hbefore, -, hblock⟩ := hold.bounds x hx
          refine ⟨Nat.lt_succ_of_le hid, hepoch.trans (renderEpochs_isPrefix p _).length_le, ?_, ?_⟩
          · rw [hcheckpoint]
            rcases rule_cons hrule hkind with ⟨-, -, htime, -⟩ | ⟨-, -, htime, -⟩
            · exact hbefore.trans htime
            · exact hbefore.trans htime.le
          · intro hsame
            rw [hcheckpoint]
            rw [hidentity] at hsame
            rcases rule_cons hrule hkind with ⟨-, heq, -, hhigher⟩ | ⟨-, -, -, hchain, hother⟩
            · exact (hblock (heq ▸ hsame)).trans_lt hhigher
            · cases hcurrent : cur.identity.sameChain p.identity with
              | true => exact (hblock (Identity.sameChain_trans hsame hcurrent)).trans_lt (hchain hcurrent)
              | false =>
                  rw [(hother hcurrent).1 x hx] at hsame
                  cases hsame

theorem History.later_of_lt (h : History history) {a b : OrderedRow} (ha : a ∈ renderOrdered history)
    (hb : b ∈ renderOrdered history) (hlt : a.acceptance.acceptanceId < b.acceptance.acceptanceId) :
    Later a b := by
  obtain ⟨i, hi, rfl⟩ := List.mem_iff_getElem.mp ha
  obtain ⟨j, hj, rfl⟩ := List.mem_iff_getElem.mp hb
  have hpairs := List.pairwise_iff_getElem.mp h.later
  rcases Nat.lt_trichotomy i j with hij | rfl | hij
  · exact hpairs i j hi hj hij
  · omega
  · have hother := (hpairs j i hj hi hij).acceptanceId
    omega

theorem epoch_of_ordered {a : OrderedRow} (ha : a ∈ t.ordered) :
    ⟨a.acceptance.epochId, a.identity⟩ ∈ t.epochs := by
  obtain ⟨acceptance, -, hmem⟩ := List.mem_flatMap.mp ha
  obtain ⟨e, he, rfl⟩ := List.mem_map.mp hmem
  obtain ⟨he, heq⟩ := List.mem_filter.mp he
  have heq' : e.epochId = acceptance.epochId := by simpa using heq
  rw [← heq']
  exact he

/-- An identity that was left is not returned to. -/
theorem History.left (hh : History history) (h : Renders history t) {a b c : OrderedRow} (ha : a ∈ t.ordered)
    (hb : b ∈ t.ordered) (hc : c ∈ t.ordered) (hab : a.acceptance.acceptanceId < b.acceptance.acceptanceId)
    (hbc : b.acceptance.acceptanceId < c.acceptance.acceptanceId) (hidentity : a.identity = c.identity) :
    b.identity = a.identity := by
  have hidentities := hh.identities
  rw [← h.epochs] at hidentities
  have hids := renderEpochs_ids history
  rw [← h.epochs] at hids
  have hnodup : (t.epochs.map IdentityEpoch.epochId).Nodup := by
    rw [hids]
    exact List.nodup_range'
  have ha' := epoch_of_ordered ha
  have hb' := epoch_of_ordered hb
  have hc' := epoch_of_ordered hc
  have hac := List.inj_on_of_nodup_map hidentities ha' hc' hidentity
  have hepochs : a.acceptance.epochId = c.acceptance.epochId := congrArg IdentityEpoch.epochId hac
  rw [h.ordered] at ha hb hc
  have hle := (hh.later_of_lt ha hb hab).epochId
  have hle' := (hh.later_of_lt hb hc hbc).epochId
  have heq := List.inj_on_of_nodup_map hnodup hb' ha' (show b.acceptance.epochId = a.acceptance.epochId by omega)
  exact congrArg IdentityEpoch.identity heq

end Along

/-! ### Candidates are valid -/

section Candidates

theorem isLowerHex_toLower {c : Char} (h : isHex c = true) : isLowerHex c.toLower = true := by
  have hall : ∀ n < 128, isHex (Char.ofNat n) = true → isLowerHex (Char.ofNat n).toLower = true := by
    decide +kernel
  have hlt : c.toNat < 128 := by
    simp only [isHex, isLowerHex, isDecimal, Bool.or_eq_true, Bool.and_eq_true, decide_eq_true_eq,
      Char.le_def, UInt32.le_iff_toNat_le] at h
    have hval : c.toNat = c.val.toNat := rfl
    have h9 : '9'.val.toNat = 57 := rfl
    have hf : 'f'.val.toNat = 102 := rfl
    have hF : 'F'.val.toNat = 70 := rfl
    omega
  rw [← Char.ofNat_toNat c] at h ⊢
  exact hall _ hlt h

theorem matchesFixed_toLower {start : List Char} {count : ℕ} {kind kind' : Char → Bool} {s : String}
    (hstart : start.map Char.toLower = start) (hkind : ∀ c, kind c = true → kind' c.toLower = true)
    (h : matchesFixed start count kind s = true) : matchesFixed start count kind' s.toLower = true := by
  simp only [matchesFixed, Bool.and_eq_true, decide_eq_true_eq, List.all_eq_true] at h ⊢
  obtain ⟨⟨htake, hlength⟩, hall⟩ := h
  have hlist : s.toLower.toList = s.toList.map Char.toLower := String.toList_map
  rw [hlist, ← List.map_take, ← List.map_drop, htake, hstart, List.length_map]
  refine ⟨⟨rfl, hlength⟩, fun c hc => ?_⟩
  obtain ⟨c', hc', rfl⟩ := List.mem_map.mp hc
  exact hkind c' (hall c' hc')

theorem normalized_eq_ok {value : Value} {pattern : String → Bool} {label s : String}
    (h : normalized value pattern label = .ok s) : ∃ text, pattern text = true ∧ s = text.toLower := by
  unfold normalized at h
  split at h
  · rename_i text
    simp only [bind_eq_ok, revertIf_eq_ok, pure_eq_ok] at h
    obtain ⟨-, hpattern, rfl⟩ := h
    exact ⟨text, by simpa using hpattern, rfl⟩
  · cases h

theorem uint_eq_ok {value : Value} {label : String} {positive : Bool} {n : ℤ}
    (h : uint value label positive = .ok n) : (if positive then 1 else 0) ≤ n := by
  unfold uint at h
  split at h
  · simp only [bind_eq_ok, revertIf_eq_ok, pure_eq_ok, not_or, not_lt] at h
    obtain ⟨-, ⟨-, hle, -⟩, rfl⟩ := h
    exact hle
  · cases h

/-- What the portal offers has the formats that the database asks for. -/
theorem candidate_valid {snapshot : ActivatedSnapshot} {c : Candidate}
    (h : indexerCheckpointHighWaterCandidate snapshot = .ok c) : c.valid = true := by
  simp only [indexerCheckpointHighWaterCandidate, bind_eq_ok, revertIf_eq_ok, pure_eq_ok] at h
  obtain ⟨-, hname, block, hblock, hash, hhash, digest, hdigest, time, htime, release, hrelease,
    authorization, hauthorization, chainId, hchainId, commit, hcommit, config, hconfig, rfl⟩ := h
  have hbytes : ∀ {value label s}, normalized value (isBytes32 isHex) label = .ok s →
      isBytes32 isLowerHex s = true := by
    intro value label s hs
    obtain ⟨text, htext, rfl⟩ := normalized_eq_ok hs
    exact matchesFixed_toLower (by decide) (fun _ => isLowerHex_toLower) htext
  have hsha : ∀ {value label s}, normalized value isSha256 label = .ok s → isSha256 s = true := by
    intro value label s hs
    obtain ⟨text, htext, rfl⟩ := normalized_eq_ok hs
    refine matchesFixed_toLower (by decide) (fun c hc => isLowerHex_toLower ?_) htext
    rw [isHex, hc, Bool.true_or]
  have hcommit' : isCommit isLowerHex commit = true := by
    obtain ⟨text, htext, rfl⟩ := normalized_eq_ok hcommit
    exact matchesFixed_toLower (by decide) (fun _ => isLowerHex_toLower) htext
  have hblock' : 0 ≤ block := uint_eq_ok hblock
  have htime' : 1 ≤ time := uint_eq_ok htime
  have hchain' : 1 ≤ chainId := uint_eq_ok hchainId
  simp only [Candidate.valid, Checkpoint.valid, Identity.valid, Bool.and_eq_true, decide_eq_true_eq]
  refine ⟨⟨⟨⟨hblock', by omega⟩, hbytes hhash⟩, hsha hdigest⟩, ⟨⟨⟨⟨⟨by omega, hsha hrelease⟩,
    hsha hauthorization⟩, by simpa using hname⟩, hcommit'⟩, hbytes hconfig⟩⟩

end Candidates

/-! ### Runs -/

/-- The digest of every candidate that is offered determines the rest of its checkpoint. -/
def Act.Means (contents : String → ℤ × String × ℤ) (_ : World) : Act → Prop
  | .call snapshot => ∀ c, indexerCheckpointHighWaterCandidate snapshot = .ok c → c.Means contents
  | _ => True

/-- The candidate of a session that is not over. -/
def Session.candidate : Session → Option Candidate
  | called c | reading c _ | missed c | writing c _ _ => some c
  | closed => none

/-- What holds of the committed tables and the sessions. -/
structure Sound (contents : String → ℤ × String × ℤ) (w : World) : Prop where
  tables : ∃ history, History history ∧ (∀ x ∈ history, x.Means contents) ∧ Renders history w.tables
  candidates : ∀ session ∈ w.sessions, ∀ c ∈ session.candidate, c.valid = true ∧ c.Means contents
  /-- The uncommitted tables are those of a transition of the committed ones, and no other session
  holds a lock. -/
  writing : ∀ (i : ℕ) (c : Candidate) (rows : List TransitionRow) (tables : Tables),
    w.sessions[i]? = some (.writing c rows tables) →
      (∃ now, transition now c w.tables = .ok (rows, tables)) ∧
        ∀ (j : ℕ) (session : Session), w.sessions[j]? = some session → session.locks = true → j = i

namespace Sound

variable {contents : String → ℤ × String × ℤ} {w w' : World} {i : ℕ}

theorem getElem?_set {sessions : List Session} {session s : Session} {j : ℕ}
    (h : (sessions.set i session)[j]? = some s) :
    j = i ∧ s = session ∨ j ≠ i ∧ sessions[j]? = some s := by
  rw [List.getElem?_set] at h
  by_cases hij : i = j
  · rw [if_pos hij] at h
    split at h
    · cases h
      exact .inl ⟨hij.symm, rfl⟩
    · cases h
  · rw [if_neg hij] at h
    exact .inr ⟨Ne.symm hij, h⟩

/-- A session goes on without an exclusive lock; it takes a shared one only if there is no exclusive one. -/
theorem setSession {session : Session} (h : Sound contents w)
    (hcandidate : ∀ c ∈ session.candidate, c.valid = true ∧ c.Means contents)
    (hexclusive : session.locksExclusively = false)
    (hlocks : session.locks = true → w.sessions.any Session.locksExclusively = false) :
    Sound contents (w.setSession i session) where
  tables := h.tables
  candidates := by
    intro s hs c hc
    rcases List.mem_or_eq_of_mem_set hs with hs | rfl
    · exact h.candidates s hs c hc
    · exact hcandidate c hc
  writing := by
    intro j c rows tables hj
    rcases getElem?_set hj with ⟨-, heq⟩ | ⟨hne, hwriting⟩
    · rw [← heq] at hexclusive
      cases hexclusive
    · obtain ⟨hrun, hunique⟩ := h.writing j c rows tables hwriting
      refine ⟨hrun, fun k s hk hs => ?_⟩
      rcases getElem?_set hk with ⟨-, heq⟩ | ⟨-, hk⟩
      · rw [heq] at hs
        have hnone := List.any_eq_false.mp (hlocks hs) _ (List.mem_of_getElem? hwriting)
        exact absurd rfl hnone
      · exact hunique k s hk hs

theorem close (h : Sound contents w) : Sound contents (w.setSession i .closed) :=
  h.setSession (fun _ hc => by cases hc) rfl (fun hlocks => by cases hlocks)

theorem of_getElem? {session : Session} (h : Sound contents w) (hi : w.sessions[i]? = some session)
    {c : Candidate} (hc : session.candidate = some c) : c.valid = true ∧ c.Means contents :=
  h.candidates session (List.mem_of_getElem? hi) c hc

/-- What a transition of the committed tables leaves. -/
theorem transition_tables {c : Candidate} {now : ℕ} {rows : List TransitionRow} {tables : Tables}
    (h : Sound contents w) (hvalid : c.valid = true) (hmeans : c.Means contents)
    (hrun : transition now c w.tables = .ok (rows, tables)) :
    ∃ history, History history ∧ (∀ x ∈ history, x.Means contents) ∧ Renders history tables := by
  obtain ⟨history, hh, hmeans', hrender⟩ := h.tables
  have hfollows := transition_follows now hrender hvalid
    (fun kind hrule hkind => hh.digest_fresh hmeans' hmeans hrule hkind)
  unfold Follows at hfollows
  split at hfollows
  · obtain ⟨e, he⟩ := hfollows
    rw [hrun] at he
    cases he
  · rename_i kind hrule
    obtain ⟨t', heq, hrender', hsame⟩ := hfollows
    rw [hrun] at heq
    cases heq
    by_cases hkind : kind = .same
    · rw [hsame hkind]
      exact ⟨history, hh, hmeans', hrender⟩
    · rw [after, if_neg hkind] at hrender'
      refine ⟨_, hh.cons hvalid hrule hkind, fun x hx => ?_, hrender'⟩
      rcases List.mem_cons.mp hx with rfl | hx
      · exact hmeans
      · exact hmeans' x hx

theorem step {act : Act} (h : Sound contents w) (hmeans : act.Means contents w)
    (hstep : w.step act = some w') : Sound contents w' := by
  cases act with
  | call snapshot =>
      simp only [World.step] at hstep
      split at hstep
      · cases hstep
        exact h
      · rename_i c hc
        cases hstep
        constructor
        · exact h.tables
        · intro s hs c' hc'
          rcases List.mem_append.mp hs with hs | hs
          · exact h.candidates s hs c' hc'
          · obtain rfl := List.mem_singleton.mp hs
            cases hc'
            exact ⟨candidate_valid hc, hmeans c hc⟩
        · have hold : ∀ {j : ℕ} {s : Session}, (w.sessions ++ [Session.called c])[j]? = some s →
              s ≠ .called c → w.sessions[j]? = some s := by
            intro j s hj hne
            rw [List.getElem?_append] at hj
            split at hj
            · exact hj
            · obtain rfl := List.mem_singleton.mp (List.mem_of_getElem? hj)
              exact absurd rfl hne
          intro j c' rows tables hj
          obtain ⟨hrun, hunique⟩ := h.writing j c' rows tables (hold hj (by simp))
          refine ⟨hrun, fun k s hk hs => hunique k s (hold hk ?_) hs⟩
          rintro rfl
          cases hs
  | read i =>
      simp only [World.step] at hstep
      split at hstep
      · rename_i c hi
        split at hstep
        · cases hstep
        rename_i hexclusive
        split at hstep
        · cases hstep
          exact h.close
        · cases hstep
          refine h.setSession (fun c' hc' => ?_) rfl (fun _ => by simpa using hexclusive)
          cases hc'
          exact h.of_getElem? hi rfl
      · cases hstep
  | decide i =>
      simp only [World.step] at hstep
      split at hstep
      · rename_i c rows hi
        split at hstep
        · cases hstep
          refine h.setSession (fun c' hc' => ?_) rfl (fun hlocks => by cases hlocks)
          cases hc'
          exact h.of_getElem? hi rfl
        · cases hstep
          exact h.close
      · cases hstep
  | transition i now =>
      simp only [World.step] at hstep
      split at hstep
      · rename_i c hi
        split at hstep
        · cases hstep
        rename_i hlocks
        split at hstep
        · cases hstep
          exact h.close
        rename_i rows tables hrun
        cases hstep
        have hnone : ∀ s ∈ w.sessions, s.locks = false := by
          intro s hs
          rw [Bool.not_eq_true, List.any_eq_false] at hlocks
          simpa using hlocks s hs
        constructor
        · exact h.tables
        · intro s hs c' hc'
          rcases List.mem_or_eq_of_mem_set hs with hs | rfl
          · exact h.candidates s hs c' hc'
          · cases hc'
            exact h.of_getElem? hi rfl
        · intro j c' rows' tables' hj
          rcases getElem?_set hj with ⟨rfl, heq⟩ | ⟨-, hj⟩
          · cases heq
            refine ⟨⟨now, hrun⟩, fun k s hk hs => ?_⟩
            rcases getElem?_set hk with ⟨hk, -⟩ | ⟨-, hk⟩
            · exact hk
            · rw [hnone s (List.mem_of_getElem? hk)] at hs
              cases hs
          · have hunlocked := hnone _ (List.mem_of_getElem? hj)
            cases hunlocked
      · cases hstep
  | commit i =>
      simp only [World.step] at hstep
      split at hstep
      · rename_i c row tables hi
        split at hstep
        · cases hstep
          obtain ⟨⟨now, hrun⟩, hunique⟩ := h.writing i c [row] tables hi
          obtain ⟨hvalid, hmeans⟩ := h.of_getElem? hi rfl
          constructor
          · exact h.transition_tables hvalid hmeans hrun
          · exact (h.close (i := i)).candidates
          · intro j c' rows' tables' hj
            rcases getElem?_set hj with ⟨-, heq⟩ | ⟨hne, hj⟩
            · cases heq
            · exact absurd (hunique j _ hj rfl) hne
        · cases hstep
          exact h.close
      · cases hstep
        exact h.close
      · cases hstep
  | crash i =>
      cases hstep
      exact h.close

theorem of_reachable (h : enforcement.Reachable (fun w act => act.Means contents w) w) : Sound contents w := by
  refine h.invariant ?_ (fun _ _ _ _ hs hmeans hstep => hs.step hmeans hstep)
  rintro w rfl
  constructor
  · exact ⟨[], .nil, fun _ hx => absurd hx List.not_mem_nil, ⟨rfl, rfl, .inl ⟨rfl, rfl⟩⟩⟩
  · exact fun _ hs => absurd hs List.not_mem_nil
  · exact fun i _ _ _ hi => by cases hi

end Sound

/-! ### The laws -/

/-- The transition and the decision both reject, or both give the same kind and ids. -/
def Agree (result : Except CheckpointError (List TransitionRow × Tables))
    (decision : Except CheckpointError EpochDecision) : Prop :=
  (∃ e, result = .error e) ∧ (∃ e, decision = .error e) ∨
    ∃ row tables, result = .ok ([row], tables) ∧
      decision = .ok ⟨row.transitionKind, row.epoch.epochId, row.acceptance.acceptanceId⟩

structure HighWaterLaws (contents : String → ℤ × String × ℤ) (w : World) : Prop where
  agree : ∀ snapshot c now, indexerCheckpointHighWaterCandidate snapshot = .ok c → c.Means contents →
    Agree (transition now c w.tables)
      (decideIndexerCheckpointEpoch w.tables.control w.tables.epochs w.tables.currentAcceptance c)
  /-- The exact read does not fail, and finds a row precisely when the transition answers that the
  candidate is accepted already. -/
  exact : ∀ snapshot c now, indexerCheckpointHighWaterCandidate snapshot = .ok c → c.Means contents →
    ∃ rows, readExact c w.tables = .ok rows ∧ (rows ≠ [] ↔ ∃ row tables,
      transition now c w.tables = .ok ([row], tables) ∧ row.transitionKind = .same)
  validated : validateHistory w.tables = .ok ()
  epochIds : w.tables.epochs.map IdentityEpoch.epochId = List.range' 1 w.tables.epochs.length
  acceptanceIds : w.tables.acceptances.map CheckpointAcceptance.acceptanceId =
    List.range' 1 w.tables.acceptances.length
  joined : w.tables.ordered.map OrderedRow.acceptance = w.tables.acceptances
  later : ∀ a ∈ w.tables.ordered, ∀ b ∈ w.tables.ordered,
    a.acceptance.acceptanceId < b.acceptance.acceptanceId → Later a b
  left : ∀ a ∈ w.tables.ordered, ∀ b ∈ w.tables.ordered, ∀ c ∈ w.tables.ordered,
    a.acceptance.acceptanceId < b.acceptance.acceptanceId →
      b.acceptance.acceptanceId < c.acceptance.acceptanceId → a.identity = c.identity →
        b.identity = a.identity

theorem renderOrdered_acceptance (history : List Candidate) :
    (renderOrdered history).map OrderedRow.acceptance = renderAcceptances history := by
  induction history with
  | nil => rfl
  | cons c old ih =>
      rw [renderOrdered, List.map_append, ih]
      rfl

theorem high_water {contents : String → ℤ × String × ℤ} {w : World}
    (h : enforcement.Reachable (fun w act => act.Means contents w) w) : HighWaterLaws contents w := by
  obtain ⟨history, hh, hmeans, hrender⟩ := (Sound.of_reachable h).tables
  have hfollows : ∀ (now : ℕ) {snapshot : ActivatedSnapshot} {c : Candidate}, indexerCheckpointHighWaterCandidate snapshot = .ok c →
      c.Means contents → Follows history w.tables c (transition now c w.tables) := by
    intro now snapshot c hc hmeans'
    exact transition_follows now hrender (candidate_valid hc)
      (fun kind hrule hkind => hh.digest_fresh hmeans hmeans' hrule hkind)
  have hids := renderEpochs_ids history
  have hids' := renderAcceptances_ids history
  constructor
  case agree =>
    intro snapshot c now hc hmeans'
    have hrun := hfollows now hc hmeans'
    have hdecide := decide_follows (p := c) hrender
    unfold Follows at hrun
    split at hrun
    · rename_i hrule
      rw [hrule, Option.map_none] at hdecide
      refine .inl ⟨hrun, ?_⟩
      cases hdecision : decideIndexerCheckpointEpoch w.tables.control w.tables.epochs
          w.tables.currentAcceptance c with
      | error e => exact ⟨e, rfl⟩
      | ok decision =>
          rw [hdecision] at hdecide
          cases hdecide
    · rename_i kind hrule
      obtain ⟨tables, hrun, -⟩ := hrun
      rw [hrule, Option.map_some, toOption_eq_some] at hdecide
      exact .inr ⟨_, tables, hrun, hdecide⟩
  case exact =>
    intro snapshot c now hc hmeans'
    refine ⟨_, readExact_follows hrender (candidate_valid hc), ?_⟩
    have hrun := hfollows now hc hmeans'
    unfold Follows at hrun
    split at hrun
    · rename_i hrule
      obtain ⟨e, he⟩ := hrun
      rw [hrule, he]
      simp
    · rename_i kind hrule
      obtain ⟨tables, hrun, -⟩ := hrun
      rw [hrule, hrun]
      constructor
      · intro hne
        refine ⟨_, tables, rfl, ?_⟩
        by_contra hkind
        exact hne (if_neg (fun heq => hkind (Option.some.inj heq)))
      · rintro ⟨row, tables', heq, hkind⟩
        cases heq
        rw [if_pos (by rw [show kind = .same from hkind])]
        exact List.cons_ne_nil _ _
  case validated => exact validateHistory_eq hh hrender
  case epochIds =>
    rw [hrender.epochs]
    exact hids
  case acceptanceIds =>
    rw [hrender.acceptances, renderAcceptances_length]
    exact hids'
  case joined => rw [hrender.ordered, renderOrdered_acceptance, hrender.acceptances]
  case later =>
    intro a ha b hb hlt
    rw [hrender.ordered] at ha hb
    exact hh.later_of_lt ha hb hlt
  case left =>
    intro a ha b hb c hc hab hbc heq
    exact hh.left hrender ha hb hc hab hbc heq

instance (contents : String → ℤ × String × ℤ) (c : Candidate) : Decidable (c.Means contents) :=
  inferInstanceAs (Decidable (_ = _))

instance (contents : String → ℤ × String × ℤ) (w : World) (act : Act) :
    Decidable (act.Means contents w) :=
  match act with
  | .call snapshot =>
      decidable_of_iff (∀ c ∈ (indexerCheckpointHighWaterCandidate snapshot).toOption, c.Means contents)
        (forall_congr' (fun _ => by rw [Option.mem_def, toOption_eq_some]))
  | .read _ | .decide _ | .transition _ _ | .commit _ | .crash _ => isTrue trivial

namespace Sample

def digits (last : String) : String :=
  "000000000000000000000000000000000000000000000000000000000000000" ++ last

def commit : String := "0000000000000000000000000000000000000000"

/-- The checkpoint of a block of which the last digit is given. -/
def snapshot (block : ℕ) (last : String) : ActivatedSnapshot where
  toBlock := .number block
  toBlockHash := .string ("0x" ++ digits last)
  toBlockTimestamp := .number (block + 100)
  checkpointDigest := .string ("sha256:" ++ digits last)
  releaseBindingDigest := .string ("sha256:" ++ digits "0")
  authorizationDigest := .string ("sha256:" ++ digits "0")
  chainId := .number 8453
  chainName := "base"
  deploymentCommit := .string commit
  deploymentConfigHash := .string ("0x" ++ digits "0")

def contents (digest : String) : ℤ × String × ℤ :=
  if digest = "sha256:" ++ digits "1" then (1, "0x" ++ digits "1", 101)
  else (2, "0x" ++ digits "2", 102)

/-- Two calls, of which the second one misses before the first one has committed. -/
def acts : List Act :=
  [.call (snapshot 1 "1"), .call (snapshot 2 "2"), .read 0, .decide 0, .read 1, .decide 1,
    .transition 0 7, .commit 0, .transition 1 8, .commit 1]

end Sample

theorem high_water_sample : ∃ w, w.tables.acceptances.length = 2 ∧ HighWaterLaws Sample.contents w := by
  have hexec : (enforcement.execIf (fun w act => act.Means Sample.contents w) {} Sample.acts).map
      (fun w => w.tables.acceptances.length) = some 2 := by decide +kernel
  obtain ⟨w, hrun, hlength⟩ := Option.map_eq_some_iff.mp hexec
  exact ⟨w, hlength, high_water (.of_execIf rfl hrun)⟩

end P42Prizes.HighWater
