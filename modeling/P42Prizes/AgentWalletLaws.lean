import P42Prizes.AgentWallet

/-! # The spending policy of the agent wallet

The policy is about what happened since the last reset of the session and since the last write of a call
policy, so a run carries the list of these happenings as a history: resets, writes, and the calls that
were forwarded (`Mark`).  The counters of the contract are functions of the history (`Accounted`), whatever
calls the wallet while it is forwarding one.

* `Change`: what one call can do to the accounts, and `run_change`, one case for each function.
* `spendingLaws`: the policy, for every reachable state and its history. -/

namespace P42Prizes.Wallet

open Reverting Function Transition

/-! ### Histories -/

/-- What a write of a policy leaves behind. -/
inductive Write where
  | allowed (ok : Bool)
  | policy (maxCalls : ℕ) (calldataHash : Bytes32)
  | removed
deriving DecidableEq, Repr

/-- A forwarded call, with the spend cap that was in force. -/
structure Forward where
  target : Address
  value : ℕ
  data : Bytes
  forced : Bool
  cap : ℕ
deriving DecidableEq, Repr

def Forward.key (f : Forward) : Address × Bytes4 := (f.target, selectorOf f.data)

inductive Mark where
  | reset
  | written (key : Address × Bytes4) (write : Write)
  | forwarded (forward : Forward)
deriving DecidableEq, Repr

def PolicyArguments.key (a : PolicyArguments) : Address × Bytes4 := (a.target, a.selector)

def PolicyArguments.write (a : PolicyArguments) : Write :=
  if a.ok then .policy a.maxCalls a.calldataHash else .removed

def WalletCall.mark (w : P42AgentWallet) : WalletCall → Option Mark
  | .setSessionKey _ => some .reset
  | .setSessionPolicy .. => some .reset
  | .setAllowed target selector ok => some (.written (target, selector) (.allowed ok))
  | .setCallPolicy a => some (.written a.key a.write)
  | .setForcedCallPolicy a => some (.written a.key a.write)
  | .execute target value data => some (.forwarded ⟨target, value, data, false, w.totalSpendCapWei⟩)
  | .executeForcedPolicy target value data =>
      some (.forwarded ⟨target, value, data, true, w.totalSpendCapWei⟩)
  | _ => none

def Action.mark (w : World) : Action → Option Mark
  | .call _ _ f => f.mark w.wallet
  | _ => none

/-- The marks of a run, newest first. -/
def recordMark (w : World) (a : Action) (_ : World) (h : List Mark) : List Mark :=
  (a.mark w).toList ++ h

/-- The ETH sent by forwarded calls since the last reset of the session. -/
def sentSinceReset : List Mark → ℕ
  | [] => 0
  | .reset :: _ => 0
  | .written _ _ :: h => sentSinceReset h
  | .forwarded f :: h => sentSinceReset h + f.value

/-- The last write of the policy of a target and selector. -/
def lastWrite (key : Address × Bytes4) : List Mark → Option Write
  | [] => none
  | .written key' write :: h => if key' = key then some write else lastWrite key h
  | _ :: h => lastWrite key h

/-- The calls forwarded for a target and selector since the last write of their policy. -/
def usesSinceWrite (key : Address × Bytes4) : List Mark → ℕ
  | [] => 0
  | .reset :: h => usesSinceWrite key h
  | .written key' _ :: h => if key' = key then 0 else usesSinceWrite key h
  | .forwarded f :: h => usesSinceWrite key h + if f.key = key then 1 else 0

/-- The last write covers a forwarded call: it fixed the hash of the calldata, or it allowed a bare
selector or empty calldata, which only `execute` forwards. -/
def Covered (c : Crypto) (f : Forward) : Option Write → Prop
  | some (.policy _ calldataHash) => c.keccak256 f.data = calldataHash
  | some (.allowed true) =>
      f.forced = false ∧ (f.data = [] ∨ (f.data.length = 4 ∧ selectorOf f.data ≠ 0))
  | _ => False

/-! ### What one call does -/

/-- The state of one policy, after its last write and so many uses. -/
def Agrees (uses : ℕ) (allowed : Bool) (policy : CallPolicy) : Option Write → Prop
  | some (.allowed ok) => allowed = ok ∧ policy.configured = false
  | some (.policy maxCalls calldataHash) =>
      allowed = true ∧ policy.configured = true ∧ policy.maxCalls = maxCalls ∧
        policy.calldataHash = calldataHash ∧ policy.calls = uses ∧ uses ≤ maxCalls
  | _ => allowed = false ∧ policy.configured = false

structure SamePolicies (w w' : P42AgentWallet) : Prop where
  allowed : w'.allowed = w.allowed
  callPolicies : w'.callPolicies = w.callPolicies
  count : w'.allowlistedPolicyCount = w.allowlistedPolicyCount

/-- The pairs of a target and a selector that are allowed. -/
def allowlist (allowed : Address × Bytes4 → Bool) : Set (Address × Bytes4) := {key | allowed key = true}

/-- The counter follows the number of allowed pairs. -/
def Counted (w w' : P42AgentWallet) : Prop :=
  w.allowlistedPolicyCount = (allowlist w.allowed).ncard →
    w'.allowlistedPolicyCount = (allowlist w'.allowed).ncard

/-- The policy of a forwarded call, and what its use does to it. -/
inductive Used (c : Crypto) (f : Forward) (w w' : P42AgentWallet) : Prop
  | exact : (w.callPolicies f.key).configured = true →
      (w.callPolicies f.key).calls < (w.callPolicies f.key).maxCalls →
      c.keccak256 f.data = (w.callPolicies f.key).calldataHash →
      w'.callPolicies = update w.callPolicies f.key
        { w.callPolicies f.key with calls := (w.callPolicies f.key).calls + 1 } → Used c f w w'
  | bare : (w.callPolicies f.key).configured = false → ¬ P42AgentWallet.needsExactPolicy f.data f.forced →
      w'.callPolicies = w.callPolicies → Used c f w w'

/-- What a call does to the accounts. -/
inductive Change (c : Crypto) (w w' : P42AgentWallet) : Option Mark → Prop
  | quiet : SamePolicies w w' → w'.spentWei = w.spentWei → Change c w w' none
  | reset : SamePolicies w w' → w'.spentWei = 0 → Change c w w' (some .reset)
  | written {key : Address × Bytes4} {write : Write} (ok : Bool) (policy : CallPolicy) :
      Agrees 0 ok policy (some write) → w'.allowed = update w.allowed key ok →
      w'.callPolicies = update w.callPolicies key policy → Counted w w' →
      w'.spentWei = w.spentWei → Change c w w' (some (.written key write))
  | forwarded {f : Forward} : w.allowed f.key = true → Used c f w w' → w'.allowed = w.allowed →
      w'.allowlistedPolicyCount = w.allowlistedPolicyCount → w'.spentWei = w.spentWei + f.value →
      w'.spentWei ≤ f.cap → Change c w w' (some (.forwarded f))

section

variable {c : Crypto} {e : Env} {w w' : P42AgentWallet} {key : Address × Bytes4} {ok : Bool}

theorem ncard_allowlist_insert {allowed : Address × Bytes4 → Bool} (h : allowed key = false) :
    (allowlist (update allowed key true)).ncard = (allowlist allowed).ncard + 1 := by
  have hnot : key ∉ allowlist allowed := by
    show ¬ allowed key = true
    rw [h]
    exact Bool.false_ne_true
  rw [← Set.ncard_insert_of_notMem hnot (Set.toFinite _)]
  congr 1
  ext key'
  show update allowed key true key' = true ↔ key' = key ∨ allowed key' = true
  by_cases hkey : key' = key
  · subst hkey
    rw [update_self]
    exact iff_of_true rfl (.inl rfl)
  · rw [update_of_ne hkey]
    exact ⟨.inr, fun hor => hor.resolve_left hkey⟩

theorem setAllowedState_ok (h : w.setAllowedState key ok = .ok w') :
    ∃ count, w' = { w with allowed := update w.allowed key ok, allowlistedPolicyCount := count } ∧
      Counted w w' := by
  unfold P42AgentWallet.setAllowedState at h
  split at h
  · next hsame =>
      obtain rfl : w = w' := pure_eq_ok.mp h
      refine ⟨w.allowlistedPolicyCount, ?_, id⟩
      rw [← hsame, update_eq_self]
  · next hne =>
      cases ok with
      | true =>
          simp only [if_true, bind_eq_ok, checkedAdd_eq_ok, pure_eq_ok] at h
          obtain ⟨count, ⟨-, rfl⟩, rfl⟩ := h
          refine ⟨_, rfl, fun hcount => ?_⟩
          rw [ncard_allowlist_insert (Bool.eq_false_of_not_eq_true hne), ← hcount]
      | false =>
          simp only [Bool.false_eq_true, if_false, bind_eq_ok, checkedSub_eq_ok, pure_eq_ok] at h
          obtain ⟨count, ⟨-, rfl⟩, rfl⟩ := h
          refine ⟨_, rfl, fun hcount => ?_⟩
          -- the pair was allowed: allowing it again gives the list of before
          have hunset : update w.allowed key false key = false := update_self ..
          have hback := ncard_allowlist_insert hunset
          rw [update_idem, ← Bool.eq_true_of_not_eq_false hne, update_eq_self, ← hcount] at hback
          show w.allowlistedPolicyCount - 1 = (allowlist (update w.allowed key false)).ncard
          omega

theorem storePolicy_ok {policy : CallPolicy} (h : w.storePolicy key policy = .ok w') :
    ∃ epoch, w' = { w with
      callPolicies := update w.callPolicies key policy
      policyMutationEpoch := epoch } := by
  simp only [P42AgentWallet.storePolicy, bind_eq_ok, pure_eq_ok] at h
  obtain ⟨epoch, -, rfl⟩ := h
  exact ⟨epoch, rfl⟩

/-- Both parts of a write. -/
theorem Change.of_write {w₁ w₂ : P42AgentWallet} {policy : CallPolicy} {write : Write}
    (hallowed : w.setAllowedState key ok = .ok w₁) (hstore : w₁.storePolicy key policy = .ok w₂)
    (hagrees : Agrees 0 ok policy (some write)) (hw : SamePolicies w₂ w') (hspent : w'.spentWei = w₂.spentWei) :
    Change c w w' (some (.written key write)) := by
  obtain ⟨count, rfl, hcounted⟩ := setAllowedState_ok hallowed
  obtain ⟨epoch, rfl⟩ := storePolicy_ok hstore
  refine .written ok policy hagrees hw.allowed hw.callPolicies (fun hcount => ?_) hspent
  rw [hw.count, hw.allowed]
  exact hcounted hcount

theorem setAllowed_change {target : Address} {selector : Bytes4}
    (h : w.setAllowed e target selector ok = .ok w') :
    Change c w w' (some (.written (target, selector) (.allowed ok))) := by
  simp only [P42AgentWallet.setAllowed, bind_eq_ok, pure_eq_ok] at h
  obtain ⟨-, -, -, -, w₁, hallowed, w₂, hstore, rfl⟩ := h
  exact .of_write hallowed hstore ⟨rfl, rfl⟩ ⟨rfl, rfl, rfl⟩ rfl

theorem writePolicy_change {a : PolicyArguments} (h : w.writePolicy e a = .ok w') :
    Change c w w' (some (.written a.key a.write)) := by
  simp only [P42AgentWallet.writePolicy, bind_eq_ok] at h
  obtain ⟨-, -, h⟩ := h
  unfold PolicyArguments.write
  split at h
  · next hok =>
      simp only [bind_eq_ok, pure_eq_ok] at h
      obtain ⟨w₁, hallowed, w₂, hstore, rfl⟩ := h
      rw [hok]
      exact .of_write hallowed hstore ⟨rfl, rfl⟩ ⟨rfl, rfl, rfl⟩ rfl
  · next hok =>
      simp only [bind_eq_ok, pure_eq_ok] at h
      obtain ⟨-, -, w₁, hallowed, w₂, hstore, rfl⟩ := h
      rw [Bool.eq_true_of_not_eq_false hok]
      exact .of_write hallowed hstore ⟨rfl, rfl, rfl, rfl, rfl, Nat.zero_le _⟩ ⟨rfl, rfl, rfl⟩ rfl

theorem resetSession_change {session : Address} {chainId expiresAt : ℕ}
    (h : w.resetSession e session chainId expiresAt = .ok w') : Change c w w' (some .reset) := by
  simp only [P42AgentWallet.resetSession, bind_eq_ok, pure_eq_ok] at h
  obtain ⟨_, -, -, -, rfl⟩ := h
  exact .reset ⟨rfl, rfl, rfl⟩ rfl

/-! ### Forwarded calls -/

theorem usePolicy_ok {f : Forward} (h : w.usePolicy c e f.target f.data f.forced = .ok w') :
    Used c f w w' ∧ ∃ policies, w' = { w with callPolicies := policies } := by
  unfold P42AgentWallet.usePolicy at h
  dsimp only at h
  split at h
  · next hconfigured =>
      simp only [bind_eq_ok, revertIf_eq_ok, checkedAdd_eq_ok, pure_eq_ok, Unique.exists_iff,
        ge_iff_le, not_le, ne_eq, not_not] at h
      obtain ⟨-, -, hcalls, hhash, calls, ⟨-, rfl⟩, rfl⟩ := h
      exact ⟨.exact hconfigured hcalls hhash rfl, _, rfl⟩
  · next hconfigured =>
      simp only [bind_eq_ok, revertIf_eq_ok, pure_eq_ok, Unique.exists_iff] at h
      obtain ⟨hexact, rfl⟩ := h
      exact ⟨.bare (Bool.eq_false_of_not_eq_true hconfigured) hexact rfl, _, rfl⟩

theorem Used.congr {w₁ w₁' : P42AgentWallet} {f : Forward} (h : Used c f w₁ w₁')
    (hw : w.callPolicies = w₁.callPolicies) (hw' : w'.callPolicies = w₁'.callPolicies) : Used c f w w' := by
  cases h with
  | exact hconfigured hcalls hhash hpolicies =>
      rw [← hw] at hconfigured hcalls hhash hpolicies
      exact .exact hconfigured hcalls hhash (hw'.trans hpolicies)
  | bare hconfigured hexact hpolicies =>
      rw [← hw] at hconfigured hpolicies
      exact .bare hconfigured hexact (hw'.trans hpolicies)

theorem beginPolicy_change {f : Forward} {frame : Frame} (hcap : f.cap = w.totalSpendCapWei)
    (h : P42AgentWallet.beginPolicy c e f.target f.value f.data f.forced { w with entered := true } =
      .ok (w', frame)) : Change c w w' (some (.forwarded f)) := by
  simp only [P42AgentWallet.beginPolicy, bind_eq_ok, revertIf_eq_ok, checkedAdd_eq_ok, pure_eq_ok,
    Unique.exists_iff, Bool.not_eq_false, gt_iff_lt, not_lt, Prod.mk.injEq] at h
  obtain ⟨hallowed, w₂, huse, -, _, ⟨-, rfl⟩, hle, rfl, -⟩ := h
  obtain ⟨hused, policies, rfl⟩ := usePolicy_ok huse
  exact .forwarded hallowed (hused.congr rfl rfl) rfl rfl rfl (hle.trans_eq hcap.symm)

theorem nonReentrant_eq_ok : w.nonReentrant = .ok w' ↔ w.entered = false ∧ { w with entered := true } = w' := by
  simp only [P42AgentWallet.nonReentrant, bind_eq_ok, revertIf_eq_ok, pure_eq_ok, Unique.exists_iff,
    Bool.not_eq_true]

/-- A call that makes no call of its own. -/
theorem frameless_change {x : Outcome P42AgentWallet} {frame : Option Frame} {mark : Option Mark}
    (h : ((·, none) <$> x : Outcome (P42AgentWallet × Option Frame)) = .ok (w', frame))
    (hchange : ∀ w₁, x = .ok w₁ → Change c w w₁ mark) : Change c w w' mark := by
  simp only [map_eq_ok, Prod.mk.injEq] at h
  obtain ⟨w₁, hok, rfl, -⟩ := h
  exact hchange w₁ hok

/-- One case for each function of the contract. -/
theorem run_change {f : WalletCall} {frame : Option Frame} (h : f.run c e w = .ok (w', frame)) :
    Change c w w' (f.mark w) := by
  cases f with
  | receive =>
      simp only [WalletCall.run, pure_eq_ok, Prod.mk.injEq] at h
      obtain ⟨rfl, -⟩ := h
      exact .quiet ⟨rfl, rfl, rfl⟩ rfl
  | setSessionKey session =>
      refine frameless_change h (fun w₁ hok => ?_)
      simp only [P42AgentWallet.setSessionKey, bind_eq_ok] at hok
      obtain ⟨-, -, _, -, hreset⟩ := hok
      exact resetSession_change hreset
  | setForcedInclusionOwner account =>
      refine frameless_change h (fun w₁ hok => ?_)
      simp only [P42AgentWallet.setForcedInclusionOwner, bind_eq_ok, pure_eq_ok] at hok
      obtain ⟨-, -, -, -, -, -, rfl⟩ := hok
      exact .quiet ⟨rfl, rfl, rfl⟩ rfl
  | setSessionPolicy session chainId expiresAt =>
      refine frameless_change h (fun w₁ hok => ?_)
      simp only [P42AgentWallet.setSessionPolicy, bind_eq_ok] at hok
      obtain ⟨-, -, hreset⟩ := hok
      exact resetSession_change hreset
  | revoke =>
      refine frameless_change h (fun w₁ hok => ?_)
      simp only [P42AgentWallet.revoke, bind_eq_ok, pure_eq_ok] at hok
      obtain ⟨-, -, rfl⟩ := hok
      exact .quiet ⟨rfl, rfl, rfl⟩ rfl
  | setCaps perCall total =>
      refine frameless_change h (fun w₁ hok => ?_)
      simp only [P42AgentWallet.setCaps, bind_eq_ok, pure_eq_ok] at hok
      obtain ⟨-, -, rfl⟩ := hok
      exact .quiet ⟨rfl, rfl, rfl⟩ rfl
  | setAllowed target selector ok => exact frameless_change h (fun _ => setAllowed_change)
  | setCallPolicy a =>
      refine frameless_change h (fun w₁ hok => ?_)
      simp only [P42AgentWallet.setCallPolicy, bind_eq_ok] at hok
      obtain ⟨-, -, hwrite⟩ := hok
      exact writePolicy_change hwrite
  | setForcedCallPolicy a =>
      refine frameless_change h (fun w₁ hok => ?_)
      simp only [P42AgentWallet.setForcedCallPolicy, bind_eq_ok] at hok
      obtain ⟨-, -, hwrite⟩ := hok
      exact writePolicy_change hwrite
  | withdraw to_ amount =>
      simp only [WalletCall.run, map_eq_ok, Prod.mk.injEq, P42AgentWallet.beginWithdraw, bind_eq_ok,
        nonReentrant_eq_ok, pure_eq_ok] at h
      obtain ⟨r, ⟨-, -, _, ⟨-, rfl⟩, -, -, rfl⟩, rfl, -⟩ := h
      exact .quiet ⟨rfl, rfl, rfl⟩ rfl
  | execute target value data =>
      simp only [WalletCall.run, map_eq_ok, Prod.mk.injEq, P42AgentWallet.beginExecute, bind_eq_ok,
        nonReentrant_eq_ok] at h
      obtain ⟨r, ⟨_, ⟨-, rfl⟩, -, -, -, -, -, -, -, -, hbegin⟩, rfl, -⟩ := h
      exact beginPolicy_change (f := ⟨target, value, data, false, w.totalSpendCapWei⟩) rfl hbegin
  | executeForcedPolicy target value data =>
      simp only [WalletCall.run, map_eq_ok, Prod.mk.injEq, P42AgentWallet.beginExecuteForcedPolicy,
        bind_eq_ok, nonReentrant_eq_ok] at h
      obtain ⟨r, ⟨-, -, _, ⟨-, rfl⟩, -, -, hbegin⟩, rfl, -⟩ := h
      exact beginPolicy_change (f := ⟨target, value, data, true, w.totalSpendCapWei⟩) rfl hbegin

/-! ### The accounts and the history -/

theorem Agrees.of_configured {uses : ℕ} {policy : CallPolicy} {write : Option Write}
    (h : Agrees uses ok policy write) (hconfigured : policy.configured = true) :
    write = some (.policy policy.maxCalls policy.calldataHash) ∧ ok = true ∧ policy.calls = uses := by
  match write, h with
  | some (.policy _ _), ⟨hok, _, rfl, rfl, hcalls, _⟩ => exact ⟨rfl, hok, hcalls⟩
  | some (.allowed _), ⟨_, hnot⟩ => exact absurd hconfigured (by rw [hnot]; exact Bool.false_ne_true)
  | some .removed, ⟨_, hnot⟩ => exact absurd hconfigured (by rw [hnot]; exact Bool.false_ne_true)
  | none, ⟨_, hnot⟩ => exact absurd hconfigured (by rw [hnot]; exact Bool.false_ne_true)

theorem Agrees.of_bare {uses : ℕ} {policy : CallPolicy} {write : Option Write}
    (h : Agrees uses true policy write) (hbare : policy.configured = false) :
    write = some (.allowed true) := by
  match write, h with
  | some (.policy _ _), ⟨_, hconfigured, _⟩ =>
      exact absurd hconfigured (by rw [hbare]; exact Bool.false_ne_true)
  | some (.allowed _), ⟨rfl, _⟩ => rfl
  | some .removed, ⟨hnot, _⟩ => cases hnot
  | none, ⟨hnot, _⟩ => cases hnot

/-- The calldata of a forwarded call without a configured policy. -/
theorem bare_of_not_needsExactPolicy {data : Bytes} {forced : Bool}
    (h : ¬ P42AgentWallet.needsExactPolicy data forced) :
    forced = false ∧ (data = [] ∨ (data.length = 4 ∧ selectorOf data ≠ 0)) := by
  unfold P42AgentWallet.needsExactPolicy at h
  rw [not_or, Bool.not_eq_true] at h
  refine ⟨h.1, ?_⟩
  by_cases hselector : selectorOf data = 0
  · rw [if_pos hselector, not_not] at h
    exact .inl (List.length_eq_zero_iff.mp h.2)
  · rw [if_neg hselector, not_not] at h
    exact .inr ⟨h.2, hselector⟩

/-- The counters of the contract are functions of the history. -/
structure Accounted (c : Crypto) (w : P42AgentWallet) (h : List Mark) : Prop where
  spent : sentSinceReset h = w.spentWei
  capped : ∀ f rest, .forwarded f :: rest <:+ h → sentSinceReset (.forwarded f :: rest) ≤ f.cap
  covered : ∀ f rest, .forwarded f :: rest <:+ h → Covered c f (lastWrite f.key rest)
  policies : ∀ key, Agrees (usesSinceWrite key h) (w.allowed key) (w.callPolicies key) (lastWrite key h)
  count : w.allowlistedPolicyCount = (allowlist w.allowed).ncard

variable {h : List Mark}

theorem Accounted.congr (ha : Accounted c w h) (hw : SamePolicies w w') (hspent : w'.spentWei = w.spentWei) :
    Accounted c w' h where
  spent := ha.spent.trans hspent.symm
  capped := ha.capped
  covered := ha.covered
  policies key := by
    rw [hw.allowed, hw.callPolicies]
    exact ha.policies key
  count := by
    rw [hw.allowed, hw.count]
    exact ha.count

theorem Accounted.reset (ha : Accounted c w h) (hw : SamePolicies w w') (hspent : w'.spentWei = 0) :
    Accounted c w' (.reset :: h) where
  spent := hspent.symm
  capped f rest hsuffix := by
    obtain heq | hsuffix := List.suffix_cons_iff.mp hsuffix
    · cases heq
    · exact ha.capped f rest hsuffix
  covered f rest hsuffix := by
    obtain heq | hsuffix := List.suffix_cons_iff.mp hsuffix
    · cases heq
    · exact ha.covered f rest hsuffix
  policies key := by
    rw [hw.allowed, hw.callPolicies]
    exact ha.policies key
  count := by
    rw [hw.allowed, hw.count]
    exact ha.count

theorem Accounted.written {write : Write} {policy : CallPolicy} (ha : Accounted c w h)
    (hagrees : Agrees 0 ok policy (some write)) (hallowed : w'.allowed = update w.allowed key ok)
    (hpolicies : w'.callPolicies = update w.callPolicies key policy) (hcounted : Counted w w')
    (hspent : w'.spentWei = w.spentWei) : Accounted c w' (.written key write :: h) where
  spent := ha.spent.trans hspent.symm
  capped f rest hsuffix := by
    obtain heq | hsuffix := List.suffix_cons_iff.mp hsuffix
    · cases heq
    · exact ha.capped f rest hsuffix
  covered f rest hsuffix := by
    obtain heq | hsuffix := List.suffix_cons_iff.mp hsuffix
    · cases heq
    · exact ha.covered f rest hsuffix
  policies key' := by
    rw [hallowed, hpolicies]
    by_cases hkey : key = key'
    · subst hkey
      rw [update_self, update_self, usesSinceWrite, lastWrite, if_pos rfl, if_pos rfl]
      exact hagrees
    · rw [update_of_ne (Ne.symm hkey), update_of_ne (Ne.symm hkey), usesSinceWrite, lastWrite,
        if_neg hkey, if_neg hkey]
      exact ha.policies key'
  count := hcounted ha.count

/-- A forwarded call is covered by the last write, and leaves its policy in agreement. -/
theorem Used.agrees {f : Forward} {uses : ℕ} {write : Option Write} (hused : Used c f w w')
    (hagrees : Agrees uses true (w.callPolicies f.key) write) :
    Covered c f write ∧ Agrees (uses + 1) true (w'.callPolicies f.key) write := by
  cases hused with
  | exact hconfigured hcalls hhash hpolicies =>
      obtain ⟨rfl, -, rfl⟩ := hagrees.of_configured hconfigured
      rw [hpolicies, update_self]
      exact ⟨hhash, rfl, hconfigured, rfl, rfl, rfl, hcalls⟩
  | bare hbare hexact hpolicies =>
      obtain rfl := hagrees.of_bare hbare
      rw [hpolicies]
      exact ⟨bare_of_not_needsExactPolicy hexact, rfl, hbare⟩

theorem Used.other {f : Forward} (hused : Used c f w w') (hkey : f.key ≠ key) :
    w'.callPolicies key = w.callPolicies key := by
  cases hused with
  | exact _ _ _ hpolicies => rw [hpolicies, update_of_ne (Ne.symm hkey)]
  | bare _ _ hpolicies => rw [hpolicies]

theorem Accounted.forwarded {f : Forward} (ha : Accounted c w h) (hallowed : w.allowed f.key = true)
    (hused : Used c f w w') (hsame : w'.allowed = w.allowed)
    (hcount : w'.allowlistedPolicyCount = w.allowlistedPolicyCount)
    (hspent : w'.spentWei = w.spentWei + f.value) (hcap : w'.spentWei ≤ f.cap) :
    Accounted c w' (.forwarded f :: h) := by
  have hagrees := ha.policies f.key
  rw [hallowed] at hagrees
  obtain ⟨hcovered, hagrees'⟩ := hused.agrees hagrees
  have hsent : sentSinceReset (.forwarded f :: h) = w'.spentWei := by
    rw [sentSinceReset, ha.spent, hspent]
  refine ⟨hsent, ?_, ?_, ?_, ?_⟩
  · intro g rest hsuffix
    obtain heq | hsuffix := List.suffix_cons_iff.mp hsuffix
    · obtain ⟨hmark, rfl⟩ := List.cons.inj heq
      obtain rfl := Mark.forwarded.inj hmark
      rw [hsent]
      exact hcap
    · exact ha.capped g rest hsuffix
  · intro g rest hsuffix
    obtain heq | hsuffix := List.suffix_cons_iff.mp hsuffix
    · obtain ⟨hmark, rfl⟩ := List.cons.inj heq
      obtain rfl := Mark.forwarded.inj hmark
      exact hcovered
    · exact ha.covered g rest hsuffix
  · intro key
    rw [hsame, usesSinceWrite, lastWrite]
    · by_cases hkey : f.key = key
      · subst hkey
        rw [if_pos rfl, hallowed]
        exact hagrees'
      · rw [if_neg hkey, hused.other hkey]
        exact ha.policies key
    · exact nofun
  · rw [hsame, hcount]
    exact ha.count

theorem Accounted.change {mark : Option Mark} (ha : Accounted c w h) (hchange : Change c w w' mark) :
    Accounted c w' (mark.toList ++ h) := by
  cases hchange with
  | quiet hw hspent => exact ha.congr hw hspent
  | reset hw hspent => exact ha.reset hw hspent
  | written ok policy hagrees hallowed hpolicies hcounted hspent =>
      exact ha.written hagrees hallowed hpolicies hcounted hspent
  | forwarded hallowed hused hsame hcount hspent hcap =>
      exact ha.forwarded hallowed hused hsame hcount hspent hcap

end

/-! ### Runs -/

section

variable {c : Crypto} {w w' : World} {a : Action} {h : List Mark}

theorem Accounted.step (ha : Accounted c w.wallet h) (hstep : (wallet c).step w a = some w') :
    Accounted c w'.wallet (recordMark w a w' h) := by
  cases a with
  | advance block chainid =>
      simp only [wallet, World.step, World.advance, Option.ite_none_right_eq_some,
        Option.some.injEq] at hstep
      obtain ⟨-, rfl⟩ := hstep
      exact ha
  | call sender value f =>
      simp only [wallet, World.step, World.call, Option.ite_none_right_eq_some] at hstep
      obtain ⟨-, hrun⟩ := hstep
      split at hrun
      · next w₁ frame hok =>
          obtain rfl := Option.some.inj hrun
          exact ha.change (run_change hok)
      · cases hrun
  | finish =>
      simp only [wallet, World.step, World.finish] at hstep
      split at hstep
      · next frame frames hframes =>
          obtain rfl := Option.some.inj hstep
          refine ha.congr ?_ ?_
          · cases frame with
            | execution target value data forced =>
                cases forced
                · exact ⟨rfl, rfl, rfl⟩
                · exact ⟨rfl, rfl, rfl⟩
            | withdrawal to_ amount => exact ⟨rfl, rfl, rfl⟩
          · cases frame with
            | execution target value data forced =>
                cases forced
                · rfl
                · rfl
            | withdrawal to_ amount => rfl
      · cases hstep

/-- The wallet with the marks of its run. -/
def markedWallet (c : Crypto) : System (World × List Mark) Action :=
  (wallet c).withHistory [] recordMark

theorem construct_accounted {e : Env} {owner sessionKey : Address} {perCall total : ℕ}
    {w : P42AgentWallet} (hok : P42AgentWallet.construct e owner sessionKey perCall total = .ok w) :
    Accounted c w [] := by
  simp only [P42AgentWallet.construct, bind_eq_ok, pure_eq_ok] at hok
  obtain ⟨-, -, -, -, expiresAt, -, rfl⟩ := hok
  have hempty : allowlist (fun _ => false) = ∅ := by
    ext key
    exact iff_of_false Bool.false_ne_true (Set.notMem_empty key)
  have hbare : Accounted c
      { owner := owner
        sessionKey := sessionKey
        sessionChainId := e.chainid
        sessionExpiresAt := expiresAt
        perCallValueCapWei := perCall
        totalSpendCapWei := total } [] := by
    refine ⟨rfl, ?_, ?_, fun key => ⟨rfl, rfl⟩, ?_⟩
    · intro f rest hsuffix
      cases List.suffix_nil.mp hsuffix
    · intro f rest hsuffix
      cases List.suffix_nil.mp hsuffix
    · show 0 = (allowlist fun _ => false).ncard
      rw [hempty, Set.ncard_empty]
  split
  · exact hbare.congr ⟨rfl, rfl, rfl⟩ rfl
  · exact hbare.congr ⟨rfl, rfl, rfl⟩ rfl

theorem accounted_of_reachable {p : World × List Mark} (hp : (markedWallet c).Reachable Free p) :
    Accounted c p.1.wallet p.2 := by
  refine hp.invariant (P := fun p => Accounted c p.1.wallet p.2) ?_ ?_
  · rintro ⟨w, h⟩ ⟨⟨e, owner, sessionKey, perCall, total, hok, -⟩, rfl⟩
    exact construct_accounted hok
  · intro p a p' _ ha _ hstep
    obtain ⟨hworld, hmarks⟩ := System.withHistory_step.mp hstep
    rw [hmarks]
    exact ha.step hworld

/-- The spending policy, for every run with calls of the wallet from any account at any point: the ETH
sent since the last reset is `spentWei` and was within the cap at every forwarded call, a call policy is
used at most as often as its last write allows, every forwarded calldata is covered by the last write, and
the counter is the number of allowed pairs. -/
theorem spendingLaws {p : World × List Mark} (hp : (markedWallet c).Reachable Free p) :
    sentSinceReset p.2 = p.1.wallet.spentWei ∧
    (∀ f rest, .forwarded f :: rest <:+ p.2 → sentSinceReset (.forwarded f :: rest) ≤ f.cap) ∧
    (∀ key maxCalls calldataHash, lastWrite key p.2 = some (.policy maxCalls calldataHash) →
      usesSinceWrite key p.2 ≤ maxCalls) ∧
    (∀ f rest, .forwarded f :: rest <:+ p.2 → Covered c f (lastWrite f.key rest)) ∧
    p.1.wallet.allowlistedPolicyCount = {key | p.1.wallet.allowed key = true}.ncard := by
  have ha := accounted_of_reachable hp
  refine ⟨ha.spent, ha.capped, ?_, ha.covered, ha.count⟩
  intro key maxCalls calldataHash hwrite
  have hagrees := ha.policies key
  rw [hwrite] at hagrees
  obtain ⟨-, -, -, -, -, hle⟩ := hagrees
  exact hle

end

/-! ### A run -/

namespace Sample

def crypto : Crypto where
  keccak256 bs := BitVec.ofNat 256 (bs.foldl (fun acc b => (acc * 257 + b.toNat) % 2 ^ 256) 7)
  sha256 bs := BitVec.ofNat 256 (bs.foldl (fun acc b => (acc * 263 + b.toNat) % 2 ^ 256) 11)
  ecrecover _ _ _ _ := 0
  chainid := 8453

def block : Block := ⟨1700000000, 1, by decide⟩

def deployment : Env := ⟨10, 0, block, 8453⟩

/-- A wallet of owner 10 and session key 20, with caps of 5 and 8 wei. -/
def deployed : World where
  wallet := (P42AgentWallet.construct deployment 10 20 5 8).toOption.getD
    ⟨0, 0, 0, 0, 0, false, 0, 0, 0, 0, 0, false, fun _ => false, fun _ => {}, []⟩
  frames := []
  block := block
  chainid := 8453

theorem deployed_init : (markedWallet crypto).init (deployed, []) := by
  have hsome : (P42AgentWallet.construct deployment 10 20 5 8).toOption.isSome = true := by
    decide +kernel
  refine ⟨⟨deployment, 10, 20, 5, 8, ?_, rfl⟩, rfl⟩
  unfold deployed
  revert hsome
  cases P42AgentWallet.construct deployment 10 20 5 8 with
  | error => exact nofun
  | ok w => exact fun _ => rfl

/-- Calldata with a selector and one byte. -/
def calldata : Bytes := [1, 2, 3, 4, 5]

def policy : PolicyArguments := ⟨99, 0x01020304, true, 8453, 1700003600, 2, crypto.keccak256 calldata, 1⟩

/-- Target 99 calls the owner during the second execution, who resets the session. -/
def actions : List Action :=
  [.call 10 0 (.setForcedInclusionOwner 30),
   .call 10 0 (.setCallPolicy policy),
   .call 10 0 (.setAllowed 98 0 true),
   .call 20 0 (.execute 98 3 []),
   .finish,
   .call 30 5 (.executeForcedPolicy 99 5 calldata),
   .call 10 0 (.setSessionKey 21),
   .finish,
   .call 21 0 (.execute 99 4 calldata)]

end Sample

/-- The reset happens within a forwarded call: the call of after it starts a new budget, and the policy
is used up. -/
theorem spendingLaws_reentered : ∃ p, (markedWallet Sample.crypto).Reachable Free p ∧
    p.1.wallet.spentWei = 4 ∧ p.2.length = 6 ∧ sentSinceReset p.2 = p.1.wallet.spentWei ∧
    usesSinceWrite Sample.policy.key p.2 ≤ 2 ∧
    p.1.wallet.allowlistedPolicyCount = {key | p.1.wallet.allowed key = true}.ncard := by
  have hexec : ((markedWallet Sample.crypto).exec (Sample.deployed, []) Sample.actions).map
      (fun p => (p.1.wallet.spentWei, p.2.length, lastWrite Sample.policy.key p.2)) =
        some (4, 6, some (.policy 2 (Sample.crypto.keccak256 Sample.calldata))) := by
    decide +kernel
  obtain ⟨p, hp, hfacts⟩ := Option.map_eq_some_iff.mp hexec
  simp only [Prod.mk.injEq] at hfacts
  obtain ⟨hspent, hlength, hwrite⟩ := hfacts
  have hreach : (markedWallet Sample.crypto).Reachable Free p := .of_exec Sample.deployed_init hp
  obtain ⟨hsent, -, huses, -, hcount⟩ := spendingLaws hreach
  exact ⟨p, hreach, hspent, hlength, hsent, huses _ _ _ hwrite, hcount⟩

end P42Prizes.Wallet
