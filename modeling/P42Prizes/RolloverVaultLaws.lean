import P42Prizes.Escrow
import P42Prizes.RolloverVault

/-! # The quotas of the rollover vault

`Quotas` is what the accounts of the vault say about each other, and it holds throughout: now, and in every
state that the failure of an open call would bring back.  The run of a pool in the middle of a funding needs
no argument of its own, because the quotas are settled before the call.

* `Lowered`: what a funding does, before the pool runs.
* `payments_run`: any list of pools can be paid their quotas in full, one after the other.
* `rolloverVault_quotas`: the laws, in every reachable state. -/

namespace P42Prizes.Rollover

open Reverting Function Transition Finset

/-- The accounts of the vault. -/
structure Quotas (s : Holding) : Prop where
  total : s.vault.totalAllocated = ∑ pool, s.vault.allocationOf pool
  covered : s.vault.totalAllocated ≤ s.balance
  bound : ∀ pool, s.vault.allocationCodehashOf pool ≠ 0 ↔ s.vault.allocationOf pool ≠ 0

/-- A part of the quota of a pool leaves the vault, and nothing else changes. -/
structure Lowered (pool : Address) (amount : ℕ) (s s' : Holding) : Prop where
  quota : s'.vault.allocationOf pool + amount = s.vault.allocationOf pool
  total : s'.vault.totalAllocated + amount = s.vault.totalAllocated
  balance : s'.balance + amount = s.balance
  others : ∀ other, other ≠ pool → s'.vault.allocationOf other = s.vault.allocationOf other ∧
    s'.vault.allocationCodehashOf other = s.vault.allocationCodehashOf other

/-- The same accounts, up to the events. -/
structure SameAccounts (s s' : Holding) : Prop where
  total : s'.vault.totalAllocated = s.vault.totalAllocated
  quotas : s'.vault.allocationOf = s.vault.allocationOf
  codehashes : s'.vault.allocationCodehashOf = s.vault.allocationCodehashOf
  balance : s'.balance = s.balance

/-- The hash of the code of an account is not zero, which is what an account without code shows. -/
def Hashed (_ : World) : Action → Prop
  | .call _ _ accounts _ => ∀ a, (accounts a).codeLength ≠ 0 → (accounts a).codehash ≠ 0
  | _ => True

/-- The storage after a part of a quota is spent. -/
def P42RolloverVault.spend (pool : Address) (amount : ℕ) (v : P42RolloverVault) : P42RolloverVault :=
  { v with
    allocationOf := update v.allocationOf pool (v.allocationOf pool - amount)
    allocationCodehashOf :=
      if v.allocationOf pool - amount = 0 then update v.allocationCodehashOf pool 0
      else v.allocationCodehashOf
    totalAllocated := v.totalAllocated - amount }

section

variable {e : Env} {v v' : P42RolloverVault} {s s' : Holding} {pool : Address} {amount : ℕ}

/-! ### What each function does -/

theorem view_eq_ok {α : Type} {answer : Option α} {a : α} : view answer = .ok a ↔ answer = some a := by
  cases answer with
  | none => exact iff_of_false (fun h => by cases h) (fun h => by cases h)
  | some b => exact ⟨fun h => by cases h; rfl, fun h => by cases h; rfl⟩

/-- A registered pool is an account with the expected code, and not the vault. -/
theorem registeredPool_ok {expectedCodehash : Bytes32} (h : v.registeredPool e pool expectedCodehash = .ok ()) :
    pool ≠ e.self ∧ (e.accounts pool).codeLength ≠ 0 ∧ (e.accounts pool).codehash = expectedCodehash := by
  simp only [P42RolloverVault.registeredPool, bind_eq_ok, revertIf_eq_ok, view_eq_ok, exists_const,
    not_or, not_not] at h
  obtain ⟨⟨hcode, hhash⟩, problemId, hproblem, -⟩ := h
  have hother : pool ≠ e.self := by
    rintro rfl
    unfold P42RolloverVault.account at hproblem
    rw [if_pos rfl] at hproblem
    cases hproblem
  unfold P42RolloverVault.account at hcode hhash
  rw [if_neg hother] at hcode hhash
  exact ⟨hother, hcode, hhash⟩

/-- The check of a pool reads the immutable parts of the vault and the other accounts. -/
theorem registeredPool_congr {e' : Env} (hself : e'.self = e.self) (haccounts : e'.accounts = e.accounts)
    (hregistry : v'.registry = v.registry) (hallocator : v'.allocator = v.allocator)
    {expectedCodehash : Bytes32} :
    v'.registeredPool e' pool expectedCodehash = v.registeredPool e pool expectedCodehash := by
  have haccount : v'.account e' = v.account e := by
    funext a
    unfold P42RolloverVault.account
    rw [hself, haccounts, hregistry]
  unfold P42RolloverVault.registeredPool
  rw [haccount, hregistry, hallocator]

theorem beginFund_eq_ok : v.beginFund e pool amount = .ok v' ↔
    e.sender = v.allocator ∧ (amount ≠ 0 ∧ amount ≤ v.allocationOf pool ∧ amount ≤ e.balance) ∧
      v.registeredPool e pool (v.allocationCodehashOf pool) = .ok () ∧ amount ≤ v.totalAllocated ∧
      v.spend pool amount = v' := by
  simp only [P42RolloverVault.beginFund, P42RolloverVault.onlyAllocator, bind_eq_ok, revertIf_eq_ok,
    checkedSub_eq_ok, Unique.exists_iff, PUnit.default_eq_unit, not_or, not_lt, not_not, gt_iff_lt]
  constructor
  · rintro ⟨hsender, hamount, hpool, _, ⟨-, rfl⟩, _, ⟨htotal, rfl⟩, h⟩
    refine ⟨hsender, hamount, hpool, htotal, ?_⟩
    unfold P42RolloverVault.spend
    split at h <;> rename_i hzero
    · rw [if_pos hzero]
      exact pure_eq_ok.mp h
    · rw [if_neg hzero]
      exact pure_eq_ok.mp h
  · rintro ⟨hsender, hamount, hpool, htotal, rfl⟩
    refine ⟨hsender, hamount, hpool, _, ⟨hamount.2.1, rfl⟩, _, ⟨htotal, rfl⟩, ?_⟩
    unfold P42RolloverVault.spend
    split
    · rfl
    · rfl

theorem setPoolAllocation_ok {expectedCodehash : Bytes32}
    (h : v.setPoolAllocation e pool expectedCodehash amount = .ok v') :
    (amount ≠ 0 → v.registeredPool e pool expectedCodehash = .ok ()) ∧
      v.allocationOf pool ≤ v.totalAllocated ∧
      v.totalAllocated - v.allocationOf pool + amount ≤ e.balance ∧
      v'.totalAllocated = v.totalAllocated - v.allocationOf pool + amount ∧
      v'.allocationOf = update v.allocationOf pool amount ∧
      v'.allocationCodehashOf =
        update v.allocationCodehashOf pool (if amount = 0 then 0 else expectedCodehash) := by
  simp only [P42RolloverVault.setPoolAllocation, P42RolloverVault.onlyAllocator, bind_eq_ok, revertIf_eq_ok,
    checkedSub_eq_ok, checkedAdd_eq_ok, pure_eq_ok, Unique.exists_iff, PUnit.default_eq_unit, not_lt,
    gt_iff_lt] at h
  obtain ⟨-, hpool, _, ⟨hle, rfl⟩, _, ⟨-, rfl⟩, hbalance, rfl⟩ := h
  refine ⟨fun hne => ?_, hle, hbalance, rfl, rfl, rfl⟩
  rwa [if_pos hne] at hpool

/-! ### The accounts -/

theorem Quotas.allocationOf_le (h : Quotas s) (pool : Address) : s.vault.allocationOf pool ≤ s.vault.totalAllocated := by
  rw [h.total]
  exact single_le_sum (fun _ _ => Nat.zero_le _) (mem_univ pool)

theorem Quotas.congr (h : Quotas s) (hs : SameAccounts s s') : Quotas s' where
  total := by rw [hs.total, hs.quotas, h.total]
  covered := by rw [hs.total, hs.balance]; exact h.covered
  bound := by rw [hs.quotas, hs.codehashes]; exact h.bound

theorem Quotas.deposit (h : Quotas s) (hvault : SameAccounts s ⟨v, s.balance⟩) (value : ℕ) :
    Quotas ⟨v, s.balance + value⟩ :=
  let hsame := h.congr hvault
  ⟨hsame.total, hsame.covered.trans (Nat.le_add_right _ _), hsame.bound⟩

theorem Quotas.setPoolAllocation (h : Quotas s) {expectedCodehash : Bytes32} (hbalance : e.balance = s.balance)
    (hhashed : ∀ a, (e.accounts a).codeLength ≠ 0 → (e.accounts a).codehash ≠ 0)
    (hset : s.vault.setPoolAllocation e pool expectedCodehash amount = .ok v) : Quotas ⟨v, s.balance⟩ := by
  obtain ⟨hpool, hle, hcovered, htotal, hquotas, hcodehashes⟩ := setPoolAllocation_ok hset
  refine ⟨?_, ?_, fun other => ?_⟩
  · show v.totalAllocated = ∑ p, v.allocationOf p
    have hsum := Finset.sum_comp_update univ id s.vault.allocationOf (mem_univ pool) amount
    simp only [id] at hsum
    rw [← h.total] at hsum
    rw [htotal, hquotas]
    omega
  · show v.totalAllocated ≤ s.balance
    rw [htotal, ← hbalance]
    exact hcovered
  · show v.allocationCodehashOf other ≠ 0 ↔ v.allocationOf other ≠ 0
    rw [hquotas, hcodehashes]
    by_cases hother : other = pool
    · subst hother
      rw [update_self, update_self]
      by_cases hzero : amount = 0
      · rw [if_pos hzero]
        exact iff_of_false (fun hne => hne rfl) (fun hne => hne hzero)
      · obtain ⟨-, hcode, hhash⟩ := registeredPool_ok (hpool hzero)
        rw [if_neg hzero, ← hhash]
        exact iff_of_true (hhashed _ hcode) hzero
    · rw [update_of_ne hother, update_of_ne hother]
      exact h.bound other

theorem lowered_spend (hquota : amount ≤ s.vault.allocationOf pool) (htotal : amount ≤ s.vault.totalAllocated)
    (hbalance : amount ≤ s.balance) : Lowered pool amount s ⟨s.vault.spend pool amount, s.balance - amount⟩ where
  quota := by
    show update s.vault.allocationOf pool _ pool + amount = _
    rw [update_self]
    omega
  total := Nat.sub_add_cancel htotal
  balance := Nat.sub_add_cancel hbalance
  others other hother := by
    refine ⟨update_of_ne hother .., ?_⟩
    show (if _ then _ else _ : Address → Bytes32) other = _
    split
    · exact update_of_ne hother ..
    · rfl

theorem Quotas.lower (h : Quotas s) (hlow : Lowered pool amount s s')
    (hcode : s'.vault.allocationCodehashOf pool ≠ 0 ↔ s'.vault.allocationOf pool ≠ 0) : Quotas s' where
  total := by
    have hrest : ∑ p ∈ univ.erase pool, s'.vault.allocationOf p = ∑ p ∈ univ.erase pool, s.vault.allocationOf p :=
      sum_congr rfl fun p hp => (hlow.others p (ne_of_mem_erase hp)).1
    have hbefore := add_sum_erase univ s.vault.allocationOf (mem_univ pool)
    have hafter := add_sum_erase univ s'.vault.allocationOf (mem_univ pool)
    have htotal := h.total
    have hquota := hlow.quota
    have hlowered := hlow.total
    omega
  covered := by
    have hcovered := h.covered
    have htotal := hlow.total
    have hbalance := hlow.balance
    omega
  bound other := by
    by_cases hother : other = pool
    · rw [hother]
      exact hcode
    · rw [(hlow.others other hother).1, (hlow.others other hother).2]
      exact h.bound other

theorem Quotas.spend (h : Quotas s) (hquota : amount ≤ s.vault.allocationOf pool) (hbalance : amount ≤ s.balance) :
    Quotas ⟨s.vault.spend pool amount, s.balance - amount⟩ := by
  refine h.lower (lowered_spend hquota (hquota.trans (h.allocationOf_le pool)) hbalance) ?_
  show (if _ then _ else _ : Address → Bytes32) pool ≠ 0 ↔ update s.vault.allocationOf pool _ pool ≠ 0
  rw [update_self]
  split <;> rename_i hzero
  · rw [update_self]
    exact iff_of_false (fun hne => hne rfl) (fun hne => hne hzero)
  · refine (h.bound pool).trans (iff_of_true ?_ hzero)
    omega

/-! ### Runs -/

variable {self : Address} {w w' : World} {accounts : Address → Account} {sender : Address} {value : ℕ}

theorem call_quotas {f : VaultCall} (h : w.Throughout Quotas)
    (hhashed : ∀ a, (accounts a).codeLength ≠ 0 → (accounts a).codehash ≠ 0)
    (hcall : World.call self sender value accounts w f = .ok w') : w'.Throughout Quotas := by
  cases f with
  | receive =>
      cases hcall
      have hvault : SameAccounts w.now
          ⟨w.now.vault.receive ⟨self, w.now.balance, sender, value, accounts⟩, w.now.balance⟩ :=
        ⟨rfl, rfl, rfl, rfl⟩
      exact h.set (h.1.deposit hvault value)
  | setPoolAllocation pool expectedCodehash amount =>
      simp only [World.call, bind_eq_ok, pure_eq_ok] at hcall
      obtain ⟨v, hset, rfl⟩ := hcall
      exact h.set (h.1.setPoolAllocation rfl hhashed hset)
  | fundRegisteredPool pool amount =>
      simp only [World.call, bind_eq_ok, pure_eq_ok, beginFund_eq_ok] at hcall
      obtain ⟨v, ⟨-, ⟨-, hquota, hbalance⟩, -, -, rfl⟩, rfl⟩ := hcall
      exact h.enter (h.1.spend hquota hbalance)
  | reclaimZeroCreditSponsorRefund pool =>
      simp only [World.call, bind_eq_ok, pure_eq_ok] at hcall
      obtain ⟨-, -, rfl⟩ := hcall
      exact h.enter h.1

theorem emitReturn_same (frame : Frame) (s : Holding) :
    SameAccounts s { s with vault := s.vault.emitReturn frame } := by
  cases frame with
  | funding sender pool amount => exact ⟨rfl, rfl, rfl, rfl⟩
  | reclaim sender pool => exact ⟨rfl, rfl, rfl, rfl⟩

theorem step_call_eq {f : VaultCall} : (rolloverVault self).step w (.call sender value accounts f) = some w' ↔
    (value = 0 ∨ f = .receive) ∧ World.call self sender value accounts w f = .ok w' := by
  rw [← toOption_eq_some]
  show (if _ then _ else none) = some w' ↔ _
  split <;> rename_i hvalue
  · exact (and_iff_right hvalue).symm
  · exact iff_of_false (fun h => by cases h) (fun h => hvalue h.1)

theorem step_quotas {a : Action} (h : w.Throughout Quotas) (hhashed : Hashed w a)
    (hstep : (rolloverVault self).step w a = some w') : w'.Throughout Quotas := by
  cases a with
  | force amount =>
      cases hstep
      exact h.set (h.1.deposit ⟨rfl, rfl, rfl, rfl⟩ amount)
  | call sender value accounts f => exact call_quotas h hhashed (step_call_eq.mp hstep).2
  | finish => exact h.leave (fun frame s hs => hs.congr (emitReturn_same frame s)) hstep (Nat.zero_le _)
  | fail => exact h.undo hstep (Nat.zero_le _)

theorem construct_quotas {registry allocator : Address} {balance : ℕ}
    (h : P42RolloverVault.construct registry allocator = .ok v) : Quotas ⟨v, balance⟩ := by
  simp only [P42RolloverVault.construct, bind_eq_ok, pure_eq_ok] at h
  obtain ⟨-, -, -, -, rfl⟩ := h
  exact ⟨sum_const_zero.symm, Nat.zero_le _, fun _ => iff_of_false (fun hne => hne rfl) (fun hne => hne rfl)⟩

theorem quotas_of_reachable (h : (rolloverVault self).Reachable Hashed w) : w.Throughout Quotas := by
  refine h.invariant (fun w hinit => ?_) (fun w a w' _ hq hhashed hstep => step_quotas hq hhashed hstep)
  obtain ⟨registry, allocator, hconstruct, hframes⟩ := hinit
  exact Nested.throughout_of_frames hframes (construct_quotas hconstruct)

/-! ### Fundings -/

/-- The step that begins a funding. -/
theorem fund_step
    (hstep : (rolloverVault self).step w (.call sender value accounts (.fundRegisteredPool pool amount)) =
      some w') :
    Lowered pool amount w.now w'.now ∧ w' = w.enter (.funding sender pool amount) w'.now := by
  have hcall := (step_call_eq.mp hstep).2
  simp only [World.call, bind_eq_ok, pure_eq_ok, beginFund_eq_ok] at hcall
  obtain ⟨v, ⟨-, ⟨-, hquota, hbalance⟩, -, htotal, rfl⟩, rfl⟩ := hcall
  exact ⟨lowered_spend hquota htotal hbalance, rfl⟩

/-- The step does not end a call of `base`, and the allocator does not call the vault. -/
def Inside (self : Address) (base : List (Frame × Holding)) (w : World) (a : Action) : Prop :=
  (∀ w', (rolloverVault self).step w a = some w' → base.length ≤ w'.frames.length) ∧
    match a with
    | .call sender _ _ _ => sender ≠ w.now.vault.allocator
    | _ => True

/-- The same accounts, with more ETH. -/
def Grown (s s' : Holding) : Prop :=
  s'.vault.allocator = s.vault.allocator ∧ ∃ received, SameAccounts ⟨s.vault, s.balance + received⟩ s'

theorem Grown.same {s₁ s₂ : Holding} (h : Grown s s₁) (hallocator : s₂.vault.allocator = s₁.vault.allocator)
    (hs : SameAccounts s₁ s₂) : Grown s s₂ := by
  obtain ⟨hall, received, hsame⟩ := h
  exact ⟨hallocator.trans hall, received, hs.total.trans hsame.total, hs.quotas.trans hsame.quotas,
    hs.codehashes.trans hsame.codehashes, hs.balance.trans hsame.balance⟩

theorem Grown.deposit {s₁ s₂ : Holding} (h : Grown s s₁) (hallocator : s₂.vault.allocator = s₁.vault.allocator)
    {amount : ℕ} (hs : SameAccounts ⟨s₁.vault, s₁.balance + amount⟩ s₂) : Grown s s₂ := by
  obtain ⟨hall, received, hsame⟩ := h
  refine ⟨hallocator.trans hall, received + amount, hs.total.trans hsame.total, hs.quotas.trans hsame.quotas,
    hs.codehashes.trans hsame.codehashes, hs.balance.trans ?_⟩
  show s₁.balance + amount = s.balance + (received + amount)
  rw [hsame.balance]
  exact Nat.add_assoc ..

/-- What accounts other than the allocator do inside a call. -/
theorem inside_grown {base : List (Frame × Holding)} {a : Action} (h : w.Within base (Grown s))
    (hinside : Inside self base w a) (hstep : (rolloverVault self).step w a = some w') :
    w'.Within base (Grown s) := by
  obtain ⟨hopen, hsender⟩ := hinside
  have hdepth := hopen w' hstep
  cases a with
  | force amount =>
      cases hstep
      exact h.set (h.1.deposit rfl ⟨rfl, rfl, rfl, rfl⟩)
  | call sender value accounts f =>
      have hcall := (step_call_eq.mp hstep).2
      cases f with
      | receive =>
          cases hcall
          exact h.set (h.1.deposit rfl ⟨rfl, rfl, rfl, rfl⟩)
      | setPoolAllocation pool expectedCodehash amount =>
          simp only [World.call, P42RolloverVault.setPoolAllocation, P42RolloverVault.onlyAllocator, bind_eq_ok,
            revertIf_eq_ok, ne_eq, not_not] at hcall
          obtain ⟨_, ⟨_, hallocator, _⟩, _⟩ := hcall
          exact absurd hallocator hsender
      | fundRegisteredPool pool amount =>
          simp only [World.call, bind_eq_ok, beginFund_eq_ok] at hcall
          obtain ⟨_, ⟨hallocator, _⟩, _⟩ := hcall
          exact absurd hallocator hsender
      | reclaimZeroCreditSponsorRefund pool =>
          simp only [World.call, bind_eq_ok, pure_eq_ok] at hcall
          obtain ⟨-, -, rfl⟩ := hcall
          exact h.enter h.1
  | finish =>
      refine h.leave (fun frame s hs => hs.same ?_ (emitReturn_same frame s)) hstep hdepth
      cases frame with
      | funding sender pool amount => rfl
      | reclaim sender pool => rfl
  | fail => exact h.undo hstep hdepth

theorem finish_ok (h : (rolloverVault self).step w .finish = some w') :
    SameAccounts w.now w'.now ∧ ∃ frame, w.frames = frame :: w'.frames := by
  have hleave : w.leave (fun frame s => { s with vault := s.vault.emitReturn frame }) = some w' := h
  unfold Nested.leave at hleave
  split at hleave
  · next hframes =>
      cases hleave
      exact ⟨emitReturn_same .., _, hframes⟩
  · cases hleave

/-- A funding from its start to its return, when only other accounts than the allocator call the vault in
between. -/
theorem funding_lowered {w₁ w₂ w₃ : World} {as : List Action} (hlow : Lowered pool amount w.now w₁.now)
    (hrun : (rolloverVault self).Run (Inside self w₁.frames) w₁ as w₂)
    (hfinish : (rolloverVault self).step w₂ .finish = some w₃) :
    ∃ received, Lowered pool amount ⟨w.now.vault, w.now.balance + received⟩ w₃.now := by
  have hstart : w₁.Within w₁.frames (Grown w₁.now) := Nested.Within.start ⟨rfl, 0, rfl, rfl, rfl, rfl⟩
  have hend := hrun.invariant (P := fun w' => w'.Within w₁.frames (Grown w₁.now))
    (fun w' a w'' h hinside hstep => inside_grown h hinside hstep) hstart
  obtain ⟨-, received, hsame⟩ := hend.1
  obtain ⟨hreturn, -⟩ := finish_ok hfinish
  refine ⟨received, ?_, ?_, ?_, fun other hother => ?_⟩
  · rw [hreturn.quotas, hsame.quotas]
    exact hlow.quota
  · rw [hreturn.total, hsame.total]
    exact hlow.total
  · rw [hreturn.balance, hsame.balance]
    show w₁.now.balance + received + amount = w.now.balance + received
    have hbalance := hlow.balance
    omega
  · rw [hreturn.quotas, hsame.quotas, hreturn.codehashes, hsame.codehashes]
    exact hlow.others other hother

/-! ### Payments -/

/-- The allocator pays a list of pools their whole quotas, one after the other. -/
def payments (v : P42RolloverVault) (accounts : Address → Account) (pools : List Address) : List Action :=
  pools.flatMap fun pool =>
    [.call v.allocator 0 accounts (.fundRegisteredPool pool (v.allocationOf pool)), .finish]

/-- A pool with a quota that the checks of `fundRegisteredPool` accept. -/
def Payable (self : Address) (v : P42RolloverVault) (accounts : Address → Account) (pool : Address) : Prop :=
  v.allocationOf pool ≠ 0 ∧
    v.registeredPool ⟨self, 0, v.allocator, 0, accounts⟩ pool (v.allocationCodehashOf pool) = .ok ()

/-- What a payment leaves of the vault for the pools that are still to be paid. -/
structure Remains (pools : List Address) (s s' : Holding) : Prop where
  registry : s'.vault.registry = s.vault.registry
  allocator : s'.vault.allocator = s.vault.allocator
  quotas : ∀ pool ∈ pools, s'.vault.allocationOf pool = s.vault.allocationOf pool
  codehashes : ∀ pool ∈ pools, s'.vault.allocationCodehashOf pool = s.vault.allocationCodehashOf pool

theorem Remains.payments {pools : List Address} (h : Remains pools s s') :
    payments s'.vault accounts pools = payments s.vault accounts pools := by
  unfold Rollover.payments
  rw [h.allocator]
  exact List.flatMap_congr fun pool hmem => by rw [h.quotas pool hmem]

theorem Remains.payable {pools : List Address} (h : Remains pools s s') (hmem : pool ∈ pools)
    (hpay : Payable self s.vault accounts pool) : Payable self s'.vault accounts pool := by
  unfold Payable
  rw [h.quotas pool hmem, h.codehashes pool hmem, h.allocator]
  refine ⟨hpay.1, ?_⟩
  rw [registeredPool_congr rfl rfl h.registry h.allocator]
  exact hpay.2

/-- One payment. -/
theorem payment_run (h : Quotas w.now) (hpay : Payable self w.now.vault accounts pool) :
    ∃ w', (rolloverVault self).Run Free w (payments w.now.vault accounts [pool]) w' ∧
      Lowered pool (w.now.vault.allocationOf pool) w.now w'.now ∧ Quotas w'.now ∧
      w'.now.vault.registry = w.now.vault.registry ∧ w'.now.vault.allocator = w.now.vault.allocator := by
  have hquota := h.allocationOf_le pool
  have hbalance := hquota.trans h.covered
  have hpool : w.now.vault.registeredPool ⟨self, w.now.balance, w.now.vault.allocator, 0, accounts⟩ pool
      (w.now.vault.allocationCodehashOf pool) = .ok () :=
    (registeredPool_congr rfl rfl rfl rfl).trans hpay.2
  let s : Holding := ⟨w.now.vault.spend pool (w.now.vault.allocationOf pool),
    w.now.balance - w.now.vault.allocationOf pool⟩
  let frame : Frame := .funding w.now.vault.allocator pool (w.now.vault.allocationOf pool)
  have hcall : (rolloverVault self).step w
      (.call w.now.vault.allocator 0 accounts (.fundRegisteredPool pool (w.now.vault.allocationOf pool))) =
      some (w.enter frame s) := by
    refine step_call_eq.mpr ⟨.inl rfl, ?_⟩
    simp only [World.call, bind_eq_ok, pure_eq_ok]
    exact ⟨_, beginFund_eq_ok.mpr ⟨rfl, ⟨hpay.1, le_rfl, hbalance⟩, hpool, hquota, rfl⟩, rfl⟩
  have hlow : Lowered pool (w.now.vault.allocationOf pool) w.now s := lowered_spend le_rfl hquota hbalance
  refine ⟨⟨{ s with vault := s.vault.emitReturn frame }, w.frames⟩, .step trivial hcall (.single trivial rfl),
    ⟨hlow.quota, hlow.total, hlow.balance, hlow.others⟩,
    (h.spend le_rfl hbalance).congr (emitReturn_same frame s), rfl, rfl⟩

theorem payments_run {pools : List Address} (h : Quotas w.now) (hnodup : pools.Nodup)
    (hpay : ∀ pool ∈ pools, Payable self w.now.vault accounts pool) :
    ∃ w', (rolloverVault self).Run Free w (payments w.now.vault accounts pools) w' ∧
      (∀ pool ∈ pools, w'.now.vault.allocationOf pool = 0) ∧
      (∀ pool ∉ pools, w'.now.vault.allocationOf pool = w.now.vault.allocationOf pool) ∧
      w'.now.balance + (pools.map w.now.vault.allocationOf).sum = w.now.balance := by
  induction pools generalizing w with
  | nil => exact ⟨w, .refl w, fun _ hmem => absurd hmem List.not_mem_nil, fun _ _ => rfl, rfl⟩
  | cons pool pools ih =>
      obtain ⟨hnotMem, hnodup⟩ := List.nodup_cons.mp hnodup
      obtain ⟨hpool, hpools⟩ := List.forall_mem_cons.mp hpay
      obtain ⟨w₁, hfirst, hlow, hquotas, hregistry, hallocator⟩ := payment_run h hpool
      have hother : ∀ p ∈ pools, p ≠ pool := fun p hp heq => hnotMem (heq ▸ hp)
      have hremains : Remains pools w.now w₁.now :=
        ⟨hregistry, hallocator, fun p hp => (hlow.others p (hother p hp)).1,
          fun p hp => (hlow.others p (hother p hp)).2⟩
      obtain ⟨w', hrun, hzero, hsame, hbalance⟩ :=
        ih hquotas hnodup fun p hp => hremains.payable hp (hpools p hp)
      refine ⟨w', ?_, ?_, fun p hp => ?_, ?_⟩
      · rw [hremains.payments] at hrun
        exact hfirst.append hrun
      · refine List.forall_mem_cons.mpr ⟨?_, hzero⟩
        have hpaid := hlow.quota
        rw [hsame pool hnotMem]
        omega
      · obtain ⟨hne, hrest⟩ := not_or.mp (List.mem_cons.not.mp hp)
        rw [hsame p hrest, (hlow.others p hne).1]
      · have hmap : pools.map w₁.now.vault.allocationOf = pools.map w.now.vault.allocationOf :=
          List.map_congr_left hremains.quotas
        have hpaid := hlow.balance
        rw [hmap] at hbalance
        rw [List.map_cons, List.sum_cons]
        omega

end

/-! ### The laws -/

structure QuotaLaws (self : Address) (w : World) : Prop where
  quotas : Quotas w.now
  /-- Any pools can be paid their quotas in full, in any order. -/
  payable : ∀ (accounts : Address → Account) (pools : List Address), pools.Nodup →
    (∀ pool ∈ pools, Payable self w.now.vault accounts pool) →
    ∃ w', (rolloverVault self).Run Free w (payments w.now.vault accounts pools) w' ∧
      (∀ pool ∈ pools, w'.now.vault.allocationOf pool = 0) ∧
      (∀ pool ∉ pools, w'.now.vault.allocationOf pool = w.now.vault.allocationOf pool) ∧
      w'.now.balance + (pools.map w.now.vault.allocationOf).sum = w.now.balance
  /-- A funding is settled before the pool runs, and its return changes no account. -/
  funded : ∀ (sender : Address) (value : ℕ) (accounts : Address → Account) (pool : Address) (amount : ℕ)
    (w₁ : World), (rolloverVault self).step w (.call sender value accounts (.fundRegisteredPool pool amount)) =
      some w₁ → Lowered pool amount w.now w₁.now ∧
    ∀ (as : List Action) (w₂ w₃ : World), (rolloverVault self).Run Free w₁ as w₂ → w₂.frames = w₁.frames →
      (rolloverVault self).step w₂ .finish = some w₃ → SameAccounts w₂.now w₃.now ∧ w₃.frames = w.frames
  /-- So a whole funding lowers the accounts of its pool, up to ETH that arrives, unless the allocator calls
  the vault again. -/
  lowered : ∀ (sender : Address) (value : ℕ) (accounts : Address → Account) (pool : Address) (amount : ℕ)
    (w₁ : World), (rolloverVault self).step w (.call sender value accounts (.fundRegisteredPool pool amount)) =
      some w₁ → ∀ (as : List Action) (w₂ w₃ : World), (rolloverVault self).Run (Inside self w₁.frames) w₁ as w₂ →
      w₂.frames = w₁.frames → (rolloverVault self).step w₂ .finish = some w₃ →
      ∃ received, Lowered pool amount ⟨w.now.vault, w.now.balance + received⟩ w₃.now
  /-- A funding whose call to the pool fails changes nothing, whatever ran inside it. -/
  failed : ∀ (sender : Address) (value : ℕ) (accounts : Address → Account) (pool : Address) (amount : ℕ)
    (w₁ : World), (rolloverVault self).step w (.call sender value accounts (.fundRegisteredPool pool amount)) =
      some w₁ → ∀ (as : List Action) (w₂ : World), (rolloverVault self).Run Free w₁ as w₂ →
      w₂.frames = w₁.frames → (rolloverVault self).step w₂ .fail = some w

/-- The quotas of the rollover vault in every reachable state, whatever runs inside its calls. -/
theorem rolloverVault_quotas {self : Address} {w : World} (h : (rolloverVault self).Reachable Hashed w) :
    QuotaLaws self w where
  quotas := (quotas_of_reachable h).1
  payable _ _ hnodup hpay := payments_run (quotas_of_reachable h).1 hnodup hpay
  funded sender value accounts pool amount w₁ hfund := by
    obtain ⟨hlow, henter⟩ := fund_step hfund
    refine ⟨hlow, fun as w₂ w₃ _ hframes hfinish => ?_⟩
    obtain ⟨hsame, frame, hframe⟩ := finish_ok hfinish
    rw [henter] at hframes
    exact ⟨hsame, (List.cons.inj (hframe.symm.trans hframes)).2⟩
  lowered sender value accounts pool amount w₁ hfund as w₂ w₃ hrun _ hfinish :=
    funding_lowered (fund_step hfund).1 hrun hfinish
  failed sender value accounts pool amount w₁ hfund as w₂ _ hframes := by
    rw [(fund_step hfund).2] at hframes
    exact Nested.undo_of_frames hframes

/-! ### A run -/

namespace Sample

/-- A registry at 1, an allocator at 2, the vault at 3, and a pool at 10 with its ledger and manager. -/
def accounts : Address → Account := fun a =>
  if a = 1 then { codeLength := 1, codehash := 1, problemPool := fun _ => some 10 }
  else if a = 10 then
    { codeLength := 1, codehash := 1, owner := some 2, registry := some 1, problemId := some 7
      ledger := some 11, submissionManager := some 12 }
  else if a = 11 then
    { codeLength := 1, codehash := 1, owner := some 2, pool := some 10, creditRecorder := some 12 }
  else if a = 12 then { codeLength := 1, codehash := 1, owner := some 2, pool := some 10, ledger := some 11 }
  else {}

def vault : World := ⟨⟨{ registry := 1, allocator := 2 }, 0⟩, []⟩

/-- A funding during which the pool sends a part back and asks for a refund, and one that fails. -/
def actions : List Action :=
  [.call 9 100 accounts .receive,
    .call 2 0 accounts (.setPoolAllocation 10 1 60),
    .call 2 0 accounts (.fundRegisteredPool 10 20),
    .call 10 5 accounts .receive,
    .call 10 0 accounts (.reclaimZeroCreditSponsorRefund 10),
    .force 1,
    .fail,
    .finish,
    .call 2 0 accounts (.fundRegisteredPool 10 40),
    .call 10 3 accounts .receive,
    .fail]

end Sample

theorem rolloverVault_quotas_sample : ∃ w, (rolloverVault 3).exec Sample.vault Sample.actions = some w ∧
    w.now.balance = 85 ∧ w.now.vault.allocationOf 10 = 40 ∧ QuotaLaws 3 w := by
  have hexec : ((rolloverVault 3).exec Sample.vault Sample.actions).map
      (fun w => (w.now.balance, w.now.vault.allocationOf 10)) = some (85, 40) := by decide +kernel
  obtain ⟨w, hw, hvalues⟩ := Option.map_eq_some_iff.mp hexec
  obtain ⟨hbalance, hquota⟩ := Prod.mk.inj hvalues
  have hhashed : ∀ a, (Sample.accounts a).codeLength ≠ 0 → (Sample.accounts a).codehash ≠ 0 := by
    intro a
    unfold Sample.accounts
    split_ifs <;> simp
  have hrun : (rolloverVault 3).Run Hashed Sample.vault Sample.actions w := by
    refine System.run_of_exec_of hw fun s a ha => ?_
    unfold Sample.actions at ha
    fin_cases ha <;> first | exact hhashed | trivial
  have hinit : (rolloverVault 3).init Sample.vault := ⟨1, 2, rfl, rfl⟩
  exact ⟨w, hw, hbalance, hquota, rolloverVault_quotas ⟨_, _, hinit, hrun⟩⟩

end P42Prizes.Rollover
