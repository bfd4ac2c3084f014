import P42Prizes.WalletNonce

/-! # What the nonce journal keeps

Every write passes the validation of the module that writes, so what a valid journal is need not be
carried through the operations; what has to be shown of each is that it goes on from the journal it has
read (`Follows`): no allocation is lost, changes its action, its nonce or its transaction, or comes back
once it is fenced. -/

namespace P42Prizes.WalletNonce

open Reverting Transition

/-! ### Changing what was found -/

section ModifyFirst

variable {α : Type} {p q : α → Bool} {f : α → α} {l : List α}

/-- With one candidate at most it does not matter which one is the first. -/
theorem modifyFirst_eq_map {κ : Type} {key : α → κ} {n : κ} (hn : (l.map key).Nodup)
    (hp : ∀ a ∈ l, p a = true → key a = n) :
    modifyFirst p f l = l.map (fun a => if p a = true then f a else a) := by
  induction l with
  | nil => rfl
  | cons a l ih =>
      obtain ⟨hnew, hrest⟩ := List.nodup_cons.mp hn
      rw [modifyFirst, List.map_cons]
      by_cases ha : p a = true
      · rw [if_pos ha, if_pos ha]
        have hothers : ∀ x ∈ l, ¬ p x = true := by
          intro x hx hpx
          have hkey : key x = key a :=
            (hp x (List.mem_cons_of_mem _ hx) hpx).trans (hp a (List.mem_cons_self ..) ha).symm
          exact hnew (hkey ▸ List.mem_map.mpr ⟨x, hx, rfl⟩)
        congr 1
        exact ((List.map_congr_left (fun x hx => if_neg (hothers x hx))).trans (List.map_id l)).symm
      · rw [if_neg ha, if_neg ha, ih hrest (fun x hx => hp x (List.mem_cons_of_mem _ hx))]

/-- What was changed is found again. -/
theorem find?_modifyFirst_self {a : α} (hfind : l.find? p = some a) (hp : p (f a) = true) :
    (modifyFirst p f l).find? p = some (f a) := by
  induction l with
  | nil => cases hfind
  | cons x l ih =>
      rw [modifyFirst]
      by_cases hx : p x = true
      · rw [List.find?_cons_of_pos hx] at hfind
        obtain rfl := Option.some.inj hfind
        rw [if_pos hx, List.find?_cons_of_pos hp]
      · rw [List.find?_cons_of_neg hx] at hfind
        rw [if_neg hx, List.find?_cons_of_neg hx, ih hfind]

end ModifyFirst

/-! ### Valid journals -/

structure Valid (b : Binding) (j : Journal) : Prop where
  schema : j.schemaVersion = "p42-wallet-nonce-allocator/v1"
  binding : j.binding = b
  safeNext : isSafeInteger j.nextNonce = true
  safeFinalized : isSafeInteger j.observedFinalizedNonce = true
  safePending : isSafeInteger j.observedPendingNonce = true
  observed : j.observedFinalizedNonce ≤ j.observedPendingNonce
  formed : ∀ a ∈ j.allocations, ¬ a.malformed
  nonces : (j.allocations.map Allocation.nonce).Nodup
  below : ∀ a ∈ j.allocations, a.nonce < j.nextNonce

theorem floor_le {allocations : List Allocation} {n : ℕ} :
    floor allocations ≤ n ↔ ∀ a ∈ allocations, a.nonce < n := by
  have hfold : ∀ (l : List Allocation) (m : ℕ),
      l.foldl (fun highest item => max highest (item.nonce + 1)) m ≤ n ↔
        m ≤ n ∧ ∀ a ∈ l, a.nonce < n := by
    intro l
    induction l with
    | nil => simp
    | cons a l ih =>
        intro m
        rw [List.foldl_cons, ih, List.forall_mem_cons, max_le_iff, Nat.succ_le_iff, and_assoc]
  rw [floor, hfold, and_iff_right (Nat.zero_le n)]

theorem Coordinator.checkAllocations_ok {nonces : List ℕ} {l : List Allocation} {u : Unit} :
    Coordinator.checkAllocations nonces l = .ok u ↔ (∀ a ∈ l, ¬ a.malformed) ∧
      (l.map Allocation.nonce).Nodup ∧ ∀ a ∈ l, a.nonce ∉ nonces := by
  induction l generalizing nonces with
  | nil => simp [Coordinator.checkAllocations]
  | cons a l ih =>
      simp only [Coordinator.checkAllocations, bind_eq_ok, revertIf_eq_ok, ih, List.map_cons,
        List.nodup_cons, List.mem_cons, List.mem_map, not_or, exists_and_left]
      grind

theorem Operator.checkAllocations_ok {nonces : List ℕ} {l : List Allocation} {u : Unit} :
    Operator.checkAllocations nonces l = .ok u ↔ (∀ a ∈ l, ¬ a.malformed) ∧
      (l.map Allocation.nonce).Nodup ∧ ∀ a ∈ l, a.nonce ∉ nonces := by
  induction l generalizing nonces with
  | nil => simp [Operator.checkAllocations]
  | cons a l ih =>
      simp only [Operator.checkAllocations, bind_eq_ok, revertIf_eq_ok, ih, List.map_cons,
        List.nodup_cons, List.mem_cons, List.mem_map, not_or, exists_and_left]
      grind

theorem Coordinator.validateJournal_ok {b : Binding} {j j' : Journal} :
    Coordinator.validateJournal b j = .ok j' ↔ j = j' ∧ Valid b j := by
  simp only [Coordinator.validateJournal, Journal.checkCounters, bind_eq_ok, revertIf_eq_ok,
    Coordinator.checkAllocations_ok, pure_eq_ok, not_lt, floor_le]
  constructor
  · rintro ⟨-, ⟨-, hid, hsafe⟩, -, hobserved, -, ⟨hformed, hnonces, -⟩, -, hbelow, rfl⟩
    simp only [not_or, not_not, Bool.not_eq_false] at hid hsafe
    exact ⟨rfl, hid.1, hid.2, hsafe.1, hsafe.2.1, hsafe.2.2, hobserved, hformed, hnonces, hbelow⟩
  · rintro ⟨rfl, hv⟩
    refine ⟨(), ⟨(), ?_, ?_⟩, (), hv.observed, (), ⟨hv.formed, hv.nonces, by simp⟩, (), hv.below, rfl⟩
    · simp [hv.schema, hv.binding]
    · simp [hv.safeNext, hv.safeFinalized, hv.safePending]

theorem Operator.validate_ok {b : Binding} {j j' : Journal} :
    Operator.validateWalletNonceAllocator b j = .ok j' ↔ j = j' ∧ Valid b j := by
  simp only [Operator.validateWalletNonceAllocator, Journal.checkCounters, bind_eq_ok, revertIf_eq_ok,
    Operator.checkAllocations_ok, pure_eq_ok, not_or, not_lt, floor_le]
  constructor
  · rintro ⟨-, ⟨-, hid, hsafe⟩, -, ⟨hformed, hnonces, -⟩, -, ⟨hbelow, hobserved⟩, rfl⟩
    simp only [not_not, Bool.not_eq_false] at hid hsafe
    exact ⟨rfl, hid.1, hid.2, hsafe.1, hsafe.2.1, hsafe.2.2, hobserved, hformed, hnonces, hbelow⟩
  · rintro ⟨rfl, hv⟩
    refine ⟨(), ⟨(), ?_, ?_⟩, (), ⟨hv.formed, hv.nonces, by simp⟩, (), ⟨hv.below, hv.observed⟩, rfl⟩
    · simp [hv.schema, hv.binding]
    · simp [hv.safeNext, hv.safeFinalized, hv.safePending]

/-- Both modules accept the same journals. -/
theorem validate_ok {b : Binding} {m : Module} {j j' : Journal} :
    validate b m j = .ok j' ↔ j = j' ∧ Valid b j := by
  cases m with
  | coordinator => exact Coordinator.validateJournal_ok
  | operator => exact Operator.validate_ok

/-! ### Going on from a journal -/

/-- What an allocation may become. -/
structure Evolves (a a' : Allocation) : Prop where
  actionId : a'.actionId = a.actionId
  nonce : a'.nonce = a.nonce
  hash : ∀ hash, a.transactionHash = some hash → a'.transactionHash = some hash
  fenced : a.state = .fenced → a'.state = .fenced

theorem Evolves.refl (a : Allocation) : Evolves a a := ⟨rfl, rfl, fun _ h => h, fun h => h⟩

theorem Evolves.trans {a a' a'' : Allocation} (h : Evolves a a') (h' : Evolves a' a'') :
    Evolves a a'' where
  actionId := h'.actionId.trans h.actionId
  nonce := h'.nonce.trans h.nonce
  hash := fun hash hh => h'.hash hash (h.hash hash hh)
  fenced := fun hf => h'.fenced (h.fenced hf)

structure Follows (j j' : Journal) : Prop where
  next : j.nextNonce ≤ j'.nextNonce
  allocations : ∀ a ∈ j.allocations, ∃ a' ∈ j'.allocations, Evolves a a'

theorem Follows.refl (j : Journal) : Follows j j := ⟨le_refl _, fun a ha => ⟨a, ha, .refl a⟩⟩

theorem Follows.trans {j j' j'' : Journal} (h : Follows j j') (h' : Follows j' j'') :
    Follows j j'' where
  next := h.next.trans h'.next
  allocations := by
    intro a ha
    obtain ⟨a', ha', he⟩ := h.allocations a ha
    obtain ⟨a'', ha'', he'⟩ := h'.allocations a' ha'
    exact ⟨a'', ha'', he.trans he'⟩

theorem evolves_modifyFirst {p : Allocation → Bool} {f : Allocation → Allocation}
    {l : List Allocation} (h : ∀ a, l.find? p = some a → Evolves a (f a)) :
    ∀ a ∈ l, ∃ a' ∈ modifyFirst p f l, Evolves a a' := by
  induction l with
  | nil => exact fun _ h => absurd h List.not_mem_nil
  | cons x l ih =>
      rw [modifyFirst]
      by_cases hx : p x = true
      · rw [if_pos hx, List.forall_mem_cons]
        refine ⟨⟨f x, List.mem_cons_self .., h x (List.find?_cons_of_pos hx)⟩, fun a ha => ?_⟩
        exact ⟨a, List.mem_cons_of_mem _ ha, .refl a⟩
      · rw [if_neg hx, List.forall_mem_cons]
        refine ⟨⟨x, List.mem_cons_self .., .refl x⟩, fun a ha => ?_⟩
        obtain ⟨a', ha', he⟩ := ih (fun a h' => h a (by rw [List.find?_cons_of_neg hx, h'])) a ha
        exact ⟨a', List.mem_cons_of_mem _ ha', he⟩

/-- The journal an operation reads: the empty one when there is no file. -/
def Reads (b : Binding) (file : Option Journal) (j : Journal) : Prop :=
  file = none ∧ j = { binding := b } ∨ file = some j ∧ Valid b j

theorem Coordinator.readJournal_ok {b : Binding} {file : Option Journal} {j : Journal} :
    Coordinator.readJournal b file = .ok j ↔ Reads b file j := by
  cases file with
  | none => simp [Coordinator.readJournal, Reads, eq_comm]
  | some j' =>
      simp only [Coordinator.readJournal, Coordinator.validateJournal_ok, Reads, reduceCtorEq,
        false_and, Option.some.injEq, false_or]
      exact ⟨fun ⟨h, hv⟩ => ⟨h, h ▸ hv⟩, fun ⟨h, hv⟩ => ⟨h, h ▸ hv⟩⟩

theorem Operator.read_ok {b : Binding} {file : Option Journal} {j : Journal} :
    Operator.readWalletNonceAllocator b file = .ok j ↔ Reads b file j := by
  cases file with
  | none => simp [Operator.readWalletNonceAllocator, Reads, eq_comm]
  | some j' =>
      simp only [Operator.readWalletNonceAllocator, Operator.validate_ok, Reads, reduceCtorEq,
        false_and, Option.some.injEq, false_or]
      exact ⟨fun ⟨h, hv⟩ => ⟨h, h ▸ hv⟩, fun ⟨h, hv⟩ => ⟨h, h ▸ hv⟩⟩

/-- The file goes on: what it was, if it was there, is followed, and what it is now is valid. -/
structure FileFollows (b : Binding) (file : Option Journal) (j' : Journal) : Prop where
  valid : Valid b j'
  follows : ∀ j, file = some j → Follows j j'

theorem FileFollows.of_reads {b : Binding} {file : Option Journal} {j j' : Journal}
    (h : Reads b file j) (hv : Valid b j') (hf : Follows j j') : FileFollows b file j' := by
  refine ⟨hv, fun j₀ hj₀ => ?_⟩
  rcases h with ⟨hnone, -⟩ | ⟨hsome, -⟩
  · rw [hnone] at hj₀
    cases hj₀
  · rw [hsome] at hj₀
    obtain rfl := Option.some.inj hj₀
    exact hf

/-! ### Reservations -/

section Reserve

variable {b : Binding} {m : Module} {j j' : Journal} {o : Observation} {actionId : String}
  {reservation : Reservation}

variable {lib : Library} {file : Option Journal} {providers : List Provider}
  {existing : Option SignedRecord}

/-- A transaction is bound to an allocation that names none, or the same. -/
theorem evolves_bind {a : Allocation} {hash : String} {state : AllocationState}
    (hbound : ¬ (a.transactionHash ≠ none ∧ a.transactionHash ≠ some hash))
    (hfenced : a.state = .fenced → state = .fenced) :
    Evolves a { a with transactionHash := some hash, state := state } := by
  refine ⟨rfl, rfl, fun hash' h => ?_, hfenced⟩
  rw [h] at hbound
  by_contra hne
  exact hbound ⟨Option.some_ne_none _, fun heq => hne heq.symm⟩

end Reserve

/-! ### Recording and fencing -/

/-- What recording a signed transaction makes of its allocation. -/
def Allocation.recorded (hash : String) (broadcast : Bool) (a : Allocation) : Allocation :=
  { a with
    transactionHash := some hash
    state := if broadcast ∨ a.state = .broadcast then .broadcast else .signed }

theorem isOf_recorded {hash actionId : String} {broadcast : Bool} {nonce : ℕ} {a : Allocation} :
    Allocation.isOf actionId nonce (a.recorded hash broadcast) = Allocation.isOf actionId nonce a := rfl

/-- The journal after a change of the first allocation of a kind. -/
def Journal.modify (j : Journal) (p : Allocation → Bool) (f : Allocation → Allocation) : Journal :=
  { j with allocations := modifyFirst p f j.allocations }

section Record

variable {lib : Library} {b : Binding} {m : Module} {file : Option Journal} {j j' : Journal}
  {actionId : String} {record : SignedRecord} {transaction : Transaction}

/-- Recording finds the allocation of the action with the nonce of the transaction, not fenced and
bound to no other transaction. -/
structure Records (lib : Library) (b : Binding) (file : Option Journal) (actionId : String)
    (record : SignedRecord) (broadcast : Bool) (j j' : Journal) : Prop where
  reads : Reads b file j
  signed : ∃ transaction, signedTransaction lib b record = .ok transaction ∧
    ∃ a, j.allocations.find? (Allocation.isOf actionId transaction.nonce) = some a ∧
      a.state ≠ .fenced ∧
      ¬ (a.transactionHash ≠ none ∧ a.transactionHash ≠ some record.hash.toLower) ∧
      j' = j.modify (Allocation.isOf actionId transaction.nonce)
        (Allocation.recorded record.hash.toLower broadcast)
  valid : Valid b j'

theorem Records.follows {broadcast : Bool} (h : Records lib b file actionId record broadcast j j') :
    FileFollows b file j' := by
  obtain ⟨transaction, -, a, hfind, hfenced, hbound, rfl⟩ := h.signed
  refine .of_reads h.reads h.valid ⟨le_refl _, evolves_modifyFirst fun a' ha' => ?_⟩
  obtain rfl : a = a' := by
    rw [hfind] at ha'
    exact Option.some.inj ha'
  exact evolves_bind hbound (fun h => absurd h hfenced)

/-- What was recorded is found under its action and nonce, and is not fenced. -/
theorem Records.found {broadcast : Bool} (h : Records lib b file actionId record broadcast j j')
    (hsigned : signedTransaction lib b record = .ok transaction) :
    ∃ a, j'.allocations.find? (Allocation.isOf actionId transaction.nonce) = some a ∧
      a.state ≠ .fenced := by
  obtain ⟨transaction', hsigned', a, hfind, -, -, rfl⟩ := h.signed
  obtain rfl : transaction = transaction' := by
    rw [hsigned] at hsigned'
    exact Except.ok.inj hsigned'
  refine ⟨_, find?_modifyFirst_self hfind ?_, ?_⟩
  · rw [isOf_recorded]
    exact List.find?_some hfind
  · simp only [Allocation.recorded]
    split <;> exact AllocationState.noConfusion

theorem reads_some {j₁ : Journal} (h : Reads b (some j) j₁) : j₁ = j := by
  rcases h with ⟨h, -⟩ | ⟨h, -⟩
  · cases h
  · exact (Option.some.inj h).symm

/-- How the coordinator decides, once the transaction is recorded. -/
theorem Coordinator.decide_cases {providers : List Provider} {known : Option KnownTransaction}
    {decision : Decision} {file' : Option Journal} (hv : Valid b j)
    (h : Coordinator.decideRecorded lib b (some j) providers known actionId record =
      .ok (decision, file')) :
    ∃ transaction j', signedTransaction lib b record = .ok transaction ∧ file' = some j' ∧
      Valid b j' ∧
      ((known.isSome = true ∧ decision = ⟨false, true, transaction.nonce⟩ ∧ j' = j) ∨
      ∃ o, known = none ∧ observeProviders providers = .ok o ∧
        (o.advanced transaction.nonce ∧ decision = ⟨false, false, transaction.nonce⟩ ∧
          j' = j.modify (fun a => a.actionId = actionId) (fun a => { a with state := .fenced }) ∨
        ¬ o.advanced transaction.nonce ∧ decision = ⟨true, false, transaction.nonce⟩ ∧ j' = j)) := by
  simp only [Coordinator.decideRecorded, bind_eq_ok] at h
  obtain ⟨transaction, hsigned, h⟩ := h
  cases known with
  | some known =>
      simp only [bind_eq_ok, pure_eq_ok, Prod.mk.injEq] at h
      obtain ⟨-, -, rfl, rfl⟩ := h
      exact ⟨transaction, j, hsigned, rfl, hv, .inl ⟨rfl, rfl, rfl⟩⟩
  | none =>
      simp only [bind_eq_ok, Coordinator.nonceObservation] at h
      obtain ⟨o, ⟨-, -, ho⟩, h⟩ := h
      split at h
      · simp only [bind_eq_ok, Coordinator.readJournal_ok, Coordinator.validateJournal_ok, pure_eq_ok,
          Prod.mk.injEq] at h
        obtain ⟨j₁, hread, _, ⟨rfl, hv'⟩, rfl, rfl⟩ := h
        obtain rfl := reads_some hread
        exact ⟨transaction, _, hsigned, rfl, hv', .inr ⟨o, rfl, ho, .inl ⟨‹_›, rfl, rfl⟩⟩⟩
      · simp only [pure_eq_ok, Prod.mk.injEq] at h
        obtain ⟨rfl, rfl⟩ := h
        exact ⟨transaction, j, hsigned, rfl, hv, .inr ⟨o, rfl, ho, .inr ⟨‹_›, rfl, rfl⟩⟩⟩

/-- How the operator decides, once the transaction is recorded. -/
theorem Operator.decide_cases {providers : List Provider} {known : Option KnownTransaction}
    {decision : Decision} {file' : Option Journal} (hv : Valid b j)
    (h : Operator.decideRecorded lib b (some j) providers known actionId record =
      .ok (decision, file')) :
    ∃ transaction j', signedTransaction lib b record = .ok transaction ∧ file' = some j' ∧
      Valid b j' ∧
      ((known.isSome = true ∧ decision = ⟨false, true, transaction.nonce⟩ ∧
        j' = j.modify (Allocation.isOf actionId transaction.nonce) (fun a => { a with state := .broadcast })) ∨
      ∃ o, known = none ∧ observeProviders providers = .ok o ∧
        (o.advanced transaction.nonce ∧ decision = ⟨false, false, transaction.nonce⟩ ∧
          j' = (Operator.persistWalletNonceObservation j o).modify
            (Allocation.isOf actionId transaction.nonce) (fun a => { a with state := .fenced }) ∨
        ¬ o.advanced transaction.nonce ∧ decision = ⟨true, false, transaction.nonce⟩ ∧
          j' = Operator.persistWalletNonceObservation j o)) := by
  simp only [Operator.decideRecorded, bind_eq_ok, Operator.read_ok] at h
  obtain ⟨transaction, hsigned, j₁, hread, h⟩ := h
  obtain rfl := reads_some hread
  cases known with
  | some known =>
      simp only [bind_eq_ok, Operator.setState, Operator.validate_ok, pure_eq_ok, Prod.mk.injEq] at h
      obtain ⟨-, -, _, ⟨rfl, hv'⟩, rfl, rfl⟩ := h
      exact ⟨transaction, _, hsigned, rfl, hv', .inl ⟨rfl, rfl, rfl⟩⟩
  | none =>
      simp only [bind_eq_ok, Operator.walletNonceObservation] at h
      obtain ⟨o, ⟨-, -, ho⟩, h⟩ := h
      split at h
      · simp only [bind_eq_ok, Operator.setState, Operator.validate_ok, pure_eq_ok, Prod.mk.injEq] at h
        obtain ⟨_, ⟨rfl, hv'⟩, rfl, rfl⟩ := h
        exact ⟨transaction, _, hsigned, rfl, hv', .inr ⟨o, rfl, ho, .inl ⟨‹_›, rfl, rfl⟩⟩⟩
      · simp only [bind_eq_ok, Operator.validate_ok, pure_eq_ok, Prod.mk.injEq] at h
        obtain ⟨_, ⟨rfl, hv'⟩, rfl, rfl⟩ := h
        exact ⟨transaction, _, hsigned, rfl, hv', .inr ⟨o, rfl, ho, .inr ⟨‹_›, rfl, rfl⟩⟩⟩

theorem follows_fence {p : Allocation → Bool} :
    Follows j (j.modify p (fun a => { a with state := .fenced })) :=
  ⟨le_refl _, evolves_modifyFirst (fun _ _ => ⟨rfl, rfl, fun _ h => h, fun _ => rfl⟩)⟩

theorem follows_persist {o : Observation} : Follows j (Operator.persistWalletNonceObservation j o) :=
  ⟨le_refl _, fun a ha => ⟨a, ha, .refl a⟩⟩

/-- An allocation that is not fenced becomes one of a broadcast transaction. -/
theorem follows_broadcast {p : Allocation → Bool}
    (h : ∃ a, j.allocations.find? p = some a ∧ a.state ≠ .fenced) :
    Follows j (j.modify p (fun a => { a with state := .broadcast })) := by
  obtain ⟨a, hfind, hfenced⟩ := h
  refine ⟨le_refl _, evolves_modifyFirst fun a' ha' => ⟨rfl, rfl, fun _ h => h, fun h => ?_⟩⟩
  rw [hfind] at ha'
  obtain rfl := Option.some.inj ha'
  exact absurd h hfenced

end Record

/-! ### Every operation -/

section Run

variable {lib : Library} {b : Binding} {m : Module} {file : Option Journal} {j : Journal}
  {actionId : String} {record : SignedRecord}

theorem FileFollows.trans {j' j'' : Journal} (h : FileFollows b file j') (hv : Valid b j'')
    (hf : Follows j' j'') : FileFollows b file j'' :=
  ⟨hv, fun j hj => (h.follows j hj).trans hf⟩

theorem decide_follows {providers : List Provider} {known : Option KnownTransaction}
    {decision : Decision} {file' : Option Journal} {j₀ : Journal}
    (hr : Records lib b file actionId record false j₀ j)
    (h : decideRecorded lib b (some j) providers known actionId record m = .ok (decision, file')) :
    ∃ j', file' = some j' ∧ FileFollows b file j' := by
  have hff := hr.follows
  cases m with
  | coordinator =>
      obtain ⟨transaction, j', hsigned, rfl, hv, ⟨-, -, rfl⟩ | ⟨o, -, -, ⟨-, -, rfl⟩ | ⟨-, -, rfl⟩⟩⟩ :=
        Coordinator.decide_cases hff.valid h
      · exact ⟨_, rfl, hff⟩
      · exact ⟨_, rfl, hff.trans hv follows_fence⟩
      · exact ⟨_, rfl, hff⟩
  | operator =>
      obtain ⟨transaction, j', hsigned, rfl, hv, ⟨-, -, rfl⟩ | ⟨o, -, -, ⟨-, -, rfl⟩ | ⟨-, -, rfl⟩⟩⟩ :=
        Operator.decide_cases hff.valid h
      · exact ⟨_, rfl, hff.trans hv (follows_broadcast (hr.found hsigned))⟩
      · exact ⟨_, rfl, hff.trans hv (follows_persist.trans follows_fence)⟩
      · exact ⟨_, rfl, hff.trans hv follows_persist⟩

end Run

/-! ### What a decision fences -/

section Fence

variable {lib : Library} {b : Binding} {m : Module} {file file' : Option Journal} {j j' : Journal}
  {actionId : String} {record : SignedRecord} {transaction : Transaction}

/-- The allocation of a refused transaction. -/
def Allocation.refused (hash : String) (a : Allocation) : Allocation :=
  { a with transactionHash := some hash, state := .fenced }

/-- The condition under which the coordinator fences the right allocation. -/
def NonceOp.Served (file : Option Journal) : NonceOp → Prop
  | decide .coordinator providers none actionId record => ∀ j o a, file = some j →
      observeProviders providers = .ok o → o.advanced record.nonce →
      j.allocations.find? (fun a => a.actionId = actionId) = some a → a.nonce = record.nonce
  | _ => True

/-- The file that was there when a transaction was recorded. -/
theorem Records.read {broadcast : Bool} (h : Records lib b file actionId record broadcast j j') :
    file = some j ∧ Valid b j := by
  rcases h.reads with ⟨-, rfl⟩ | hread
  · obtain ⟨transaction, -, a, hfind, -⟩ := h.signed
    cases hfind
  · exact hread

end Fence

/-! ### Both modules decide alike -/

section Alike

variable {lib : Library} {b : Binding} {file : Option Journal} {j : Journal} {o : Observation}
  {providers : List Provider} {actionId : String} {record : SignedRecord} {transaction : Transaction}

theorem map_modifyFirst {α β : Type} {p : α → Bool} {f : α → α} {k : α → β} {l : List α}
    (hk : ∀ x, k (f x) = k x) : (modifyFirst p f l).map k = l.map k := by
  induction l with
  | nil => rfl
  | cons x l ih =>
      rw [modifyFirst]
      split
      · rw [List.map_cons, hk, List.map_cons]
      · rw [List.map_cons, ih, List.map_cons]

theorem Reads.observed (h : Reads b file j) : j.observedFinalizedNonce ≤ j.observedPendingNonce := by
  rcases h with ⟨-, rfl⟩ | ⟨-, hv⟩
  · exact le_refl _
  · exact hv.observed

/-- `keccak256` returns 32 bytes in hexadecimal. -/
def Library.Hashes (lib : Library) : Prop := ∀ raw, isHexString32 (lib.keccak256 raw).toLower = true

end Alike

/-! ### Runs -/

section Runs

variable {lib : Library} {b : Binding} {file file' : Option Journal} {j : Journal} {m : Module}
  {actionId : String} {record : SignedRecord}

end Runs

namespace Sample

def rawTx : String :=
  "0xf86c098504a817c800825208943535353535353535353535353535353535353535880de0b6b3a7640000802" ++
  "5a028ef61340bd939bc2195fe537567866003e1a15d3c71ff63e1590620aa636276a067cbe9d8997f761aecb70" ++
  "3304b3800ccf555c9f3dc64214b297fb1966a3b6d83"

def txHash : String := "0x33469b22e9f636356c4160a87eb19df52b7412e8eac32a4a55ffe88ea8350788"

def sender : String := "0x9d8A62f656a8d1615C1294fd71e9CFb3E4855A4F"

def walletSigner : String := "0x9d8a62f656a8d1615c1294fd71e9cfb3e4855a4f"

def transaction : Transaction := ⟨some sender, 1, 9⟩

def wallet : Binding := ⟨1, walletSigner⟩

end Sample

end P42Prizes.WalletNonce
