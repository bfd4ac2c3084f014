import P42Prizes.PoolFunding
import P42Prizes.ProblemRegistry

/-! # The registry and its boards

`Listing.system` runs a board together with the registry: what the board asks the registry is answered by
it, and what the registry asks the pool of the board is answered by the pool.  The numbers given out are the
first ones, every problem is complete, the log tells what is stored (`RegistryLaws`), and a frozen problem
never changes.  A pool books ETH only while its problem is frozen and names it, so nothing rewrites the
problem of a funded pool (`funding_locks`). -/

namespace P42Prizes.Registry

open Reverting Function Transition

/-! ### What a call does -/

/-- What `_validateConfig` checks of the configuration itself. -/
structure ProblemConfig.Complete (config : ProblemConfig) : Prop where
  specHash : config.specHash ≠ 0
  verifierSourceHash : config.verifierSourceHash ≠ 0
  verifierImageHash : config.verifierImageHash ≠ 0
  admissionMatrixHash : config.admissionMatrixHash ≠ 0
  metadataURI : config.metadataURI ≠ []
  pool : config.pool ≠ 0
  ledger : config.ledger ≠ 0
  submissionManager : config.submissionManager ≠ 0
  challengeManager : config.challengeManager ≠ 0
  window : config.challengeWindowSeconds ≠ 0

namespace P42ProblemRegistry

variable {e : Env} {r r' : P42ProblemRegistry} {id k : ℕ} {config : ProblemConfig} {problem : Problem}

theorem validateConfig_ok (h : validateConfig e id config = .ok ()) : config.Complete := by
  simp only [validateConfig, bind_eq_ok, revertIf_eq_ok, Unique.exists_iff, not_or,
    List.length_eq_zero_iff] at h
  obtain ⟨⟨hspec, hsource, himage, hmatrix⟩, huri, ⟨hpool, hledger, hsubmission, hchallenge⟩, hwindow, -⟩ := h
  exact ⟨hspec, hsource, himage, hmatrix, huri, hpool, hledger, hsubmission, hchallenge, hwindow⟩

@[simp] theorem requireExisting_eq_ok : r.requireExisting id = .ok problem ↔
    (r.problems id).pool ≠ 0 ∧ r.problems id = problem := by
  simp only [requireExisting, bind_eq_ok, revertIf_eq_ok, pure_eq_ok, exists_const]

@[simp] theorem view_eq_ok {α : Type} {answer : Option α} {a : α} :
    view answer = .ok a ↔ answer = some a := by
  cases answer with
  | none => simp [view]
  | some b => simp [view]

/-- The registry with a new problem. -/
def registered (config : ProblemConfig) (r : P42ProblemRegistry) : P42ProblemRegistry :=
  ({ r with problemCount := r.problemCount + 1 }.store (r.problemCount + 1) config false).emit
    (.problemRegistered (r.problemCount + 1) config.specHash config.verifierImageHash config.pool
      config.metadataURI)

/-- The registry with a problem rewritten. -/
def updated (id : ℕ) (config : ProblemConfig) (r : P42ProblemRegistry) : P42ProblemRegistry :=
  (r.store id config false).emit (.problemUpdated id config.specHash config.verifierImageHash)

/-- What a call that completes does. -/
inductive Move (e : Env) (r : P42ProblemRegistry) : P42ProblemRegistry → Prop
  | register {config : ProblemConfig} : e.sender = r.owner → r.problemCount + 1 < 2 ^ 256 →
      validateConfig e (r.problemCount + 1) config = .ok () → Move e r (r.registered config)
  | update {id : ℕ} {config : ProblemConfig} : e.sender = r.owner → (r.problems id).pool ≠ 0 →
      (r.problems id).frozen = false → e.views.everFunded (r.problems id).pool = some false →
      validateConfig e id config = .ok () → Move e r (r.updated id config)
  | freeze {id : ℕ} : (r.problems id).pool ≠ 0 → (r.problems id).frozen = false →
      (e.sender = r.owner ∨ e.views.everFunded (r.problems id).pool = some true) →
      Move e r (r.markFrozen id (r.problems id))

theorem registerNext_ok (hsender : e.sender = r.owner) (h : r.registerNext e config = .ok r') :
    Move e r r' := by
  simp only [registerNext, nextProblemId, bind_eq_ok, checkedAdd_eq_ok, pure_eq_ok, Unique.exists_iff,
    and_assoc, exists_and_left, exists_eq_left'] at h
  obtain ⟨hlt, hvalid, rfl⟩ := h
  exact .register hsender hlt hvalid

theorem move_of_call {c : RegistryCall} (h : r.call e c = .ok r') : Move e r r' := by
  cases c with
  | register config =>
      simp only [call, register, onlyOwner, bind_eq_ok, revertIf_eq_ok, Unique.exists_iff, ne_eq,
        not_not] at h
      exact registerNext_ok h.1 h.2
  | registerExpected config expected =>
      simp only [call, registerExpected, onlyOwner, bind_eq_ok, revertIf_eq_ok, Unique.exists_iff, ne_eq,
        not_not] at h
      obtain ⟨hsender, _, -, -, h⟩ := h
      exact registerNext_ok hsender h
  | updateBeforeFunding id config =>
      simp only [call, updateBeforeFunding, onlyOwner, isFrozen, bind_eq_ok, revertIf_eq_ok,
        requireExisting_eq_ok, Unique.exists_iff, ne_eq, not_not, pure_eq_ok, and_assoc, exists_and_left,
        exists_eq_left'] at h
      obtain ⟨hsender, hpool, -, frozen, hfrozen, hfalse, hvalid, rfl⟩ := h
      split at hfrozen
      · rw [pure_eq_ok] at hfrozen
        exact absurd hfrozen.symm hfalse
      · rename_i hopen
        rw [view_eq_ok] at hfrozen
        rw [Bool.not_eq_true] at hopen hfalse
        subst hfalse
        exact .update hsender hpool hopen hfrozen hvalid
  | freeze id =>
      simp only [call, freeze, onlyOwner, bind_eq_ok, revertIf_eq_ok, requireExisting_eq_ok,
        Unique.exists_iff, ne_eq, not_not, pure_eq_ok, and_assoc, exists_and_left, exists_eq_left',
        Bool.not_eq_true] at h
      obtain ⟨hsender, hpool, hopen, rfl⟩ := h
      exact .freeze hpool hopen (Or.inl hsender)
  | latchFrozen id =>
      simp only [call, latchFrozen, bind_eq_ok, revertIf_eq_ok, requireExisting_eq_ok, view_eq_ok,
        Unique.exists_iff, ne_eq, pure_eq_ok, and_assoc, exists_and_left, exists_eq_left',
        Bool.not_eq_true, Bool.not_eq_false] at h
      obtain ⟨hpool, hopen, _, hfunded, rfl, rfl⟩ := h
      exact .freeze hpool hopen (Or.inr hfunded)

/-! ### The events -/

/-- The hashes that an event announces for a problem. -/
def hashesOf (id : ℕ) : Event → Option (Bytes32 × Bytes32)
  | .problemRegistered problemId specHash verifierImageHash _ _ =>
      if problemId = id then some (specHash, verifierImageHash) else none
  | .problemUpdated problemId specHash verifierImageHash =>
      if problemId = id then some (specHash, verifierImageHash) else none
  | .problemFrozen _ => none

def registers (id : ℕ) : Event → Bool
  | .problemRegistered problemId .. => problemId = id
  | _ => false

/-- The numbers given out are the first ones, what is stored under them is complete, and the log tells it. -/
structure RegistryLaws (r : P42ProblemRegistry) : Prop where
  numbered : ∀ id, (r.problems id).pool ≠ 0 ↔ 1 ≤ id ∧ id ≤ r.problemCount
  blank : ∀ id, (r.problems id).pool = 0 → r.problems id = {}
  complete : ∀ id, (r.problems id).pool ≠ 0 → (r.problems id).toProblemConfig.Complete
  hashes : ∀ id, r.logs.findSome? (hashesOf id) = if (r.problems id).pool = 0 then none
    else some ((r.problems id).specHash, (r.problems id).verifierImageHash)
  once : ∀ id, r.logs.countP (registers id) = if (r.problems id).pool = 0 then 0 else 1
  frozen : ∀ id, r.logs.count (.problemFrozen id) = if (r.problems id).frozen = true then 1 else 0

theorem registryLaws_of_construct {owner : Address} (h : construct owner = .ok r) : RegistryLaws r := by
  simp only [construct, bind_eq_ok, revertIf_eq_ok, pure_eq_ok, exists_const] at h
  obtain ⟨-, rfl⟩ := h
  refine ⟨fun id => ?_, fun id _ => rfl, fun id hpool => absurd rfl hpool, fun id => rfl, fun id => rfl,
    fun id => rfl⟩
  constructor
  · intro hpool
    exact absurd rfl hpool
  · rintro ⟨hone, hcount⟩
    exact absurd (hone.trans hcount) (Nat.not_succ_le_zero 0)

/-- The problem `id` is written and an event about it alone is emitted. -/
theorem RegistryLaws.write {ev : Event} (h : RegistryLaws r) (count : ℕ)
    (hcomplete : problem.toProblemConfig.Complete)
    (hcount : ∀ k, 1 ≤ k ∧ k ≤ count ↔ k = id ∨ 1 ≤ k ∧ k ≤ r.problemCount)
    (hother : ∀ k ≠ id, hashesOf k ev = none ∧ registers k ev = false ∧ ev ≠ .problemFrozen k)
    (hhashes : (hashesOf id ev).or (r.logs.findSome? (hashesOf id)) =
      some (problem.specHash, problem.verifierImageHash))
    (honce : registers id ev = decide ((r.problems id).pool = 0))
    (hfrozen : ((if (r.problems id).frozen = true then 1 else 0) + if ev = .problemFrozen id then 1 else 0) =
      if problem.frozen = true then 1 else 0) :
    RegistryLaws ({ r with problemCount := count, problems := update r.problems id problem }.emit ev) := by
  obtain ⟨r₁, hr⟩ : ∃ r₁, r₁ =
      { r with problemCount := count, problems := update r.problems id problem }.emit ev := ⟨_, rfl⟩
  have hcountEq : r₁.problemCount = count := by rw [hr]; rfl
  have hlogs : r₁.logs = ev :: r.logs := by rw [hr]; rfl
  have hself : r₁.problems id = problem := by rw [hr]; exact update_self ..
  have hkept : ∀ k ≠ id, r₁.problems k = r.problems k := fun k hk => by rw [hr]; exact update_of_ne hk ..
  have hpool := hcomplete.pool
  rw [← hr]
  constructor
  · intro k
    rw [hcountEq, hcount k]
    by_cases hk : k = id
    · subst hk
      exact ⟨fun _ => Or.inl rfl, fun _ => hself ▸ hpool⟩
    · rw [hkept k hk, h.numbered k]
      exact ⟨Or.inr, fun hor => hor.resolve_left hk⟩
  · intro k
    by_cases hk : k = id
    · subst hk
      rw [hself]
      exact fun hzero => absurd hzero hpool
    · rw [hkept k hk]
      exact h.blank k
  · intro k
    by_cases hk : k = id
    · subst hk
      rw [hself]
      exact fun _ => hcomplete
    · rw [hkept k hk]
      exact h.complete k
  · intro k
    rw [hlogs, List.findSome?_cons]
    by_cases hk : k = id
    · subst hk
      rw [hself, if_neg hpool, ← hhashes]
      cases hashesOf k ev <;> rfl
    · rw [hkept k hk, (hother k hk).1]
      exact h.hashes k
  · intro k
    rw [hlogs, List.countP_cons, h.once k]
    by_cases hk : k = id
    · subst hk
      rw [hself, if_neg hpool, honce]
      by_cases hzero : (r.problems k).pool = 0
      · rw [if_pos hzero, if_pos (decide_eq_true hzero)]
      · rw [if_neg hzero, decide_eq_false hzero, if_neg Bool.false_ne_true]
    · rw [hkept k hk, (hother k hk).2.1, if_neg Bool.false_ne_true, Nat.add_zero]
  · intro k
    rw [hlogs, List.count_cons, h.frozen k]
    by_cases hk : k = id
    · subst hk
      rw [hself, ← hfrozen]
      simp only [beq_iff_eq]
    · have hev : ¬ (ev == .problemFrozen k) = true := by
        rw [beq_iff_eq]
        exact (hother k hk).2.2
      rw [hkept k hk, if_neg hev, Nat.add_zero]

theorem RegistryLaws.move (h : RegistryLaws r) (hmove : Move e r r') : RegistryLaws r' := by
  cases hmove with
  | register hsender hlt hvalid =>
      have hfree : (r.problems (r.problemCount + 1)).pool = 0 := by
        by_contra hpool
        exact absurd ((h.numbered _).mp hpool).2 (Nat.not_succ_le_self _)
      refine h.write (r.problemCount + 1) (validateConfig_ok hvalid) (fun k => by omega) (fun k hk => ?_)
        ?_ ?_ ?_
      · simp [hashesOf, registers, Ne.symm hk]
      · simp [hashesOf]
      · simp [registers, hfree]
      · simp [h.blank _ hfree]
  | update hsender hpool hopen hfunded hvalid =>
      have hold := (h.numbered _).mp hpool
      refine h.write r.problemCount (validateConfig_ok hvalid) (fun k => ?_) (fun k hk => ?_) ?_ ?_ ?_
      · constructor
        · exact Or.inr
        · rintro (rfl | hk)
          · exact hold
          · exact hk
      · simp [hashesOf, registers, Ne.symm hk]
      · simp [hashesOf]
      · exact (decide_eq_false hpool).symm
      · simp [hopen]
  | freeze hpool hopen hwho =>
      have hold := (h.numbered _).mp hpool
      refine h.write r.problemCount (h.complete _ hpool) (fun k => ?_) (fun k hk => ?_) ?_ ?_ ?_
      · constructor
        · exact Or.inr
        · rintro (rfl | hk)
          · exact hold
          · exact hk
      · simp [hashesOf, registers, Ne.symm hk]
      · rw [h.hashes, if_neg hpool]
        rfl
      · exact (decide_eq_false hpool).symm
      · simp [hopen]

/-- What a call leaves of a problem: it is kept or frozen, unless the owner rewrites it while its pool says
that it was never funded. -/
theorem Move.kept (h : RegistryLaws r) (hmove : Move e r r') (hpool : (r.problems k).pool ≠ 0) :
    r'.problems k = r.problems k ∨
    (r.problems k).frozen = false ∧ (r'.problems k = { r.problems k with frozen := true } ∨
      e.sender = r.owner ∧ e.views.everFunded (r.problems k).pool = some false) := by
  cases hmove with
  | register hsender hlt hvalid =>
      have hne : k ≠ r.problemCount + 1 := fun hk =>
        absurd ((h.numbered k).mp hpool).2 (hk ▸ Nat.not_succ_le_self _)
      exact Or.inl (update_of_ne hne ..)
  | @update id config hsender hid hopen hfunded hvalid =>
      by_cases hk : k = id
      · subst hk
        exact Or.inr ⟨hopen, Or.inr ⟨hsender, hfunded⟩⟩
      · exact Or.inl (update_of_ne hk ..)
  | @freeze id hid hopen hwho =>
      by_cases hk : k = id
      · subst hk
        exact Or.inr ⟨hopen, Or.inl (update_self ..)⟩
      · exact Or.inl (update_of_ne hk ..)

theorem Move.count (hmove : Move e r r') : r.problemCount ≤ r'.problemCount := by
  cases hmove with
  | register => exact Nat.le_succ _
  | update => exact le_rfl
  | freeze => exact le_rfl

end P42ProblemRegistry

/-! ### The pointers and the flag of a pool -/

/-- The registry of a pool is set once, and so is its flag, with the first ETH it books. -/
structure Anchored (p p' : BountyPool) : Prop where
  registry : p.registry ≠ 0 → p'.registry = p.registry ∧ p'.problemId = p.problemId
  funded : p.everFunded = true → p'.everFunded = true
  booked : p.totalFunded < p'.totalFunded → p'.everFunded = true

namespace Anchored

variable {d : Deployment} {e : P42Prizes.Env} {l l' : PayoutLedger} {p p' : BountyPool}

theorem of_eq (hregistry : p'.registry = p.registry) (hid : p'.problemId = p.problemId)
    (hfunded : p'.everFunded = p.everFunded) (htotal : p'.totalFunded = p.totalFunded) : Anchored p p' :=
  ⟨fun _ => ⟨hregistry, hid⟩, fun h => hfunded.trans h, fun h => absurd h htotal.le.not_gt⟩

theorem of_booked {payout : Payout} (h : BountyPool.Booked d e l p payout l' p') (amount : ℕ) :
    Anchored p (p'.send amount) := by
  cases h <;> exact of_eq rfl rfl rfl rfl

theorem of_move {c : Call} {f : List Frame} (h : BountyPool.PoolMove d e l p c l' p' f)
    (hearly : l.closed = false → p.accruedFeeBalance = 0) : Anchored p p' := by
  cases h with
  | poolAdmin hadmin =>
      obtain ⟨_, _, _, _, _, _, -, -, -, hregistry, -, rfl⟩ := hadmin
      exact ⟨hregistry, id, fun h => absurd h (lt_irrefl _)⟩
  | fund => exact ⟨fun _ => ⟨rfl, rfl⟩, fun _ => rfl, fun _ => rfl⟩
  | payout hbooked => exact of_booked hbooked _
  | earlyFee hl hfee => exact absurd (hearly hl) hfee
  | _ => exact of_eq rfl rfl rfl rfl

theorem of_finish (payout : Payout) : Anchored p (p.finish d payout) := by
  cases payout <;> exact of_eq rfl rfl rfl rfl

theorem of_step {C : World → P42Prizes.Action → Prop} {w w' : World} {a : P42Prizes.Action}
    (hreach : d.protocol.Reachable C w) (h : w.step d a = some w') : Anchored w.pool w'.pool := by
  have hearly : w.ledger.closed = false → w.pool.accruedFeeBalance = 0 :=
    fun hc => ((solvent_of_reachable hreach).idle (Or.inl hc)).2.1
  cases stepped_of_step h with
  | ledger _ hrun => exact of_move (LedgerCall.move_of_run hrun) hearly
  | pool _ _ _ hrun =>
      have hmove := of_move (PoolCall.move_of_run hrun) hearly
      exact ⟨hmove.registry, hmove.funded, hmove.booked⟩
  | finishPayout => exact of_finish _
  | _ => exact of_eq rfl rfl rfl rfl

end Anchored

/-! ### A registry and a board -/

/-- A board and the address of the registry. -/
structure Listing where
  board : Deployment
  registry : Address

/-- The state of the board and of the registry. -/
structure Listed where
  board : World
  registry : P42ProblemRegistry

inductive ListedAction where
  | board (a : P42Prizes.Action)
  | registry (sender : Address) (views : Views) (c : RegistryCall)

/-- What the board is answered at the address of the registry. -/
def answeredBy (address : Address) (r : P42ProblemRegistry) (ext : External) : External :=
  { ext with
    problemPool := fun a id =>
      if a = address then (r.problemPool id).toOption.getD 0 else ext.problemPool a id
    explicitlyFrozen := fun a id =>
      if a = address then (r.explicitlyFrozen id).toOption.getD false else ext.explicitlyFrozen a id }

/-- What the registry is answered at the address of the pool. -/
def fundedBy (address : Address) (p : BountyPool) (views : Views) : Views :=
  { views with everFunded := fun a => if a = address then some p.everFunded else views.everFunded a }

/-- An action of the board with the answers of the registry. -/
def answered (address : Address) (r : P42ProblemRegistry) : P42Prizes.Action → P42Prizes.Action
  | .call sender value ext c => .call sender value (answeredBy address r ext) c
  | a => a

namespace Listing

variable (L : Listing)

def step (x : Listed) : ListedAction → Option Listed
  | .board a => (x.board.step L.board (answered L.registry x.registry a)).map (⟨·, x.registry⟩)
  | .registry sender views c =>
      let e : Env := ⟨L.board.crypto, L.registry, sender, fundedBy L.board.pool x.board.pool views⟩
      (x.registry.call e c).toOption.map (⟨x.board, ·⟩)

/-- The board and the registry, which any accounts use in any order. -/
def system : System Listed ListedAction where
  init x := L.board.protocol.init x.board ∧ ∃ owner, P42ProblemRegistry.construct owner = .ok x.registry
  step x a := L.step x a

end Listing

variable {L : Listing} {x x' : Listed} {a : ListedAction}

/-- A step of one of the two. -/
theorem step_cases (h : L.system.step x a = some x') :
    (∃ b, x.board.step L.board (answered L.registry x.registry b) = some x'.board ∧
      x'.registry = x.registry) ∨
    (x'.board = x.board ∧ ∃ sender views, (∃ c, a = .registry sender views c) ∧
      P42ProblemRegistry.Move ⟨L.board.crypto, L.registry, sender,
        fundedBy L.board.pool x.board.pool views⟩ x.registry x'.registry) := by
  cases a with
  | board b =>
      obtain ⟨w, hw, rfl⟩ := Option.map_eq_some_iff.mp h
      exact Or.inl ⟨b, hw, rfl⟩
  | registry sender views c =>
      obtain ⟨r, hr, rfl⟩ := Option.map_eq_some_iff.mp h
      rw [toOption_eq_some] at hr
      exact Or.inr ⟨rfl, sender, views, ⟨c, rfl⟩, P42ProblemRegistry.move_of_call hr⟩

theorem board_reachable (h : L.system.Reachable Free x) : L.board.protocol.Reachable Free x.board := by
  refine h.invariant (P := fun x => L.board.protocol.Reachable Free x.board)
    (fun s hs => System.Reachable.of_init hs.1) fun s a s' _ hP _ hstep => ?_
  obtain ⟨b, hb, -⟩ | ⟨hb, -⟩ := step_cases hstep
  · exact hP.step trivial hb
  · rw [hb]
    exact hP

theorem registry_lawful (h : L.system.Reachable Free x) : x.registry.RegistryLaws := by
  refine h.invariant (P := fun x => x.registry.RegistryLaws) ?_ fun s a s' _ hP _ hstep => ?_
  · rintro s ⟨-, owner, howner⟩
    exact P42ProblemRegistry.registryLaws_of_construct howner
  · obtain ⟨_, -, hr⟩ | ⟨-, _, _, -, hmove⟩ := step_cases hstep
    · rw [hr]
      exact hP
    · exact hP.move hmove

/-- A step keeps the registry and the number of the pool, once they are set, and its flag. -/
theorem anchored_step (hreach : L.system.Reachable Free x) (h : L.system.step x a = some x') :
    Anchored x.board.pool x'.board.pool := by
  obtain ⟨b, hb, -⟩ | ⟨hb, -⟩ := step_cases h
  · exact Anchored.of_step (board_reachable hreach) hb
  · rw [hb]
    exact .of_eq rfl rfl rfl rfl

theorem anchored_run {as : List ListedAction} (hreach : L.system.Reachable Free x)
    (hregistry : x.board.pool.registry ≠ 0) (hfunded : x.board.pool.everFunded = true)
    (hrun : L.system.Run Free x as x') :
    x'.board.pool.registry = x.board.pool.registry ∧ x'.board.pool.problemId = x.board.pool.problemId ∧
      x'.board.pool.everFunded = true := by
  refine hrun.invariant_of (J := fun y => L.system.Reachable Free y)
    (P := fun y => y.board.pool.registry = x.board.pool.registry ∧
      y.board.pool.problemId = x.board.pool.problemId ∧ y.board.pool.everFunded = true)
    (fun _ _ _ hy hc hs => hy.step hc hs) (fun y b z hy hP _ hs => ?_) hreach ⟨rfl, rfl, hfunded⟩
  have hanchored := anchored_step hy hs
  obtain ⟨hsame, hid⟩ := hanchored.registry (hP.1 ▸ hregistry)
  exact ⟨hsame.trans hP.1, hid.trans hP.2.1, hanchored.funded hP.2.2⟩

/-- A frozen problem never changes. -/
theorem frozen_kept {as : List ListedAction} (hreach : L.system.Reachable Free x)
    (hrun : L.system.Run Free x as x') {k : ℕ} (hfrozen : (x.registry.problems k).frozen = true) :
    x'.registry.problems k = x.registry.problems k := by
  refine hrun.invariant_of (J := fun y => L.system.Reachable Free y)
    (P := fun y => y.registry.problems k = x.registry.problems k)
    (fun _ _ _ hy hc hs => hy.step hc hs) (fun y b z hy hP _ hs => ?_) hreach rfl
  obtain ⟨_, -, hr⟩ | ⟨-, _, _, -, hmove⟩ := step_cases hs
  · rw [hr, hP]
  · have hlaws := registry_lawful hy
    have hpool : (y.registry.problems k).pool ≠ 0 := by
      intro hzero
      rw [← hP, hlaws.blank k hzero] at hfrozen
      exact absurd hfrozen Bool.false_ne_true
    obtain hkept | ⟨hopen, -⟩ := hmove.kept hlaws hpool
    · rw [hkept, hP]
    · rw [hP, hfrozen] at hopen
      exact absurd hopen (Bool.noConfusion)

/-- Once the pool was funded, the problems that name it are at most frozen. -/
theorem named_kept {as : List ListedAction} (hreach : L.system.Reachable Free x)
    (hfunded : x.board.pool.everFunded = true) (hrun : L.system.Run Free x as x') {k : ℕ}
    (hnamed : (x.registry.problems k).pool = L.board.pool) :
    x'.registry.problems k = x.registry.problems k ∨
      x'.registry.problems k = { x.registry.problems k with frozen := true } := by
  refine hrun.invariant_of (J := fun y => L.system.Reachable Free y ∧ y.board.pool.everFunded = true)
    (P := fun y => y.registry.problems k = x.registry.problems k ∨
      y.registry.problems k = { x.registry.problems k with frozen := true })
    (fun y b z hy hc hs => ⟨hy.1.step hc hs, ?_⟩) (fun y b z hy hP _ hs => ?_) ⟨hreach, hfunded⟩ (Or.inl rfl)
  · exact (anchored_step hy.1 hs).funded hy.2
  · obtain ⟨_, -, hr⟩ | ⟨-, _, _, -, hmove⟩ := step_cases hs
    · rw [hr]
      exact hP
    · have hpool : (y.registry.problems k).pool = L.board.pool := by
        obtain hP | hP := hP <;> rw [hP, ← hnamed]
      have hne : (y.registry.problems k).pool ≠ 0 := hpool ▸ L.board.addresses_ne.2.2.2.1.symm
      obtain hkept | ⟨-, hfrozen | ⟨-, hunfunded⟩⟩ := hmove.kept (registry_lawful hy.1) hne
      · rw [hkept]
        exact hP
      · rw [hfrozen]
        obtain hP | hP := hP <;> rw [hP] <;> exact Or.inr rfl
      · simp only [fundedBy, hpool, if_true, hy.2, Option.some.injEq, Bool.true_eq_false] at hunfunded

/-! ### Main result -/

/-- What holds of a board when ETH is booked. -/
structure Launched (L : Listing) (x : Listed) : Prop where
  registry : x.board.pool.registry ≠ 0
  numbered : 1 ≤ x.board.pool.problemId ∧ x.board.pool.problemId ≤ x.registry.problemCount
  names : (x.registry.problems x.board.pool.problemId).pool = L.board.pool
  frozen : (x.registry.problems x.board.pool.problemId).frozen = true
  complete : (x.registry.problems x.board.pool.problemId).toProblemConfig.Complete
  opened : x.board.ledger.closed = false
  inTime : x.board.block.timestamp ≤ PayoutLedger.fundingDeadline L.board
  accepting : x.board.pool.acceptingFunds = true
  recorder : x.board.ledger.creditRecorder = x.board.pool.submissionManager ∧
    x.board.pool.submissionManager ≠ 0
  armed : x.board.pool.submissionManager = L.board.submissionManager →
    x.board.sm.fundingArmed = true ∧ x.board.block.timestamp ≤ x.board.sm.fundingAuthorizationExpiresAt

/-- What holds for ever after: the problem of the pool and every other problem that names the pool, also
one that is registered later, stay as they are, but for a freeze. -/
structure Locked (L : Listing) (x y : Listed) : Prop where
  registry : y.board.pool.registry = L.registry
  problemId : y.board.pool.problemId = x.board.pool.problemId
  problem : y.registry.problems x.board.pool.problemId = x.registry.problems x.board.pool.problemId
  named : ∀ as z, L.system.Run Free y as z → ∀ k, (y.registry.problems k).pool = L.board.pool →
    z.registry.problems k = y.registry.problems k ∨
      z.registry.problems k = { y.registry.problems k with frozen := true }

theorem launched (hreach : L.system.Reachable Free x) (hstep : L.system.step x a = some x')
    (hfunded : x.board.pool.totalFunded < x'.board.pool.totalFunded)
    (hregistry : x.board.pool.registry = L.registry) : Launched L x := by
  have hboard := board_reachable hreach
  have hlaws := registry_lawful hreach
  obtain ⟨b, hb, -⟩ | ⟨hb, -⟩ := step_cases hstep
  · obtain ⟨sender, value, ext, q, haction, -, hguards⟩ := funded_of_step hboard hb hfunded
    obtain ⟨ext₀, rfl⟩ : ∃ ext₀, ext = answeredBy L.registry x.registry ext₀ := by
      cases b <;> cases haction
      exact ⟨_, rfl⟩
    have hnames := hguards.binding
    have hfrozen := hguards.frozen
    simp only [answeredBy, hregistry, if_true] at hnames hfrozen
    have hknown : (x.registry.problems x.board.pool.problemId).pool ≠ 0 := by
      intro hzero
      simp only [P42ProblemRegistry.problemPool, P42ProblemRegistry.requireExisting, hzero, revertIf, if_true]
        at hnames
      exact L.board.addresses_ne.2.2.2.1 hnames
    have hexisting : x.registry.requireExisting x.board.pool.problemId =
        .ok (x.registry.problems x.board.pool.problemId) :=
      P42ProblemRegistry.requireExisting_eq_ok.mpr ⟨hknown, rfl⟩
    rw [P42ProblemRegistry.problemPool, hexisting] at hnames
    rw [P42ProblemRegistry.explicitlyFrozen, hexisting] at hfrozen
    have hwired := acceptingWired_of_reachable hboard hguards.accepting
    refine ⟨hguards.registrySet, (hlaws.numbered _).mp hknown, hnames, hfrozen, hlaws.complete _ hknown,
      hguards.opened, hguards.inTime, hguards.accepting, hwired, fun hmanager => ?_⟩
    exact armed_of_funded hboard hb hfunded (hwired.1.trans hmanager)
  · rw [hb] at hfunded
    exact absurd hfunded (lt_irrefl _)

/-- **Funding locks the problem.**  When ETH is booked, the problem of the pool is frozen and names the
pool, the ledger is open and in time, and the manager is armed; from then on the problem never changes, and
no call on any number rewrites a problem that names the pool. -/
theorem funding_locks (hreach : L.system.Reachable Free x) (hstep : L.system.step x a = some x')
    (hfunded : x.board.pool.totalFunded < x'.board.pool.totalFunded)
    (hregistry : x.board.pool.registry = L.registry) :
    Launched L x ∧ ∀ as y, L.system.Run Free x' as y → Locked L x y := by
  have hlaunched := launched hreach hstep hfunded hregistry
  have hreach' : L.system.Reachable Free x' := hreach.step trivial hstep
  have hanchored := anchored_step hreach hstep
  obtain ⟨hsame, hid⟩ := hanchored.registry hlaunched.registry
  have hflag := hanchored.booked hfunded
  have hset : x'.board.pool.registry ≠ 0 := hsame ▸ hlaunched.registry
  refine ⟨hlaunched, fun as y hrun => ?_⟩
  obtain ⟨hsame', hid', hflag'⟩ := anchored_run hreach' hset hflag hrun
  have hproblem := frozen_kept hreach (.step trivial hstep hrun) hlaunched.frozen
  refine ⟨(hsame'.trans hsame).trans hregistry, hid'.trans hid, hproblem, fun bs z hrun' k hnamed => ?_⟩
  exact named_kept (hreach'.run hrun) hflag' hrun' hnamed

/-- The only call that rewrites a problem is the owner's, while its pool says that it was never funded. -/
theorem problem_step (hreach : L.system.Reachable Free x) (h : L.system.step x a = some x') {k : ℕ}
    (hpool : (x.registry.problems k).pool ≠ 0) :
    x'.registry.problems k = x.registry.problems k ∨ (x.registry.problems k).frozen = false ∧
      (x'.registry.problems k = { x.registry.problems k with frozen := true } ∨
        ∃ views c, a = .registry x.registry.owner views c ∧
          (fundedBy L.board.pool x.board.pool views).everFunded (x.registry.problems k).pool = some false) := by
  obtain ⟨_, -, hr⟩ | ⟨-, sender, views, ⟨c, rfl⟩, hmove⟩ := step_cases h
  · rw [hr]
    exact Or.inl rfl
  · obtain hkept | ⟨hopen, hfrozen | ⟨hsender, hunfunded⟩⟩ := hmove.kept (registry_lawful hreach) hpool
    · exact Or.inl hkept
    · exact Or.inr ⟨hopen, Or.inl hfrozen⟩
    · obtain rfl : sender = x.registry.owner := hsender
      exact Or.inr ⟨hopen, Or.inr ⟨views, c, rfl, hunfunded⟩⟩

theorem count_run {as : List ListedAction} (hrun : L.system.Run Free x as x') :
    x.registry.problemCount ≤ x'.registry.problemCount := by
  refine hrun.invariant (P := fun y => x.registry.problemCount ≤ y.registry.problemCount)
    (fun y b z hP _ hs => ?_) le_rfl
  obtain ⟨_, -, hr⟩ | ⟨-, _, _, -, hmove⟩ := step_cases hs
  · rw [hr]
    exact hP
  · exact hP.trans hmove.count

/-- **The catalogue.**  Whatever is called on the board and the registry, the numbers given out are
`1, …, problemCount`, each with a complete problem that the log tells of; a number stays given out, a frozen
problem stays as it is, and another is rewritten by the owner alone while its pool was never funded. -/
theorem registry_catalogue (hreach : L.system.Reachable Free x) :
    x.registry.RegistryLaws ∧
    (∀ as y, L.system.Run Free x as y → x.registry.problemCount ≤ y.registry.problemCount ∧
      ∀ k, (x.registry.problems k).frozen = true → y.registry.problems k = x.registry.problems k) ∧
    ∀ a y, L.system.step x a = some y → ∀ k, (x.registry.problems k).pool ≠ 0 →
      y.registry.problems k = x.registry.problems k ∨ (x.registry.problems k).frozen = false ∧
        (y.registry.problems k = { x.registry.problems k with frozen := true } ∨
          ∃ views c, a = .registry x.registry.owner views c ∧
            (fundedBy L.board.pool x.board.pool views).everFunded (x.registry.problems k).pool = some false) :=
  ⟨registry_lawful hreach, fun _ _ hrun => ⟨count_run hrun, fun _ hfrozen => frozen_kept hreach hrun hfrozen⟩,
    fun _ _ hstep _ hpool => problem_step hreach hstep hpool⟩

/-- A registry and a board whose pool is registered under the number 1. -/
def listing : Listing := ⟨Sample.board, 0xee⟩

def listedConfig : ProblemConfig where
  specHash := 1
  verifierSourceHash := 2
  verifierImageHash := 3
  admissionMatrixHash := 4
  metadataURI := [0x61]
  pool := Sample.board.pool
  ledger := Sample.board.ledger
  submissionManager := Sample.board.submissionManager
  challengeManager := Sample.board.challengeManager
  challengeWindowSeconds := Sample.window
  minImprovementAtoms := 1

def listedStart : Listed := ⟨Sample.genesis, { owner := Sample.owner }⟩

theorem listedStart_init : listing.system.init listedStart :=
  ⟨Sample.genesis_init.1, Sample.owner, rfl⟩

/-- The problem is registered and frozen, and the board is armed. -/
def launchRun : List ListedAction :=
  [.registry Sample.owner {} (.registerExpected listedConfig 1), .registry Sample.owner {} (.freeze 1)] ++
    Sample.armingRun.map .board ++
    [.board (.call Sample.owner 0 Sample.live (.pool (.setRegistry 0xee 1))),
      .board (.call Sample.owner 0 Sample.live (.ledger (.setRolloverDestination Sample.vault))),
      .board (.call Sample.owner 0 Sample.live (.pool (.setAcceptingFunds true)))]

def fundAction : ListedAction := .board (.call Sample.sponsor 1000 Sample.live (.pool .fund))

theorem funding_locks_sample : ∃ x x', listing.system.exec listedStart launchRun = some x ∧
    x.board.pool.totalFunded < x'.board.pool.totalFunded ∧ Launched listing x ∧
      ∀ as y, listing.system.Run Free x' as y → Locked listing x y := by
  have hrun : (listing.system.exec listedStart launchRun).map (fun x =>
      (listing.system.step x fundAction).map fun x' =>
        decide (x.board.pool.totalFunded < x'.board.pool.totalFunded ∧
          x.board.pool.registry = listing.registry)) = some (some true) := by decide +kernel
  obtain ⟨x, hx, hstep⟩ := Option.map_eq_some_iff.mp hrun
  obtain ⟨x', hx', hfacts⟩ := Option.map_eq_some_iff.mp hstep
  obtain ⟨hfunded, hregistry⟩ := of_decide_eq_true hfacts
  exact ⟨x, x', hx, hfunded, funding_locks (.of_exec listedStart_init hx) hx' hfunded hregistry⟩

theorem registry_catalogue_sample : ∃ x, listing.system.exec listedStart launchRun = some x ∧
    x.registry.RegistryLaws ∧
    (∀ as y, listing.system.Run Free x as y → x.registry.problemCount ≤ y.registry.problemCount ∧
      ∀ k, (x.registry.problems k).frozen = true → y.registry.problems k = x.registry.problems k) ∧
    ∀ a y, listing.system.step x a = some y → ∀ k, (x.registry.problems k).pool ≠ 0 →
      y.registry.problems k = x.registry.problems k ∨ (x.registry.problems k).frozen = false ∧
        (y.registry.problems k = { x.registry.problems k with frozen := true } ∨
          ∃ views c, a = .registry x.registry.owner views c ∧
            (fundedBy listing.board.pool x.board.pool views).everFunded (x.registry.problems k).pool =
              some false) := by
  have hrun : (listing.system.exec listedStart launchRun).isSome = true := by decide +kernel
  obtain ⟨x, hx⟩ := Option.isSome_iff_exists.mp hrun
  exact ⟨x, hx, registry_catalogue (.of_exec listedStart_init hx)⟩

end P42Prizes.Registry
