import P42Prizes.LogScan

/-! # The chunked scan is exact

A `Chain` is the list of matching logs of one state of the chain; a reader that answers truthfully shows
the logs of the chain of the moment.  The scan of one chain that does not change collects exactly its logs
(`scan_fixed`).  When the chain changes between two chunks, the logs of their overlap that were collected are
those of the earlier chunk (`Tracks`), and the comparison finds any difference (`scan_reading`). -/

namespace P42Prizes.LogScan

open Reverting

/-! ### Chains -/

/-- What identifies a log. -/
def Log.identity (log : Log) : Identity := ⟨(log.transactionHash.getD "").toLower, log.position.getD 0⟩

/-- The log has a transaction hash and an index. -/
def Log.Identified (log : Log) : Prop := log.transactionHash.isSome ∧ log.position.isSome

/-- The matching logs of one state of the chain. -/
structure Chain where
  logs : List Log
  identified : ∀ log ∈ logs, log.Identified
  distinct : (logs.map Log.identity).Nodup

def Chain.within (c : Chain) (start stop : ℕ) : List Log := c.logs.filter (Log.within start stop)

/-- The block of a log is the same, up to the spelling of its hash. -/
def SameBlock (left right : Log) : Prop :=
  left.blockNumber = right.blockNumber ∧ left.blockHash.toLower = right.blockHash.toLower

instance (left right : Log) : Decidable (SameBlock left right) := inferInstanceAs (Decidable (_ ∧ _))

/-- A log of the blocks `start..stop` appeared, disappeared or moved to another block. -/
def Changed (before after : Chain) (start stop : ℕ) : Prop :=
  (∃ log ∈ before.within start stop, ∀ log' ∈ after.logs, log'.identity = log.identity → ¬ SameBlock log log') ∨
    ∃ log' ∈ after.within start stop, ∀ log ∈ before.logs, log.identity = log'.identity → ¬ SameBlock log log'

/-- Every answer shows the logs of the chain of the moment, in any order. -/
def Truthful (chains : ℕ → Chain) (read : Reader) : Prop :=
  ∀ n start stop logs, read n start stop = .ok logs → (logs.getD []).Perm ((chains n).within start stop)

/-- The node answers one of any `maxRetries` calls in a row. -/
def Persistent (policy : FinalityPolicy) (read : Reader) : Prop :=
  ∀ n start stop, ∃ i < policy.maxRetries, ∃ logs, read (n + i) start stop = .ok logs

/-- The computation ends with a `ReorgDetectedError`. -/
def Reorgs {α : Type} (x : Except ScanError α) : Prop := ∃ reason, x = .error (.reorg reason)

section

variable {log log' : Log} {logs : List Log} {m m' : ByIdentity} {start stop : ℕ}

theorem mem_within {c : Chain} : log ∈ c.within start stop ↔
    log ∈ c.logs ∧ start ≤ log.blockNumber ∧ log.blockNumber ≤ stop := by
  rw [Chain.within, List.mem_filter, Log.within, Bool.and_eq_true, decide_eq_true_iff, decide_eq_true_iff]

theorem Chain.eq_of_identity {c : Chain} (h : log ∈ c.logs) (h' : log' ∈ c.logs)
    (heq : log.identity = log'.identity) : log = log' := List.inj_on_of_nodup_map c.distinct h h' heq

theorem logIdentity_eq (h : log.Identified) : logIdentity log = .ok log.identity := by
  obtain ⟨txHash, htx⟩ := Option.isSome_iff_exists.mp h.1
  obtain ⟨index, hindex⟩ := Option.isSome_iff_exists.mp h.2
  simp only [logIdentity, Log.identity, htx, hindex, Option.getD_some]

theorem compareLogCanonicality_self : compareLogCanonicality log log = true := by
  simp [compareLogCanonicality]

/-- Two logs with one identity differ by their block. -/
theorem compareLogCanonicality_iff (h : log.Identified) (h' : log'.Identified)
    (heq : log'.identity = log.identity) : compareLogCanonicality log log' = true ↔ SameBlock log log' := by
  obtain ⟨txHash, htx⟩ := Option.isSome_iff_exists.mp h.1
  obtain ⟨txHash', htx'⟩ := Option.isSome_iff_exists.mp h'.1
  have hhash := congrArg Identity.txHash heq
  simp only [Log.identity, htx, htx', Option.getD_some] at hhash
  simp only [compareLogCanonicality, SameBlock, htx, htx', Option.getD_some, hhash, decide_true, Bool.and_true,
    Bool.and_eq_true, decide_eq_true_iff]

theorem identified_eq (h : ∀ log ∈ logs, log.Identified) :
    identified logs = .ok (logs.map fun log => (log.identity, log)) := by
  induction logs with
  | nil => rfl
  | cons log logs ih =>
      obtain ⟨hlog, hlogs⟩ := List.forall_mem_cons.mp h
      have hrest := ih hlogs
      unfold identified at hrest ⊢
      rw [List.mapM_cons, hrest, logIdentity_eq hlog]
      rfl

/-! ### The comparison of an overlap -/

theorem Reorgs.bind {α β : Type} {x : Except ScanError α} (h : Reorgs x) (f : α → Except ScanError β) :
    Reorgs (x >>= f) := by
  obtain ⟨reason, rfl⟩ := h
  exact ⟨reason, rfl⟩

theorem checkExpected_cases (start overlapEnd : ℕ) (observed : ByIdentity) (entries : List (Identity × Log)) :
    (checkExpected start overlapEnd observed entries = .ok () ∧
      ∀ e ∈ entries, ∃ log, observed.get e.1 = some log ∧ compareLogCanonicality e.2 log = true) ∨
    Reorgs (checkExpected start overlapEnd observed entries) ∧
      ¬ ∀ e ∈ entries, ∃ log, observed.get e.1 = some log ∧ compareLogCanonicality e.2 log = true := by
  induction entries with
  | nil => exact .inl ⟨rfl, fun _ h => by cases h⟩
  | cons e entries ih =>
      obtain ⟨identity, previous⟩ := e
      rw [List.forall_mem_cons]
      cases hget : observed.get identity with
      | none =>
          have hstep : checkExpected start overlapEnd observed ((identity, previous) :: entries) =
              .error (.reorg (.disappeared identity start overlapEnd)) := by
            rw [checkExpected, hget]
            rfl
          refine .inr ⟨⟨_, hstep⟩, fun h => ?_⟩
          obtain ⟨_, hsome, -⟩ := h.1
          cases hsome
      | some log =>
          cases hcompare : compareLogCanonicality previous log with
          | false =>
              have hstep : checkExpected start overlapEnd observed ((identity, previous) :: entries) =
                  .error (.reorg (.changed identity previous.blockHash log.blockHash)) := by
                rw [checkExpected, hget]
                dsimp only
                rw [hcompare]
                rfl
              refine .inr ⟨⟨_, hstep⟩, fun h => ?_⟩
              obtain ⟨log', hsome, htrue⟩ := h.1
              obtain rfl := Option.some_inj.mp hsome
              exact absurd (hcompare.symm.trans htrue) Bool.false_ne_true
          | true =>
              have hstep : checkExpected start overlapEnd observed ((identity, previous) :: entries) =
                  checkExpected start overlapEnd observed entries := by
                rw [checkExpected, hget]
                dsimp only
                rw [hcompare]
                rfl
              rw [hstep]
              rcases ih with ⟨hok, hall⟩ | ⟨herror, hnot⟩
              · exact .inl ⟨hok, ⟨log, rfl, hcompare⟩, hall⟩
              · exact .inr ⟨herror, fun h => hnot h.2⟩

theorem checkObserved_cases (start overlapEnd : ℕ) (expected : ByIdentity) (keys : List Identity) :
    (checkObserved start overlapEnd expected keys = .ok () ∧ ∀ k ∈ keys, expected.get k ≠ none) ∨
    Reorgs (checkObserved start overlapEnd expected keys) ∧ ¬ ∀ k ∈ keys, expected.get k ≠ none := by
  induction keys with
  | nil => exact .inl ⟨rfl, fun _ h => by cases h⟩
  | cons k keys ih =>
      rw [List.forall_mem_cons]
      by_cases hget : expected.get k = none
      · have hstep : checkObserved start overlapEnd expected (k :: keys) =
            .error (.reorg (.appeared k start overlapEnd)) := by
          rw [checkObserved, revertIf, if_pos hget]
          rfl
        exact .inr ⟨⟨_, hstep⟩, fun h => h.1 hget⟩
      · have hstep : checkObserved start overlapEnd expected (k :: keys) =
            checkObserved start overlapEnd expected keys := by
          rw [checkObserved, revertIf, if_neg hget]
          rfl
        rw [hstep]
        rcases ih with ⟨hok, hall⟩ | ⟨herror, hnot⟩
        · exact .inl ⟨hok, hget, hall⟩
        · exact .inr ⟨herror, fun h => hnot h.2⟩

/-- What was collected of the blocks `start..stop` is what the logs show of them. -/
def Agree (m : ByIdentity) (logs : List Log) (start stop : ℕ) : Prop :=
  (∀ k previous, m.get k = some previous → previous.within start stop = true →
    ∃ log ∈ logs, log.within start stop = true ∧ log.identity = k ∧ compareLogCanonicality previous log = true) ∧
    ∀ log ∈ logs, log.within start stop = true →
      ∃ previous, m.get log.identity = some previous ∧ previous.within start stop = true

theorem nodup_pairs (h : (logs.map Log.identity).Nodup) :
    ((logs.map fun log => (log.identity, log)).map Prod.fst).Nodup := by
  rw [List.map_map]
  exact h

/-- The comparison of an overlap passes exactly when both sides agree. -/
theorem checkOverlap_cases (hidentified : ∀ log ∈ logs, log.Identified) (hdistinct : (logs.map Log.identity).Nodup) :
    (checkOverlap start stop m logs = .ok () ∧ Agree m logs start stop) ∨
      Reorgs (checkOverlap start stop m logs) ∧ ¬ Agree m logs start stop := by
  let seen := logs.filter (Log.within start stop)
  have hsub : (seen.map Log.identity).Nodup := hdistinct.sublist (List.filter_sublist.map _)
  have hseen : ∀ log ∈ seen, log.Identified := fun log hlog => hidentified log (List.mem_filter.mp hlog).1
  let observed : ByIdentity := .ofList (seen.map fun log => (log.identity, log))
  let expected : ByIdentity := m.filter fun entry => entry.2.within start stop
  have hobserved : ∀ k log, observed.get k = some log ↔
      log ∈ logs ∧ log.within start stop = true ∧ log.identity = k := by
    intro k log
    rw [InsertionMap.get_ofList (nodup_pairs hsub), List.mem_map]
    constructor
    · rintro ⟨log', hmem, heq⟩
      obtain ⟨rfl, rfl⟩ := Prod.mk.inj heq
      exact ⟨(List.mem_filter.mp hmem).1, (List.mem_filter.mp hmem).2, rfl⟩
    · rintro ⟨hmem, hwithin, rfl⟩
      exact ⟨log, List.mem_filter.mpr ⟨hmem, hwithin⟩, rfl⟩
  have hexpected : ∀ k log, expected.get k = some log ↔ m.get k = some log ∧ log.within start stop = true :=
    fun _ _ => InsertionMap.get_filter
  have hcheck : checkOverlap start stop m logs = (do
      checkExpected start stop observed expected.entries
      checkObserved start stop expected observed.keys) := by
    unfold checkOverlap
    rw [identified_eq hseen]
    rfl
  have hfirst : (∀ e ∈ expected.entries, ∃ log, observed.get e.1 = some log ∧
      compareLogCanonicality e.2 log = true) ↔ ∀ k previous, m.get k = some previous →
      previous.within start stop = true → ∃ log ∈ logs, log.within start stop = true ∧ log.identity = k ∧
        compareLogCanonicality previous log = true := by
    constructor
    · intro h k previous hget hwithin
      obtain ⟨log, hlog, hcompare⟩ := h (k, previous) (InsertionMap.mem_entries.mpr ((hexpected _ _).mpr ⟨hget, hwithin⟩))
      obtain ⟨hmem, hin, hkey⟩ := (hobserved _ _).mp hlog
      exact ⟨log, hmem, hin, hkey, hcompare⟩
    · rintro h ⟨k, previous⟩ hmem
      obtain ⟨hget, hwithin⟩ := (hexpected _ _).mp (InsertionMap.mem_entries.mp hmem)
      obtain ⟨log, hlog, hin, hkey, hcompare⟩ := h k previous hget hwithin
      exact ⟨log, (hobserved _ _).mpr ⟨hlog, hin, hkey⟩, hcompare⟩
  have hsecond : (∀ k ∈ observed.keys, expected.get k ≠ none) ↔ ∀ log ∈ logs, log.within start stop = true →
      ∃ previous, m.get log.identity = some previous ∧ previous.within start stop = true := by
    constructor
    · intro h log hmem hwithin
      obtain ⟨previous, hprevious⟩ := Option.ne_none_iff_exists'.mp
        (h log.identity (InsertionMap.mem_keys.mpr ⟨log, (hobserved _ _).mpr ⟨hmem, hwithin, rfl⟩⟩))
      exact ⟨previous, (hexpected _ _).mp hprevious⟩
    · intro h k hk
      obtain ⟨log, hlog⟩ := InsertionMap.mem_keys.mp hk
      obtain ⟨hmem, hwithin, rfl⟩ := (hobserved _ _).mp hlog
      obtain ⟨previous, hprevious⟩ := h log hmem hwithin
      exact Option.ne_none_iff_exists'.mpr ⟨previous, (hexpected _ _).mpr hprevious⟩
  rw [hcheck, Agree, ← hfirst, ← hsecond]
  rcases checkExpected_cases start stop observed expected.entries with ⟨hok, hall⟩ | ⟨herror, hnot⟩
  · rw [hok]
    rcases checkObserved_cases start stop expected observed.keys with ⟨hok', hall'⟩ | ⟨herror', hnot'⟩
    · exact .inl ⟨hok', hall, hall'⟩
    · exact .inr ⟨herror', fun h => hnot' h.2⟩
  · exact .inr ⟨herror.bind _, fun h => hnot h.1⟩

/-! ### Recording a chunk -/

/-- The logs of a chunk do not contradict what was collected. -/
def Compatible (m : ByIdentity) (logs : List Log) : Prop :=
  ∀ log ∈ logs, ∀ previous, m.get log.identity = some previous → compareLogCanonicality previous log = true

theorem checkPrevious_cases (identity : Identity) (log : Log) (o : Option Log) :
    (checkPrevious identity log o = .ok () ∧ ∀ previous, o = some previous →
      compareLogCanonicality previous log = true) ∨
    Reorgs (checkPrevious identity log o) ∧ ∃ previous, o = some previous ∧
      compareLogCanonicality previous log = false := by
  cases o with
  | none => exact .inl ⟨rfl, fun _ h => by cases h⟩
  | some previous =>
      rw [checkPrevious, revertIf]
      cases hcompare : compareLogCanonicality previous log with
      | false => exact .inr ⟨⟨_, rfl⟩, previous, rfl, hcompare⟩
      | true =>
          refine .inl ⟨rfl, fun previous' heq => ?_⟩
          rw [← Option.some_inj.mp heq]
          exact hcompare

theorem recordLogs_cons (hlog : log.Identified) : recordLogs (log :: logs) m = (do
      checkPrevious log.identity log (m.get log.identity)
      recordLogs logs (m.set log.identity log)) := by
  rw [recordLogs, logIdentity_eq hlog]
  rfl

/-- The logs of a chunk are recorded unless they contradict what was collected. -/
theorem recordLogs_cases (hidentified : ∀ log ∈ logs, log.Identified) (hdistinct : (logs.map Log.identity).Nodup)
    (m : ByIdentity) :
    (Compatible m logs ∧ ∃ m', recordLogs logs m = .ok m' ∧ ∀ k log, m'.get k = some log ↔
      log ∈ logs ∧ log.identity = k ∨ k ∉ logs.map Log.identity ∧ m.get k = some log) ∨
    Reorgs (recordLogs logs m) ∧ ¬ Compatible m logs := by
  induction logs generalizing m with
  | nil =>
      refine .inl ⟨fun _ h => (by cases h), m, rfl, fun k log => ?_⟩
      simp
  | cons log logs ih =>
      obtain ⟨hlog, hlogs⟩ := List.forall_mem_cons.mp hidentified
      obtain ⟨hnot, hdistinct⟩ := List.nodup_cons.mp hdistinct
      rw [recordLogs_cons hlog, Compatible, List.forall_mem_cons]
      rcases checkPrevious_cases log.identity log (m.get log.identity) with ⟨hok, hfirst⟩ | ⟨herror, hfirst⟩
      · rw [hok, and_iff_right hfirst]
        -- the other logs have other identities
        have hother : ∀ log' ∈ logs, (m.set log.identity log).get log'.identity = m.get log'.identity :=
          fun log' hmem => InsertionMap.get_set_of_ne fun heq => hnot (heq ▸ List.mem_map_of_mem hmem)
        have hiff : Compatible m logs ↔ Compatible (m.set log.identity log) logs :=
          forall₂_congr fun log' hmem => by rw [hother log' hmem]
        rw [← Compatible, hiff]
        rcases ih hlogs hdistinct (m.set log.identity log) with ⟨hcompatible, m', hm', hget⟩ | hrest
        · refine .inl ⟨hcompatible, m', hm', fun k log' => (hget k log').trans ?_⟩
          rw [List.map_cons, List.mem_cons, List.mem_cons]
          by_cases hk : k = log.identity
          · subst hk
            rw [InsertionMap.get_set_self, Option.some_inj]
            constructor
            · rintro (⟨hmem, heq⟩ | ⟨-, rfl⟩)
              · exact .inl ⟨.inr hmem, heq⟩
              · exact .inl ⟨.inl rfl, rfl⟩
            · rintro (⟨rfl | hmem, heq⟩ | ⟨hno, -⟩)
              · exact .inr ⟨hnot, rfl⟩
              · exact .inl ⟨hmem, heq⟩
              · exact absurd (.inl rfl) hno
          · rw [InsertionMap.get_set_of_ne hk, or_iff_right hk]
            constructor
            · rintro (⟨hmem, heq⟩ | hold)
              · exact .inl ⟨.inr hmem, heq⟩
              · exact .inr hold
            · rintro (⟨rfl | hmem, heq⟩ | hold)
              · exact absurd heq.symm hk
              · exact .inl ⟨hmem, heq⟩
              · exact .inr hold
        · exact .inr hrest
      · obtain ⟨previous, hget, hcompare⟩ := hfirst
        refine .inr ⟨herror.bind _, fun h => ?_⟩
        exact Bool.false_ne_true (hcompare.symm.trans (h.1 previous hget))

/-! ### Reading a chunk -/

variable {policy : FinalityPolicy} {read : Reader} {toBlock calls calls' left : ℕ} {chains : ℕ → Chain}

/-- The logs of a chunk come from the last call. -/
theorem readLogs_ok (h : readLogs policy read start stop left calls = .ok (logs, calls')) :
    ∃ answer, read (calls' - 1) start stop = .ok answer ∧ logs = answer.getD [] := by
  induction left generalizing calls with
  | zero =>
      unfold readLogs at h
      split at h
      · next answer hanswer =>
          cases h
          exact ⟨answer, hanswer, rfl⟩
      · cases h
  | succ left ih =>
      unfold readLogs at h
      split at h
      · next answer hanswer =>
          cases h
          exact ⟨answer, hanswer, rfl⟩
      · exact ih h

/-- One of the attempts is answered. -/
theorem readLogs_persistent (h : ∃ i ≤ left, ∃ answer, read (calls + i) start stop = .ok answer) :
    ∃ logs calls', readLogs policy read start stop left calls = .ok (logs, calls') := by
  obtain ⟨i, hi, answer, hanswer⟩ := h
  induction left generalizing calls i with
  | zero =>
      obtain rfl : i = 0 := Nat.le_zero.mp hi
      unfold readLogs
      rw [Nat.add_zero] at hanswer
      rw [hanswer]
      exact ⟨_, _, rfl⟩
  | succ left ih =>
      unfold readLogs
      cases hnow : read calls start stop with
      | ok logs => exact ⟨_, _, rfl⟩
      | error message =>
          cases i with
          | zero => cases hnow.symm.trans hanswer
          | succ i =>
              have hnext : calls + (i + 1) = calls + 1 + i := by omega
              rw [hnext] at hanswer
              exact ih i (Nat.le_of_succ_le_succ hi) hanswer

/-- The logs of a chunk, and the chain they were read from. -/
theorem readLogs_truthful (hread : Truthful chains read)
    (h : readLogs policy read start stop left calls = .ok (logs, calls')) :
    logs.Perm ((chains (calls' - 1)).within start stop) := by
  obtain ⟨answer, hanswer, rfl⟩ := readLogs_ok h
  exact hread _ _ _ _ hanswer

theorem perm_identified {c : Chain} (h : logs.Perm (c.within start stop)) : ∀ log ∈ logs, log.Identified :=
  fun log hmem => c.identified log (mem_within.mp (h.mem_iff.mp hmem)).1

theorem perm_distinct {c : Chain} (h : logs.Perm (c.within start stop)) : (logs.map Log.identity).Nodup :=
  (h.map Log.identity).nodup_iff.mpr (c.distinct.sublist (List.filter_sublist.map _))

theorem perm_mem {c : Chain} (h : logs.Perm (c.within start stop)) :
    log ∈ logs ↔ log ∈ c.logs ∧ start ≤ log.blockNumber ∧ log.blockNumber ≤ stop := h.mem_iff.trans mem_within

/-- The comparison with what was read before, if anything was. -/
def AgreeUpTo (m : ByIdentity) (logs : List Log) (start stop : ℕ) (previousEnd : Option ℕ) : Prop :=
  ∀ e, previousEnd = some e → Agree m logs start (min e stop)

theorem checkPreviousEnd_cases (hidentified : ∀ log ∈ logs, log.Identified)
    (hdistinct : (logs.map Log.identity).Nodup) (previousEnd : Option ℕ) :
    (checkPreviousEnd start stop m logs previousEnd = .ok () ∧ AgreeUpTo m logs start stop previousEnd) ∨
      Reorgs (checkPreviousEnd start stop m logs previousEnd) ∧ ¬ AgreeUpTo m logs start stop previousEnd := by
  cases previousEnd with
  | none => exact .inl ⟨rfl, fun _ h => by cases h⟩
  | some e =>
      have hiff : AgreeUpTo m logs start stop (some e) ↔ Agree m logs start (min e stop) :=
        ⟨fun h => h e rfl, fun h e' heq => Option.some_inj.mp heq ▸ h⟩
      rw [hiff]
      exact checkOverlap_cases hidentified hdistinct

/-- One round of the loop, when the chunk is read: the overlap agrees and the logs are recorded, or it
reports a reorg. -/
theorem scanChunk_cases {c : Chain} (previousEnd : Option ℕ)
    (hread : readLogs policy read start (chunkEnd policy toBlock start) (policy.maxRetries - 1) calls =
      .ok (logs, calls')) (hlogs : logs.Perm (c.within start (chunkEnd policy toBlock start))) :
    ((AgreeUpTo m logs start (chunkEnd policy toBlock start) previousEnd ∧ Compatible m logs) ∧
      ∃ m', scanChunk policy read toBlock start previousEnd m calls = .ok (m', calls') ∧
        ∀ k log, m'.get k = some log ↔
          log ∈ logs ∧ log.identity = k ∨ k ∉ logs.map Log.identity ∧ m.get k = some log) ∨
    Reorgs (scanChunk policy read toBlock start previousEnd m calls) ∧
      ¬ (AgreeUpTo m logs start (chunkEnd policy toBlock start) previousEnd ∧ Compatible m logs) := by
  have hchunk : scanChunk policy read toBlock start previousEnd m calls = (do
      checkPreviousEnd start (chunkEnd policy toBlock start) m logs previousEnd
      let byIdentity ← recordLogs logs m
      pure (byIdentity, calls')) := by
    unfold scanChunk
    dsimp only
    rw [hread]
    rfl
  rw [hchunk]
  rcases checkPreviousEnd_cases (perm_identified hlogs) (perm_distinct hlogs) previousEnd with
    ⟨hok, hagree⟩ | ⟨herror, hnot⟩
  · rw [hok]
    rcases recordLogs_cases (perm_identified hlogs) (perm_distinct hlogs) m with
      ⟨hcompatible, m', hm', hget⟩ | ⟨herror, hnot⟩
    · refine .inl ⟨⟨hagree, hcompatible⟩, m', ?_, hget⟩
      rw [hm']
      rfl
    · exact .inr ⟨herror.bind _, fun h => hnot h.2⟩
  · exact .inr ⟨herror.bind _, fun h => hnot h.1⟩

/-! ### A chain that does not change -/

/-- Exactly the logs of the blocks from `lo` to below `hi` are collected. -/
def Holds (c : Chain) (m : ByIdentity) (lo hi : ℕ) : Prop :=
  ∀ k log, m.get k = some log ↔ log ∈ c.logs ∧ log.identity = k ∧ lo ≤ log.blockNumber ∧ log.blockNumber < hi

theorem Holds.compatible {c : Chain} {lo hi : ℕ} (h : Holds c m lo hi) (hlogs : logs.Perm (c.within start stop)) :
    Compatible m logs := by
  intro log hmem previous hget
  obtain ⟨hprevious, hidentity, -⟩ := (h _ _).mp hget
  rw [c.eq_of_identity hprevious ((perm_mem hlogs).mp hmem).1 hidentity]
  exact compareLogCanonicality_self

theorem within_iff : log.within start stop = true ↔ start ≤ log.blockNumber ∧ log.blockNumber ≤ stop := by
  rw [Log.within, Bool.and_eq_true, decide_eq_true_iff, decide_eq_true_iff]

theorem Holds.agree {c : Chain} {lo e : ℕ} (h : Holds c m lo (e + 1)) (hlogs : logs.Perm (c.within start stop))
    (hstart : lo ≤ start) : Agree m logs start (min e stop) := by
  constructor
  · intro k previous hget hwithin
    obtain ⟨hmem, hidentity, -⟩ := (h _ _).mp hget
    obtain ⟨hlow, hhigh⟩ := within_iff.mp hwithin
    exact ⟨previous, (perm_mem hlogs).mpr ⟨hmem, hlow, hhigh.trans (min_le_right _ _)⟩, hwithin, hidentity,
      compareLogCanonicality_self⟩
  · intro log hmem hwithin
    obtain ⟨hlow, hhigh⟩ := within_iff.mp hwithin
    exact ⟨log, (h _ _).mpr ⟨((perm_mem hlogs).mp hmem).1, rfl, hstart.trans hlow,
      Nat.lt_succ_of_le (hhigh.trans (min_le_left _ _))⟩, hwithin⟩

/-- A chunk adds the logs of its blocks. -/
theorem Holds.extend {c : Chain} {lo hi : ℕ} (h : Holds c m lo hi) (hlogs : logs.Perm (c.within start stop))
    (hstart : lo ≤ start) (hmeet : start ≤ hi) (hstop : hi ≤ stop + 1)
    (hget : ∀ k log, m'.get k = some log ↔
      log ∈ logs ∧ log.identity = k ∨ k ∉ logs.map Log.identity ∧ m.get k = some log) :
    Holds c m' lo (stop + 1) := by
  intro k log
  rw [hget, h k log, perm_mem hlogs]
  constructor
  · rintro (⟨⟨hmem, hlow, hhigh⟩, hidentity⟩ | ⟨-, hmem, hidentity, hlow, hhigh⟩)
    · exact ⟨hmem, hidentity, hstart.trans hlow, Nat.lt_succ_of_le hhigh⟩
    · exact ⟨hmem, hidentity, hlow, hhigh.trans_le hstop⟩
  · rintro ⟨hmem, hidentity, hlow, hhigh⟩
    by_cases hnew : start ≤ log.blockNumber
    · exact .inl ⟨⟨hmem, hnew, Nat.le_of_lt_succ hhigh⟩, hidentity⟩
    · refine .inr ⟨fun hk => ?_, hmem, hidentity, hlow, by omega⟩
      obtain ⟨log', hmem', hidentity'⟩ := List.mem_map.mp hk
      obtain ⟨hmem', hlow', -⟩ := (perm_mem hlogs).mp hmem'
      rw [c.eq_of_identity hmem' hmem (hidentity'.trans hidentity.symm)] at hlow'
      exact hnew hlow'

/-- Where the scan is: at the first block, or behind the last chunk by the overlap. -/
def Position (policy : FinalityPolicy) (toBlock lo start hi : ℕ) : Option ℕ → Prop
  | none => start = lo ∧ hi = lo
  | some e => start = e - policy.reorgOverlapBlocks + 1 ∧ hi = e + 1 ∧ lo ≤ start ∧ e < toBlock ∧
      policy.logChunkSize ≤ e + 1

theorem Position.bounds {lo hi : ℕ} {previousEnd : Option ℕ}
    (h : Position policy toBlock lo start hi previousEnd) (hle : lo ≤ toBlock) :
    lo ≤ start ∧ start ≤ hi ∧ hi ≤ chunkEnd policy toBlock start + 1 ∧ start ≤ toBlock := by
  have hlt := policy.overlap_lt
  have hpos := policy.overlap_pos
  unfold chunkEnd
  cases previousEnd with
  | none =>
      obtain ⟨rfl, rfl⟩ := h
      omega
  | some e =>
      obtain ⟨hstart, hhi, hlo, he, hchunk⟩ := h
      omega

/-- The next chunk starts later. -/
theorem lt_next (hstart : start ≤ toBlock) (hend : chunkEnd policy toBlock start ≠ toBlock) :
    start < toBlock ∧ start < chunkEnd policy toBlock start - policy.reorgOverlapBlocks + 1 := by
  have hlt := policy.overlap_lt
  unfold chunkEnd at hend ⊢
  omega

theorem Position.next {lo hi : ℕ} {previousEnd : Option ℕ}
    (h : Position policy toBlock lo start hi previousEnd) (hle : lo ≤ toBlock)
    (hend : chunkEnd policy toBlock start ≠ toBlock) :
    Position policy toBlock lo (chunkEnd policy toBlock start - policy.reorgOverlapBlocks + 1)
      (chunkEnd policy toBlock start + 1) (some (chunkEnd policy toBlock start)) := by
  have hlt := policy.overlap_lt
  obtain ⟨hlo, -, -, hstart⟩ := h.bounds hle
  unfold chunkEnd at hend ⊢
  refine ⟨rfl, rfl, ?_, ?_, ?_⟩ <;> omega

theorem Persistent.readLogs (h : Persistent policy read) (start stop calls : ℕ) :
    ∃ logs calls', readLogs policy read start stop (policy.maxRetries - 1) calls = .ok (logs, calls') := by
  obtain ⟨i, hi, answer, hanswer⟩ := h calls start stop
  exact readLogs_persistent ⟨i, by omega, answer, hanswer⟩

theorem scan_chunk {previousEnd : Option ℕ} (hstart : start ≤ toBlock)
    (hchunk : scanChunk policy read toBlock start previousEnd m calls = .ok (m', calls')) :
    scan policy read toBlock start previousEnd m calls =
      if chunkEnd policy toBlock start = toBlock then .ok m'
      else scan policy read toBlock (chunkEnd policy toBlock start - policy.reorgOverlapBlocks + 1)
        (some (chunkEnd policy toBlock start)) m' calls' := by
  rw [scan, if_pos hstart, hchunk]
  by_cases hend : chunkEnd policy toBlock start = toBlock
  · rw [if_pos hend]
    exact dif_pos hend
  · rw [if_neg hend]
    exact dif_neg hend

/-- The scan of one chain. -/
theorem scan_fixed {c : Chain} (hread : Truthful (fun _ => c) read) (hpersistent : Persistent policy read) {lo : ℕ}
    (hle : lo ≤ toBlock) {hi : ℕ} {previousEnd : Option ℕ}
    (hposition : Position policy toBlock lo start hi previousEnd) (h : Holds c m lo hi) :
    ∃ m', scan policy read toBlock start previousEnd m calls = .ok m' ∧ Holds c m' lo (toBlock + 1) := by
  induction hn : toBlock - start using Nat.strong_induction_on generalizing start hi previousEnd m calls with
  | _ n ih =>
      obtain ⟨hlo, hmeet, hcover, hstart⟩ := hposition.bounds hle
      obtain ⟨logs, calls', hlogs⟩ := hpersistent.readLogs start (chunkEnd policy toBlock start) calls
      have hperm := readLogs_truthful hread hlogs
      have hagree : AgreeUpTo m logs start (chunkEnd policy toBlock start) previousEnd := by
        rintro e rfl
        obtain ⟨-, rfl, -⟩ := hposition
        exact h.agree hperm hlo
      obtain ⟨-, m', hchunk, hget⟩ := (scanChunk_cases previousEnd hlogs hperm).resolve_right
        fun hreorg => hreorg.2 ⟨hagree, h.compatible hperm⟩
      have hnext : Holds c m' lo (chunkEnd policy toBlock start + 1) := h.extend hperm hlo hmeet hcover hget
      rw [scan_chunk hstart hchunk]
      split
      · next hend =>
          rw [hend] at hnext
          exact ⟨m', rfl, hnext⟩
      · next hend =>
          obtain ⟨hmore, hlater⟩ := lt_next hstart hend
          exact ih _ (by omega) (hposition.next hle hend) hnext rfl

/-! ### A chain that changes -/

/-- A chunk that is read: its blocks, and the number of the call that answered. -/
structure Chunk where
  start : ℕ
  stop : ℕ
  call : ℕ

/-- The first chunks that are read, as long as nothing is reported. -/
inductive Reading (policy : FinalityPolicy) (read : Reader) (toBlock : ℕ) : ℕ → ℕ → List Chunk → Prop
  | nil (start calls : ℕ) : Reading policy read toBlock start calls []
  | cons {start calls calls' : ℕ} {logs : List Log} {chunks : List Chunk} : start ≤ toBlock →
      readLogs policy read start (chunkEnd policy toBlock start) (policy.maxRetries - 1) calls =
        .ok (logs, calls') →
      (chunkEnd policy toBlock start = toBlock → chunks = []) →
      Reading policy read toBlock (chunkEnd policy toBlock start - policy.reorgOverlapBlocks + 1) calls' chunks →
      Reading policy read toBlock start calls (⟨start, chunkEnd policy toBlock start, calls' - 1⟩ :: chunks)

/-- The logs are collected under their identities, and are below the block `hi`. -/
def Collected (m : ByIdentity) (hi : ℕ) : Prop :=
  ∀ k log, m.get k = some log → log.identity = k ∧ log.Identified ∧ log.blockNumber < hi

/-- What is collected from the block `start` on are the logs of the chain up to `stop`. -/
def Tracks (c : Chain) (m : ByIdentity) (start stop : ℕ) : Prop :=
  ∀ k log, m.get k = some log ∧ start ≤ log.blockNumber ↔ log ∈ c.within start stop ∧ log.identity = k

theorem Collected.extend {c : Chain} {hi : ℕ} (h : Collected m hi) (hlogs : logs.Perm (c.within start stop))
    (hstop : hi ≤ stop + 1) (hget : ∀ k log, m'.get k = some log ↔
      log ∈ logs ∧ log.identity = k ∨ k ∉ logs.map Log.identity ∧ m.get k = some log) :
    Collected m' (stop + 1) := by
  intro k log hlog
  rcases (hget k log).mp hlog with ⟨hmem, hidentity⟩ | ⟨-, hold⟩
  · exact ⟨hidentity, perm_identified hlogs log hmem, Nat.lt_succ_of_le ((perm_mem hlogs).mp hmem).2.2⟩
  · obtain ⟨hidentity, hidentified, hlow⟩ := h k log hold
    exact ⟨hidentity, hidentified, hlow.trans_le hstop⟩

/-- After a chunk, what is collected of its blocks is what it shows. -/
theorem tracks_of_chunk {c : Chain} {lo hi : ℕ} {previousEnd : Option ℕ} (hcollected : Collected m hi)
    (hposition : Position policy toBlock lo start hi previousEnd) (hle : lo ≤ toBlock)
    (hlogs : logs.Perm (c.within start (chunkEnd policy toBlock start)))
    (hagree : AgreeUpTo m logs start (chunkEnd policy toBlock start) previousEnd)
    (hget : ∀ k log, m'.get k = some log ↔
      log ∈ logs ∧ log.identity = k ∨ k ∉ logs.map Log.identity ∧ m.get k = some log) :
    Tracks c m' start (chunkEnd policy toBlock start) := by
  intro k log
  rw [hget, ← hlogs.mem_iff]
  constructor
  · rintro ⟨hnew | ⟨hnot, hold⟩, hstart⟩
    · exact hnew
    · obtain ⟨-, -, hlow⟩ := hcollected k log hold
      obtain ⟨-, -, hcover, -⟩ := hposition.bounds hle
      cases previousEnd with
      | none =>
          obtain ⟨rfl, rfl⟩ := hposition
          exact absurd hstart (not_le.mpr hlow)
      | some e =>
          -- an older log of the overlap is in the chunk again
          obtain ⟨-, rfl, -⟩ := hposition
          have hwithin : log.within start (min e (chunkEnd policy toBlock start)) = true :=
            within_iff.mpr ⟨hstart, le_min (Nat.le_of_lt_succ hlow) (by omega)⟩
          obtain ⟨log', hmem, -, hidentity, -⟩ := (hagree e rfl).1 k log hold hwithin
          exact absurd (List.mem_map.mpr ⟨log', hmem, hidentity⟩) hnot
  · rintro ⟨hmem, hidentity⟩
    exact ⟨.inl ⟨hmem, hidentity⟩, ((perm_mem hlogs).mp hmem).2.1⟩

/-- When the overlap agrees, the logs of its blocks have not changed. -/
theorem Tracks.unchanged {c c' : Chain} {e start' stop' : ℕ} (h : Tracks c m start e) (hstart : start ≤ start')
    (hstop : e ≤ stop') (hlogs : logs.Perm (c'.within start' stop')) (hagree : Agree m logs start' (min e stop')) :
    ¬ Changed c c' start' e := by
  rw [min_eq_left hstop] at hagree
  have hold : ∀ {k log}, log ∈ c.within start' e → log.identity = k → m.get k = some log := by
    intro k log hmem hidentity
    obtain ⟨hmem, hlow, hhigh⟩ := mem_within.mp hmem
    exact ((h k log).mpr ⟨mem_within.mpr ⟨hmem, hstart.trans hlow, hhigh⟩, hidentity⟩).1
  have hnew : ∀ {k previous}, m.get k = some previous → previous.within start' e = true → previous ∈ c.logs ∧
      previous.identity = k ∧ ∃ log' ∈ c'.logs, log'.identity = k ∧ SameBlock previous log' := by
    intro k previous hget hwithin
    obtain ⟨hmem, hidentity⟩ := (h k previous).mp ⟨hget, hstart.trans (within_iff.mp hwithin).1⟩
    obtain ⟨log', hmem', -, hidentity', hcompare⟩ := hagree.1 k previous hget hwithin
    have hmem := (mem_within.mp hmem).1
    have hmem' := ((perm_mem hlogs).mp hmem').1
    have hsame := hidentity'.trans hidentity.symm
    exact ⟨hmem, hidentity, log', hmem', hidentity',
      (compareLogCanonicality_iff (c.identified _ hmem) (c'.identified _ hmem') hsame).mp hcompare⟩
  rintro (⟨log, hlog, hno⟩ | ⟨log', hlog', hno⟩)
  · have hwithin := within_iff.mpr (mem_within.mp hlog).2
    obtain ⟨-, -, log', hmem', hidentity', hsame⟩ := hnew (hold hlog rfl) hwithin
    exact hno log' hmem' hidentity' hsame
  · obtain ⟨hmem', hlow, hhigh⟩ := mem_within.mp hlog'
    obtain ⟨previous, hget, hwithin⟩ := hagree.2 log' ((perm_mem hlogs).mpr ⟨hmem', hlow, hhigh.trans hstop⟩)
      (within_iff.mpr ⟨hlow, hhigh⟩)
    obtain ⟨hmem, hidentity, log'', hmem'', hidentity'', hsame⟩ := hnew hget hwithin
    rw [c'.eq_of_identity hmem'' hmem' hidentity''] at hsame
    exact hno previous hmem hidentity hsame

theorem scan_reorgs {previousEnd : Option ℕ} (hstart : start ≤ toBlock)
    (h : Reorgs (scanChunk policy read toBlock start previousEnd m calls)) :
    Reorgs (scan policy read toBlock start previousEnd m calls) := by
  rw [scan, if_pos hstart]
  exact h.bind _

/-- A change in the overlap of two chunks that are read one after the other is reported. -/
theorem scan_reading (hread : Truthful chains read) {lo hi : ℕ} (hle : lo ≤ toBlock) {previousEnd : Option ℕ}
    (hposition : Position policy toBlock lo start hi previousEnd) (hcollected : Collected m hi)
    {before after : List Chunk} {a b : Chunk}
    (hreading : Reading policy read toBlock start calls (before ++ a :: b :: after))
    (hchanged : Changed (chains a.call) (chains b.call) b.start a.stop) :
    Reorgs (scan policy read toBlock start previousEnd m calls) := by
  induction before generalizing start hi previousEnd m calls with
  | nil =>
      obtain _ | ⟨hstart, hlogs, hend, hrest⟩ := hreading
      have hmore : chunkEnd policy toBlock start ≠ toBlock := fun heq => by cases hend heq
      have hperm := readLogs_truthful hread hlogs
      rcases scanChunk_cases previousEnd hlogs hperm with ⟨⟨hagree, -⟩, m', hchunk, hget⟩ | ⟨hreorg, -⟩
      · rw [scan_chunk hstart hchunk, if_neg hmore]
        have htracks := tracks_of_chunk hcollected hposition hle hperm hagree hget
        have hnext := hposition.next hle hmore
        obtain _ | ⟨hstart', hlogs', -, -⟩ := hrest
        have hperm' := readLogs_truthful hread hlogs'
        rcases scanChunk_cases (m := m') (some (chunkEnd policy toBlock start)) hlogs' hperm' with
          ⟨⟨hagree', -⟩, -⟩ | ⟨hreorg, -⟩
        · obtain ⟨-, -, hcover, -⟩ := hnext.bounds hle
          exact absurd hchanged
            (htracks.unchanged (lt_next hstart hmore).2.le (Nat.le_of_succ_le_succ hcover) hperm' (hagree' _ rfl))
        · exact scan_reorgs hstart' hreorg
      · exact scan_reorgs hstart hreorg
  | cons chunk before ih =>
      obtain _ | ⟨hstart, hlogs, hend, hrest⟩ := hreading
      have hend : chunkEnd policy toBlock start ≠ toBlock := fun heq => by
        have hnil := hend heq
        cases before <;> cases hnil
      have hperm := readLogs_truthful hread hlogs
      rcases scanChunk_cases previousEnd hlogs hperm with ⟨-, m', hchunk, hget⟩ | ⟨hreorg, -⟩
      · rw [scan_chunk hstart hchunk, if_neg hend]
        obtain ⟨-, -, hcover, -⟩ := hposition.bounds hle
        exact ih (hposition.next hle hend) (hcollected.extend hperm hcover hget) hrest
      · exact scan_reorgs hstart hreorg

/-! ### The scan -/

theorem eventLe_trans {log₁ log₂ log₃ : Log} (h : EventLe log₁ log₂) (h' : EventLe log₂ log₃) :
    EventLe log₁ log₃ := by
  unfold EventLe at *
  omega

theorem eventLe_total (left right : Log) : EventLe left right ∨ EventLe right left := by
  unfold EventLe
  omega

instance : IsTrans Log EventLe := ⟨fun _ _ _ => eventLe_trans⟩

instance : Std.Total EventLe := ⟨eventLe_total⟩

/-- The values that are collected of a range are the logs of the chain. -/
theorem Holds.values_perm {c : Chain} (h : Holds c m start (stop + 1)) : m.values.Perm (c.within start stop) := by
  have hidentity : m.values.map Log.identity = m.keys := by
    unfold InsertionMap.values InsertionMap.keys
    rw [List.map_map]
    refine List.map_congr_left fun e he => ?_
    exact ((h e.1 e.2).mp (InsertionMap.mem_entries.mp he)).2.1
  have hvalues : m.values.Nodup := .of_map Log.identity (hidentity ▸ m.nodup)
  have hwithin : (c.within start stop).Nodup := (List.Nodup.of_map _ c.distinct).filter _
  refine (List.perm_ext_iff_of_nodup hvalues hwithin).mpr fun log => ?_
  rw [InsertionMap.mem_values, mem_within]
  constructor
  · rintro ⟨k, hget⟩
    obtain ⟨hmem, -, hlow, hhigh⟩ := (h k log).mp hget
    exact ⟨hmem, hlow, Nat.le_of_lt_succ hhigh⟩
  · rintro ⟨hmem, hlow, hhigh⟩
    exact ⟨log.identity, (h _ _).mpr ⟨hmem, rfl, hlow, Nat.lt_succ_of_le hhigh⟩⟩

/-- The query after its checks. -/
theorem queryHistoricalLogs_eq {raw : RawPolicy} {fromBlock : ℕ}
    (hpolicy : validateFinalityPolicy raw = .ok policy) (hle : fromBlock ≤ toBlock)
    (hsafe : toBlock ≤ maxSafeInteger) :
    queryHistoricalLogs read fromBlock toBlock raw = (do
      let byIdentity ← scan policy read toBlock fromBlock none .empty 0
      pure (byIdentity.values.insertionSort EventLe)) := by
  have hinteger : ∀ n label, n ≤ maxSafeInteger → requireInteger (some (n : ℤ)) label 0 = .ok n := by
    intro n label hn
    unfold requireInteger
    exact if_pos ⟨Int.natCast_nonneg n, Int.ofNat_le.mpr hn⟩
  unfold queryHistoricalLogs
  rw [hpolicy, hinteger _ _ hsafe, hinteger _ _ (hle.trans hsafe)]
  exact if_neg (not_lt.mpr hle)

end

/-- The scan of a chain that does not change returns its logs of the range, once each and in order; a change
in the overlap of two chunks is reported as a reorg. -/
theorem queryHistoricalLogs_exact {raw : RawPolicy} {policy : FinalityPolicy}
    (hpolicy : validateFinalityPolicy raw = .ok policy) {fromBlock toBlock : ℕ} (hle : fromBlock ≤ toBlock)
    (hsafe : toBlock ≤ maxSafeInteger) :
    (∀ (c : Chain) (read : Reader), Truthful (fun _ => c) read → Persistent policy read →
      ∃ logs, queryHistoricalLogs read fromBlock toBlock raw = .ok logs ∧
        logs.Perm (c.within fromBlock toBlock) ∧ logs.Pairwise EventLe) ∧
    (∀ (chains : ℕ → Chain) (read : Reader), Truthful chains read →
      ∀ (before after : List Chunk) (a b : Chunk),
        Reading policy read toBlock fromBlock 0 (before ++ a :: b :: after) →
        Changed (chains a.call) (chains b.call) b.start a.stop →
        ∃ reason, queryHistoricalLogs read fromBlock toBlock raw = .error (.reorg reason)) := by
  have hposition : Position policy toBlock fromBlock fromBlock fromBlock none := ⟨rfl, rfl⟩
  constructor
  · intro c read hread hpersistent
    have hstart : Holds c .empty fromBlock fromBlock := fun k log => by
      refine iff_of_false (fun h => by cases h) fun h => ?_
      omega
    obtain ⟨m, hscan, hholds⟩ : ∃ m, scan policy read toBlock fromBlock none .empty 0 = .ok m ∧
      Holds c m fromBlock (toBlock + 1) := scan_fixed hread hpersistent hle hposition hstart
    rw [queryHistoricalLogs_eq hpolicy hle hsafe, hscan]
    exact ⟨_, rfl, (List.perm_insertionSort _ _).trans hholds.values_perm, List.pairwise_insertionSort _ _⟩
  · intro chains read hread before after a b hreading hchanged
    have hstart : Collected .empty fromBlock := fun k log h => by cases h
    obtain ⟨reason, hscan⟩ := scan_reading hread hle hposition hstart hreading hchanged
    rw [queryHistoricalLogs_eq hpolicy hle hsafe, hscan]
    exact ⟨reason, rfl⟩

/-! ### A scan -/

namespace Sample

def policy : RawPolicy := ⟨some "confirmations", some 1, some 3, some 2, some 1, some 0, some 1⟩

def log (block index : ℕ) (hash : String) : Log := ⟨block, hash, some "0xAA", some 0, some index, none⟩

/-- A chain of two logs, and the same with the second in another block. -/
def chain : Chain where
  logs := [log 1 0 "0x1", log 3 1 "0x3"]
  identified := by
    intro log hlog
    fin_cases hlog <;> exact ⟨rfl, rfl⟩
  distinct := by decide +kernel

def reorged : Chain where
  logs := [log 1 0 "0x1", log 3 1 "0x33"]
  identified := by
    intro log hlog
    fin_cases hlog <;> exact ⟨rfl, rfl⟩
  distinct := by decide +kernel

def reader (chains : ℕ → Chain) : Reader := fun n start stop => .ok (some ((chains n).within start stop))

theorem reader_truthful (chains : ℕ → Chain) : Truthful chains (reader chains) := by
  intro n start stop logs h
  obtain rfl := Except.ok.inj h
  exact List.Perm.refl _

def accepted : FinalityPolicy := ⟨1, 3, 2, 1, 0, 1, by decide, by decide, by decide⟩

/-- The chain, until the first chunk is read. -/
def chains (n : ℕ) : Chain := if n = 0 then chain else reorged

end Sample

theorem queryHistoricalLogs_exact_sample :
    (∃ logs, queryHistoricalLogs (Sample.reader fun _ => Sample.chain) 1 5 Sample.policy = .ok logs ∧
      logs.Perm (Sample.chain.within 1 5) ∧ logs.Pairwise EventLe) ∧
    ∃ reason, queryHistoricalLogs (Sample.reader Sample.chains) 1 5 Sample.policy = .error (.reorg reason) := by
  have hpolicy : validateFinalityPolicy Sample.policy = .ok Sample.accepted := rfl
  obtain ⟨hfixed, hchanging⟩ := @queryHistoricalLogs_exact _ _ hpolicy 1 5 (by decide) (by decide)
  refine ⟨hfixed _ _ (Sample.reader_truthful _) fun n start stop => ⟨0, by decide, _, rfl⟩, ?_⟩
  have hsecond : Reading Sample.accepted (Sample.reader Sample.chains) 5 2 1
      [⟨2, chunkEnd Sample.accepted 5 2, 2 - 1⟩] :=
    .cons (show 2 ≤ 5 by decide) rfl (fun _ => rfl) (.nil _ 2)
  have hreading : Reading Sample.accepted (Sample.reader Sample.chains) 5 1 0
      [⟨1, chunkEnd Sample.accepted 5 1, 1 - 1⟩, ⟨2, chunkEnd Sample.accepted 5 2, 2 - 1⟩] :=
    .cons (show 1 ≤ 5 by decide) rfl (fun h => absurd h (by decide)) hsecond
  refine hchanging _ _ (Sample.reader_truthful _) [] [] _ _ hreading (.inl ⟨Sample.log 3 1 "0x3", ?_, ?_⟩)
  · exact mem_within.mpr ⟨.tail _ (.head _), by decide, by decide⟩
  · have hmoved : ∀ log' ∈ Sample.reorged.logs, log'.identity = (Sample.log 3 1 "0x3").identity →
        ¬ SameBlock (Sample.log 3 1 "0x3") log' := by decide +kernel
    exact hmoved

end P42Prizes.LogScan
