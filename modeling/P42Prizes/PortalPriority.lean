import P42Prizes.IdempotencyLaws
import P42Prizes.PortalCommits

/-! # Commit priority

`Kept` holds in every reachable state of any portal: a commit is revealed at most once, and is then never
abandoned.  Two things give a solution to its first commit.  The portal as it stands credits no reveal at
all, since the best score of the pilot problem is its optimum (`commit_priority`).  And whatever the
catalogue and the verifier, the first commit has the priority as long as maintenance has not removed the
revealed commits of the solution (`commit_priority_of_retained`). -/

namespace P42Prizes.PortalCommits

open Reverting Transition
open Portal (Operation PortalError Reservation Snapshot maintainPortalState updatePortalState_eq_ok)
open WalletNonce (modifyFirst)
open Verifier (Bytes Json)

/-- The first element with a property is changed and the others stay. -/
theorem modifyFirst_eq_map_find {α : Type} [DecidableEq α] {q : α → Bool} {g : α → α} {l : List α}
    (hn : l.Nodup) : modifyFirst q g l = l.map fun a => if l.find? q = some a then g a else a := by
  induction l with
  | nil => rfl
  | cons x l ih =>
      obtain ⟨hx, hl⟩ := List.nodup_cons.mp hn
      rw [modifyFirst, List.map_cons]
      by_cases hq : q x = true
      · rw [if_pos hq, List.find?_cons_of_pos hq, if_pos rfl]
        refine congrArg _ (Eq.symm (List.map_congr_left fun a ha => ?_) |>.trans (List.map_id l)).symm
        have hne : some x ≠ some a := fun hsome => hx (Option.some.inj hsome ▸ ha)
        rw [if_neg hne]
        rfl
      · rw [if_neg hq, List.find?_cons_of_neg hq, ih hl]
        have hne : l.find? q ≠ some x := fun hsome => hx (List.mem_of_find?_eq_some hsome)
        rw [if_neg hne]

/-- The commits that were ever accepted. -/
def Log.all (log : Log) : List CommitRecord := log.commits ++ log.gone

/-- What holds of the commits and the submissions at all times. -/
structure Kept (log : Log) : Prop where
  ordered : log.commits.Pairwise fun c d => c.serial < d.serial
  distinct : (log.all.map CommitRecord.serial).Nodup
  bounded : ∀ c ∈ log.all, c.serial < log.accepted
  leased : ∀ c ∈ log.all, c.revealLease ≠ none → c.revealed = false ∧ c.abandonedAt = none
  sound : ∀ c ∈ log.all, c.revealed = true → c.abandonedAt = none
  ended : ∀ c ∈ log.gone, c.abandonedAt ≠ none ∨ c.revealed = true
  once : (log.recorded.map Submission.serial).Nodup
  revealed : ∀ s ∈ log.recorded, ∃ c ∈ log.all, c.serial = s.serial ∧ c.revealed = true
  listed : ∀ s ∈ log.submissions, s ∈ log.recorded

variable {p : Settings} {log : Log} {now : ℕ}

/-! ### What keeps the log -/

/-- A change of the listed commits, one by one. -/
theorem Kept.map (h : Kept log) {f : CommitRecord → CommitRecord} (hserial : ∀ c, (f c).serial = c.serial)
    (hleased : ∀ c ∈ log.commits, (f c).revealLease ≠ none →
      (f c).revealed = false ∧ (f c).abandonedAt = none)
    (hsound : ∀ c ∈ log.commits, (f c).revealed = true → (f c).abandonedAt = none)
    (hrevealed : ∀ c ∈ log.commits, c.revealed = true → (f c).revealed = true) :
    Kept { log with commits := log.commits.map f } := by
  have hmem : ∀ {c}, c ∈ log.commits.map f ++ log.gone ↔ (∃ d ∈ log.commits, f d = c) ∨ c ∈ log.gone := by
    intro c
    rw [List.mem_append, List.mem_map]
  have hgone : ∀ c ∈ log.gone, c ∈ log.all := fun c hc => List.mem_append_right _ hc
  have hlisted : ∀ c ∈ log.commits, c ∈ log.all := fun c hc => List.mem_append_left _ hc
  constructor
  · refine List.pairwise_map.mpr (h.ordered.imp fun {c d} hlt => ?_)
    rw [hserial, hserial]
    exact hlt
  · have hsame : (log.commits.map f ++ log.gone).map CommitRecord.serial = log.all.map CommitRecord.serial := by
      rw [List.map_append, List.map_map, Log.all, List.map_append]
      exact congrArg (· ++ _) (List.map_congr_left fun c _ => hserial c)
    rw [Log.all, hsame]
    exact h.distinct
  · intro c hc
    rcases hmem.mp hc with ⟨d, hd, rfl⟩ | hc
    · rw [hserial]
      exact h.bounded d (hlisted d hd)
    · exact h.bounded c (hgone c hc)
  · intro c hc
    rcases hmem.mp hc with ⟨d, hd, rfl⟩ | hc
    · exact hleased d hd
    · exact h.leased c (hgone c hc)
  · intro c hc
    rcases hmem.mp hc with ⟨d, hd, rfl⟩ | hc
    · exact hsound d hd
    · exact h.sound c (hgone c hc)
  · exact h.ended
  · exact h.once
  · intro s hs
    obtain ⟨c, hc, hcs, hrev⟩ := h.revealed s hs
    rcases List.mem_append.mp hc with hc | hc
    · exact ⟨f c, hmem.mpr (.inl ⟨c, hc, rfl⟩), (hserial c).trans hcs, hrevealed c hc hrev⟩
    · exact ⟨c, hmem.mpr (.inr hc), hcs, hrev⟩
  · exact h.listed

/-- Commits that have ended are removed, and any submissions. -/
theorem Kept.split (h : Kept log) (keeps : CommitRecord → Bool) (listed : Submission → Bool)
    (hended : ∀ c ∈ log.commits, keeps c = false → c.abandonedAt ≠ none ∨ c.revealed = true) :
    Kept { log with
      commits := log.commits.filter keeps
      gone := log.gone ++ log.commits.filter (fun c => !keeps c)
      submissions := log.submissions.filter listed } := by
  have hperm : (log.commits.filter keeps ++ (log.gone ++ log.commits.filter fun c => !keeps c)).Perm log.all := by
    have hswap : (log.gone ++ log.commits.filter fun c => !keeps c).Perm
        ((log.commits.filter fun c => !keeps c) ++ log.gone) := List.perm_append_comm
    refine (hswap.append_left _).trans ?_
    rw [← List.append_assoc]
    exact (List.filter_append_perm keeps log.commits).append_right _
  have hmem : ∀ {c}, c ∈ log.commits.filter keeps ++ (log.gone ++ log.commits.filter fun c => !keeps c) ↔
      c ∈ log.all := hperm.mem_iff
  constructor
  · exact h.ordered.filter _
  · exact (hperm.map _).nodup_iff.mpr h.distinct
  · exact fun c hc => h.bounded c (hmem.mp hc)
  · exact fun c hc => h.leased c (hmem.mp hc)
  · exact fun c hc => h.sound c (hmem.mp hc)
  · intro c hc
    rcases List.mem_append.mp hc with hc | hc
    · exact h.ended c hc
    · obtain ⟨hc, hkeeps⟩ := List.mem_filter.mp hc
      exact hended c hc (by simpa using hkeeps)
  · exact h.once
  · intro s hs
    obtain ⟨c, hc, hrest⟩ := h.revealed s hs
    exact ⟨c, hmem.mpr hc, hrest⟩
  · exact fun s hs => h.listed s (List.mem_of_mem_filter hs)

theorem maintainCommit_spec (now : ℕ) (c : CommitRecord) :
    (maintainCommit now c).serial = c.serial ∧ (maintainCommit now c).id = c.id ∧
      (maintainCommit now c).problemId = c.problemId ∧ (maintainCommit now c).solutionCid = c.solutionCid ∧
      (maintainCommit now c).revealed = c.revealed ∧
      ((maintainCommit now c).revealLease ≠ none → c.revealLease ≠ none) ∧
      ((maintainCommit now c).abandonedAt = c.abandonedAt ∨ c.revealed = false ∧ c.abandonedAt = none ∧
        (maintainCommit now c).revealLease = none ∧ (maintainCommit now c).abandonedAt ≠ none) := by
  have hlease : c.revealLease.filter (leaseIsActive now) ≠ none → c.revealLease ≠ none := by
    intro h hnone
    rw [hnone] at h
    exact h rfl
  unfold maintainCommit
  dsimp only
  split <;> rename_i hcond
  · exact ⟨rfl, rfl, rfl, rfl, rfl, hlease, .inr ⟨hcond.1, hcond.2.1, hcond.2.2.1, Option.some_ne_none now⟩⟩
  · exact ⟨rfl, rfl, rfl, rfl, rfl, hlease, .inl rfl⟩

theorem ended_of_keepsCommit {c : CommitRecord} (h : keepsCommit p now c = false) :
    c.abandonedAt ≠ none ∨ c.revealed = true := by
  unfold keepsCommit terminalAt at h
  by_contra hnone
  obtain ⟨habandoned, hrevealed⟩ := not_or.mp hnone
  rw [not_not.mp habandoned, Bool.eq_false_iff.mpr hrevealed] at h
  exact absurd h (by simp)

theorem Kept.maintain (h : Kept log) : Kept (maintainLog p now log) := by
  have hall : ∀ c ∈ log.commits, c ∈ log.all := fun c hc => List.mem_append_left _ hc
  have hmap : Kept { log with commits := log.commits.map (maintainCommit now) } := by
    refine h.map (fun c => (maintainCommit_spec now c).1) ?_ ?_ ?_
    · intro c hc hlease
      obtain ⟨-, -, -, -, hrevealed, hsome, habandoned⟩ := maintainCommit_spec now c
      obtain ⟨hopen, hnone⟩ := h.leased c (hall c hc) (hsome hlease)
      rcases habandoned with hsame | ⟨-, -, hended, -⟩
      · exact ⟨hrevealed.trans hopen, hsame.trans hnone⟩
      · exact absurd hended hlease
    · intro c hc hrev
      obtain ⟨-, -, -, -, hrevealed, -, habandoned⟩ := maintainCommit_spec now c
      rw [hrevealed] at hrev
      rcases habandoned with hsame | ⟨hopen, -⟩
      · exact hsame.trans (h.sound c (hall c hc) hrev)
      · rw [hrev] at hopen
        cases hopen
    · intro c _ hrev
      exact (maintainCommit_spec now c).2.2.2.2.1.trans hrev
  exact hmap.split (keepsCommit p now) (keepsSubmission p now) fun c _ hkeeps => ended_of_keepsCommit hkeeps

theorem Kept.nodup (h : Kept log) : log.commits.Nodup := by
  have hdistinct := h.distinct
  rw [Log.all, List.map_append] at hdistinct
  exact (List.nodup_append.mp hdistinct).1.of_map _

theorem Kept.unique (h : Kept log) {c d : CommitRecord} (hc : c ∈ log.all) (hd : d ∈ log.all)
    (hserial : c.serial = d.serial) : c = d :=
  List.inj_on_of_nodup_map h.distinct hc hd hserial

theorem Kept.persist (h : Kept log) {record : CommitRecord} (hopen : record.revealed = false)
    (hlease : record.revealLease = none) : Kept { log with
      commits := log.commits ++ [{ record with serial := log.accepted }]
      accepted := log.accepted + 1 } := by
  have hmem : ∀ {c}, c ∈ log.commits ++ [{ record with serial := log.accepted }] ++ log.gone ↔
      c = { record with serial := log.accepted } ∨ c ∈ log.all := by
    intro c
    simp only [Log.all, List.mem_append, List.mem_singleton]
    tauto
  constructor
  · refine List.pairwise_append.mpr ⟨h.ordered, List.pairwise_singleton _ _, fun c hc d hd => ?_⟩
    rw [List.mem_singleton.mp hd]
    exact h.bounded c (List.mem_append_left _ hc)
  · have hperm : (log.commits ++ [{ record with serial := log.accepted }] ++ log.gone).Perm
        ({ record with serial := log.accepted } :: log.all) := by
      rw [List.append_assoc, List.singleton_append]
      exact List.perm_middle
    refine (hperm.map _).nodup_iff.mpr (List.nodup_cons.mpr ⟨fun hold => ?_, h.distinct⟩)
    obtain ⟨c, hc, hserial⟩ := List.mem_map.mp hold
    exact absurd (h.bounded c hc) (by rw [hserial]; exact lt_irrefl _)
  · intro c hc
    rcases hmem.mp hc with rfl | hc
    · exact Nat.lt_succ_self _
    · exact (h.bounded c hc).trans (Nat.lt_succ_self _)
  · intro c hc hsome
    rcases hmem.mp hc with rfl | hc
    · exact absurd hlease hsome
    · exact h.leased c hc hsome
  · intro c hc hrev
    rcases hmem.mp hc with rfl | hc
    · exact absurd (hopen.symm.trans hrev) Bool.false_ne_true
    · exact h.sound c hc hrev
  · exact h.ended
  · exact h.once
  · intro s hs
    obtain ⟨c, hc, hrest⟩ := h.revealed s hs
    exact ⟨c, hmem.mpr (.inr hc), hrest⟩
  · exact h.listed

theorem Kept.record (h : Kept log) {submission : Submission} {c : CommitRecord} (hc : c ∈ log.all)
    (hserial : submission.serial = c.serial) (hrevealed : c.revealed = true)
    (hnew : ∀ s ∈ log.recorded, s.serial ≠ c.serial) : Kept { log with
      submissions := log.submissions ++ [submission]
      recorded := log.recorded ++ [submission] } where
  ordered := h.ordered
  distinct := h.distinct
  bounded := h.bounded
  leased := h.leased
  sound := h.sound
  ended := h.ended
  once := by
    rw [List.map_append, List.map_singleton, List.nodup_append]
    refine ⟨h.once, List.nodup_singleton _, fun m hm n hn => ?_⟩
    obtain ⟨s, hs, rfl⟩ := List.mem_map.mp hm
    rw [List.mem_singleton.mp hn, hserial]
    exact hnew s hs
  revealed := by
    intro s hs
    rcases List.mem_append.mp hs with hs | hs
    · exact h.revealed s hs
    · rw [List.mem_singleton.mp hs]
      exact ⟨c, hc, hserial.symm, hrevealed⟩
  listed := by
    intro s hs
    rcases List.mem_append.mp hs with hs | hs
    · exact List.mem_append_left _ (h.listed s hs)
    · exact List.mem_append_right _ hs

/-- One commit is changed. -/
theorem Kept.modifyFirst (h : Kept log) {q : CommitRecord → Bool} {g : CommitRecord → CommitRecord}
    (hserial : ∀ c, (g c).serial = c.serial)
    (hchange : ∀ c, log.commits.find? q = some c → ((g c).revealLease ≠ none →
        (g c).revealed = false ∧ (g c).abandonedAt = none) ∧
      ((g c).revealed = true → (g c).abandonedAt = none) ∧ (c.revealed = true → (g c).revealed = true)) :
    Kept { log with commits := modifyFirst q g log.commits } := by
  have hall : ∀ c ∈ log.commits, c ∈ log.all := fun c hc => List.mem_append_left _ hc
  rw [modifyFirst_eq_map_find h.nodup]
  refine h.map (fun c => ?_) (fun c hc => ?_) (fun c hc => ?_) (fun c _ => ?_)
  · split
    · exact hserial c
    · rfl
  · split <;> rename_i hfound
    · exact (hchange c hfound).1
    · exact h.leased c (hall c hc)
  · split <;> rename_i hfound
    · exact (hchange c hfound).2.1
    · exact h.sound c (hall c hc)
  · split <;> rename_i hfound
    · exact (hchange c hfound).2.2
    · exact id

/-! ### The changes of the log -/

theorem prepareCommit_ok {commitId : String} {createdAt : ℕ} {input : CommitInput} {record : CommitRecord}
    (h : prepareCommit p commitId createdAt input = .ok record) :
    record.id = commitId ∧ record.revealed = false ∧ record.revealLease = none := by
  simp only [prepareCommit, bind_eq_ok] at h
  obtain ⟨solverAddress, -, h⟩ := h
  split at h
  · cases h
  · obtain ⟨_, -, h⟩ := bind_eq_ok.mp h
    obtain rfl := pure_eq_ok.mp h
    exact ⟨rfl, rfl, rfl⟩

theorem persistCommit_ok {record : CommitRecord} {log' : Log} (h : persistCommit p record log = .ok log') :
    log' = { log with
      commits := log.commits ++ [{ record with serial := log.accepted }]
      accepted := log.accepted + 1 } := by
  simp only [persistCommit, bind_eq_ok, pure_eq_ok] at h
  obtain ⟨-, -, -, -, rfl⟩ := h
  rfl

theorem commitIsExpired_eq_false {c : CommitRecord} :
    commitIsExpired now c = false ↔ c.abandonedAt = none ∧ now < c.expiresAt := by
  rw [commitIsExpired, Bool.or_eq_false_iff, Option.isSome_eq_false_iff, Option.isNone_iff_eq_none,
    decide_eq_false_iff_not, not_le]

theorem reserveReveal_ok {commitId leaseId : String} {log' : Log}
    (h : reserveReveal p now commitId leaseId log = .ok log') :
    ∃ stored, log.commits.find? (fun commit => commit.id = commitId) = some stored ∧
      stored.revealed = false ∧ stored.abandonedAt = none ∧
      log' = { log with
        commits := modifyFirst (fun commit => commit.id = commitId)
          (fun commit => { commit with revealLease := some ⟨leaseId, now + p.revealLeaseMs⟩ }) log.commits } := by
  unfold reserveReveal at h
  split at h <;> rename_i stored hfound
  · cases h
  · simp only [bind_eq_ok, revertIf_eq_ok, pure_eq_ok, Unique.exists_iff, Bool.not_eq_true] at h
    obtain ⟨hopen, hcurrent, -, rfl⟩ := h
    exact ⟨stored, hfound, hopen, (commitIsExpired_eq_false.mp hcurrent).1, rfl⟩

/-- What a recorded submission says about its commit. -/
theorem recordReveal_ok {submissionId : String} {reveal : Reveal} {submission : Submission} {log' : Log}
    (h : recordReveal p now submissionId reveal log = .ok (submission, log')) :
    ∃ stored, log.commits.find? (fun commit => commit.id = reveal.input.commitId) = some stored ∧
      stored.revealed = false ∧ stored.revealLease ≠ none ∧ submission.serial = stored.serial ∧
      submission.problemId = reveal.record.problemId ∧ submission.solutionCid = reveal.record.solutionCid ∧
      (submission.state = .revealed →
        (incrementalFrontierCredit reveal.problem (p.verify reveal.input.solutionRaw).score
          (p.submissions ++ log.submissions)).eligible = true ∧
        ∃ first, log.commits.find? (competes now reveal.record.problemId reveal.record.solutionCid) = some first ∧
          first.id = stored.id) ∧
      log' = { log with
        commits := modifyFirst (fun commit => commit.id = reveal.input.commitId)
          (fun commit => { commit with revealed := true, revealLease := none }) log.commits
        submissions := log.submissions ++ [submission]
        recorded := log.recorded ++ [submission] } := by
  unfold recordReveal at h
  split at h <;> rename_i stored hfound
  · cases h
  · simp only [bind_eq_ok, revertIf_eq_ok, pure_eq_ok, Unique.exists_iff, Bool.not_eq_true, Prod.mk.injEq] at h
    obtain ⟨hopen, hlease, -, rfl, rfl⟩ := h
    refine ⟨stored, hfound, hopen, ?_, rfl, rfl, rfl, fun hstate => ?_, rfl⟩
    · intro hnone
      rw [hnone] at hlease
      exact hlease fun lease hsome => absurd hsome (Option.not_mem_none lease)
    · dsimp only at hstate
      split at hstate <;> rename_i hcredited
      · obtain ⟨-, hfirst⟩ := (Bool.and_eq_true _ _).mp hcredited
        obtain ⟨first, hsome, hid⟩ := (Option.any_eq_true _ _).mp hfirst
        split at hstate <;> rename_i hboth
        · exact ⟨((Bool.and_eq_true _ _).mp hboth).2, first, hsome, of_decide_eq_true hid⟩
        · cases hstate
      · rw [Bool.and_false] at hstate
        cases hstate

/-! ### Steps -/

/-- The changes that updates make to a maintained log. -/
inductive Changed (p : Settings) (w : World) : Attempt → ℕ → ℕ → Log → Log → Prop
  | commit {input : CommitInput} {commitId : String} {createdAt before behind : ℕ} {record : CommitRecord}
      {log log' : Log} : prepareCommit p commitId createdAt input = .ok record →
      persistCommit p record log = .ok log' →
      Changed p w (.commit input commitId createdAt before behind) before behind log log'
  | reserve {leaseId : String} {before now behind : ℕ} {reveal : Reveal} {log log' : Log} :
      reserveReveal p now reveal.input.commitId leaseId log = .ok log' →
      Changed p w (.reserve leaseId before now behind) before behind log log'
  | record {leaseId submissionId : String} {reservation : Option Reservation} {before now behind : ℕ}
      {reveal : Reveal} {submission : Submission} {log log' : Log} : now ≤ behind →
      w.reveal? leaseId [.reserved] = some reveal →
      recordReveal p now submissionId reveal log = .ok (submission, log') →
      Changed p w (.record leaseId reservation submissionId before now behind) before behind log log'
  | release {leaseId : String} {before behind : ℕ} {commitId : String} {log : Log} :
      Changed p w (.release leaseId before behind) before behind log (releaseReveal commitId leaseId log)
  | other {change} {before behind : ℕ} {log : Log} :
      Changed p w (.other change before behind) before behind log log

variable {w w' : World} {a : Attempt}

theorem World.update_cases {before behind : ℕ}
    {change : Snapshot Log Submission → Except PortalError (Unit × Snapshot Log Submission)}
    {done failed : World → World} (hdone : ∀ v, (done v).snapshot = v.snapshot)
    (hfailed : ∀ v, (failed v).snapshot = v.snapshot) :
    (w.update p before behind change done failed).snapshot.rest = w.snapshot.rest ∨
      ∃ s, change (maintainPortalState (store p) before w.snapshot) = .ok ((), s) ∧
        (w.update p before behind change done failed).snapshot.rest = maintainLog p behind s.rest := by
  unfold World.update
  split <;> rename_i hupdate
  · obtain ⟨s, hs, rfl⟩ := updatePortalState_eq_ok hupdate
    rw [hdone]
    exact .inr ⟨s, hs, rfl⟩
  · rw [hfailed]
    exact .inl rfl

theorem onLog_ok {change : Log → Except PortalError Log} {s t : Snapshot Log Submission}
    (h : onLog change s = .ok ((), t)) : change s.rest = .ok t.rest := by
  simp only [onLog, bind_eq_ok, pure_eq_ok, Prod.mk.injEq] at h
  obtain ⟨rest, hchange, -, rfl⟩ := h
  exact hchange

theorem completeOperation_ok {reservation : Option Reservation} {operation : Operation Log Submission}
    {s t : Snapshot Log Submission} (h : completeOperation p reservation operation s = .ok ((), t)) :
    ∃ submission, operation s.rest = .ok (submission, t.rest) := by
  unfold completeOperation at h
  split at h
  · simp only [bind_eq_ok, pure_eq_ok, Prod.mk.injEq] at h
    obtain ⟨⟨submission, rest⟩, hoperation, -, rfl⟩ := h
    exact ⟨submission, hoperation⟩
  · simp only [bind_eq_ok, pure_eq_ok, Prod.mk.injEq] at h
    obtain ⟨⟨result, u⟩, hcomplete, -, rfl⟩ := h
    obtain ⟨-, rest, -, -, -, -, hoperation, -, -, rfl⟩ := Portal.complete_cases hcomplete
    exact ⟨result.response, hoperation⟩

theorem log_of_step (h : step p w a = some w') : w'.snapshot.rest = w.snapshot.rest ∨
    ∃ before behind log', Changed p w a before behind (maintainLog p before w.snapshot.rest) log' ∧
      w'.snapshot.rest = maintainLog p behind log' := by
  have hid : ∀ v : World, (id v).snapshot = v.snapshot := fun _ => rfl
  have hstage : ∀ leaseId stage (v : World), (v.setStage leaseId stage).snapshot = v.snapshot :=
    fun _ _ _ => rfl
  cases a with
  | commit input commitId createdAt before behind =>
      simp only [step, Option.ite_none_right_eq_some, Option.some.injEq] at h
      obtain ⟨-, rfl⟩ := h
      refine (World.update_cases hid hid).imp id fun ⟨s, hs, hrest⟩ => ⟨before, behind, s.rest, ?_, hrest⟩
      obtain ⟨record, hrecord, hpersist⟩ := bind_eq_ok.mp (onLog_ok hs)
      exact .commit hrecord hpersist
  | begin input leaseId now =>
      simp only [step, Option.ite_none_right_eq_some] at h
      obtain ⟨-, h⟩ := h
      split at h
      all_goals
        obtain rfl := Option.some.inj h
        exact .inl rfl
  | reserve leaseId before now behind =>
      simp only [step, Option.ite_none_right_eq_some, Option.map_eq_some_iff] at h
      obtain ⟨-, reveal, -, rfl⟩ := h
      refine (World.update_cases (hstage _ _) (hstage _ _)).imp id
        fun ⟨s, hs, hrest⟩ => ⟨before, behind, s.rest, ?_, hrest⟩
      exact .reserve (onLog_ok hs)
  | record leaseId reservation submissionId before now behind =>
      simp only [step, Option.ite_none_right_eq_some, Option.map_eq_some_iff] at h
      obtain ⟨⟨-, -, hnow⟩, reveal, hreveal, rfl⟩ := h
      refine (World.update_cases (hstage _ _) (hstage _ _)).imp id
        fun ⟨s, hs, hrest⟩ => ⟨before, behind, s.rest, ?_, hrest⟩
      obtain ⟨submission, hrecord⟩ := completeOperation_ok hs
      exact .record hnow hreveal hrecord
  | release leaseId before behind =>
      simp only [step, Option.ite_none_right_eq_some, Option.map_eq_some_iff] at h
      obtain ⟨-, reveal, -, rfl⟩ := h
      refine (World.update_cases (hstage _ _) (hstage _ _)).imp id
        fun ⟨s, hs, hrest⟩ => ⟨before, behind, s.rest, ?_, hrest⟩
      obtain ⟨rest, hreleased, hsame⟩ := bind_eq_ok.mp hs
      obtain ⟨-, rfl⟩ := Prod.mk.inj (pure_eq_ok.mp hsame)
      rw [← Except.ok.inj hreleased]
      exact .release
  | other change before behind =>
      simp only [step, Option.ite_none_right_eq_some, Option.some.injEq] at h
      obtain ⟨-, rfl⟩ := h
      refine (World.update_cases hid hid).imp id fun ⟨s, hs, hrest⟩ => ⟨before, behind, s.rest, ?_, hrest⟩
      obtain ⟨idempotency, -, hsame⟩ := bind_eq_ok.mp hs
      obtain ⟨-, rfl⟩ := Prod.mk.inj (pure_eq_ok.mp hsame)
      exact .other

theorem Kept.changed (h : Kept log) {before behind : ℕ} {log' : Log} (hc : Changed p w a before behind log log') :
    Kept log' := by
  have hall : ∀ {q : CommitRecord → Bool} {c}, log.commits.find? q = some c → c ∈ log.all :=
    fun hfound => List.mem_append_left _ (List.mem_of_find?_eq_some hfound)
  cases hc with
  | commit hprepared hpersisted =>
      obtain ⟨-, hopen, hlease⟩ := prepareCommit_ok hprepared
      rw [persistCommit_ok hpersisted]
      exact h.persist hopen hlease
  | reserve hreserved =>
      obtain ⟨stored, hfound, hopen, hnone, rfl⟩ := reserveReveal_ok hreserved
      refine h.modifyFirst (fun _ => rfl) fun c hc => ?_
      obtain rfl := Option.some.inj (hfound.symm.trans hc)
      exact ⟨fun _ => ⟨hopen, hnone⟩, fun _ => hnone, id⟩
  | record _ hreveal hrecorded =>
      obtain ⟨stored, hfound, hopen, hlease, hserial, -, -, -, rfl⟩ := recordReveal_ok hrecorded
      obtain ⟨-, hnone⟩ := h.leased stored (hall hfound) hlease
      have hmodified := h.modifyFirst (g := fun c => { c with revealed := true, revealLease := none })
        (q := fun c => c.id = _) (fun _ => rfl) fun c hc => by
          obtain rfl := Option.some.inj (hfound.symm.trans hc)
          exact ⟨fun hsome => absurd rfl hsome, fun _ => hnone, fun _ => rfl⟩
      refine hmodified.record (c := { stored with revealed := true, revealLease := none }) ?_ hserial rfl ?_
      · refine List.mem_append_left _ ?_
        rw [modifyFirst_eq_map_find h.nodup]
        exact List.mem_map.mpr ⟨stored, List.mem_of_find?_eq_some hfound, if_pos hfound⟩
      · intro s hs hsame
        obtain ⟨c, hc, hcs, hrev⟩ := h.revealed s hs
        obtain rfl := h.unique hc (hall hfound) (hcs.trans hsame)
        rw [hopen] at hrev
        cases hrev
  | release =>
      refine h.modifyFirst (fun c => ?_) fun c hc => ?_
      · split <;> rfl
      · split <;> rename_i hcond
        · exact ⟨fun hsome => absurd rfl hsome, h.sound c (hall hc), id⟩
        · exact ⟨h.leased c (hall hc), h.sound c (hall hc), id⟩
  | other => exact h

theorem kept_of_reachable {C : World → Attempt → Prop} (h : (system p).Reachable C w) :
    Kept w.snapshot.rest := by
  refine h.invariant (P := fun w => Kept w.snapshot.rest) ?_ ?_
  · rintro w ⟨hempty, -⟩
    rw [hempty]
    constructor <;> simp [Log.all]
  · intro w a w' _ hk _ hstep
    rcases log_of_step hstep with hsame | ⟨before, behind, log', hchanged, hrest⟩
    · rw [hsame]
      exact hk
    · rw [hrest]
      exact (hk.maintain.changed hchanged).maintain

/-! ### Reveals in progress -/

theorem openCommit_ok {input : RevealInput} {opened : Opened} (h : openCommit p now input log = .ok opened) :
    opened.record ∈ log.commits ∧ opened.record.id = input.commitId ∧ opened.problem ∈ p.problems ∧
      opened.problem.slug = "hadamard-mini" := by
  unfold openCommit at h
  split at h <;> rename_i record hfound
  · cases h
  · obtain ⟨_, -, h⟩ := bind_eq_ok.mp h
    obtain ⟨_, -, h⟩ := bind_eq_ok.mp h
    split at h <;> rename_i problem hproblem
    · cases h
    · simp only [bind_eq_ok, revertIf_eq_ok, pure_eq_ok, ne_eq, not_not] at h
      obtain ⟨-, hslug, solverAddress, -, -, -, -, -, -, hpilot, -, -, rfl⟩ := h
      have hid := List.find?_some hfound
      exact ⟨List.mem_of_find?_eq_some hfound, of_decide_eq_true hid, List.mem_of_find?_eq_some hproblem,
        hslug.trans hpilot⟩

/-- No reveal is added, and of each only the stage may change. -/
def Stays (w w' : World) : Prop :=
  ∀ r ∈ w'.reveals, ∃ r₀ ∈ w.reveals, r.toOpened = r₀.toOpened ∧ r.input = r₀.input

theorem stays_id (v : World) : Stays v (id v) := fun r hr => ⟨r, hr, rfl, rfl⟩

theorem stays_setStage (leaseId : String) (stage : Stage) (v : World) : Stays v (v.setStage leaseId stage) := by
  intro r hr
  obtain ⟨r₀, hr₀, rfl⟩ := List.mem_map.mp hr
  refine ⟨r₀, hr₀, ?_⟩
  split
  · exact ⟨rfl, rfl⟩
  · exact ⟨rfl, rfl⟩

theorem stays_update {before behind : ℕ}
    {change : Snapshot Log Submission → Except PortalError (Unit × Snapshot Log Submission)}
    {done failed : World → World} (hdone : ∀ v, Stays v (done v)) (hfailed : ∀ v, Stays v (failed v)) :
    Stays w (w.update p before behind change done failed) := by
  unfold World.update
  split
  · exact hdone { w with snapshot := _, clock := behind }
  · exact hfailed { w with clock := behind }

/-- A reveal in progress was in progress before or has just been opened. -/
theorem reveals_of_step (h : step p w a = some w') : Stays w w' ∨
    ∃ reveal now, w'.reveals = reveal :: w.reveals ∧ w'.snapshot = w.snapshot ∧
      openCommit p now reveal.input w.snapshot.rest = .ok reveal.toOpened := by
  cases a with
  | commit input commitId createdAt before behind =>
      simp only [step, Option.ite_none_right_eq_some, Option.some.injEq] at h
      obtain ⟨-, rfl⟩ := h
      exact .inl (stays_update stays_id stays_id)
  | begin input leaseId now =>
      simp only [step, Option.ite_none_right_eq_some] at h
      obtain ⟨-, h⟩ := h
      split at h <;> rename_i hopened
      · obtain rfl := Option.some.inj h
        exact .inr ⟨_, now, rfl, rfl, hopened⟩
      · obtain rfl := Option.some.inj h
        exact .inl (stays_id _)
  | reserve leaseId before now behind =>
      simp only [step, Option.ite_none_right_eq_some, Option.map_eq_some_iff] at h
      obtain ⟨-, reveal, -, rfl⟩ := h
      exact .inl (stays_update (stays_setStage _ _) (stays_setStage _ _))
  | record leaseId reservation submissionId before now behind =>
      simp only [step, Option.ite_none_right_eq_some, Option.map_eq_some_iff] at h
      obtain ⟨-, reveal, -, rfl⟩ := h
      exact .inl (stays_update (stays_setStage _ _) (stays_setStage _ _))
  | release leaseId before behind =>
      simp only [step, Option.ite_none_right_eq_some, Option.map_eq_some_iff] at h
      obtain ⟨-, reveal, -, rfl⟩ := h
      exact .inl (stays_update (stays_setStage _ _) (stays_setStage _ _))
  | other change before behind =>
      simp only [step, Option.ite_none_right_eq_some, Option.some.injEq] at h
      obtain ⟨-, rfl⟩ := h
      exact .inl (stays_update stays_id stays_id)

theorem mem_reveals {leaseId : String} {stages : List Stage} {reveal : Reveal}
    (h : w.reveal? leaseId stages = some reveal) : reveal ∈ w.reveals := List.mem_of_find?_eq_some h

/-! ### The priority of the first commit -/

/-- What the portal owes to the first commit of a solution. -/
structure Priority (log : Log) : Prop where
  places : (log.all.map CommitRecord.serial).Nodup
  listed : ∀ s ∈ log.submissions, s ∈ log.recorded
  revealed : ∀ s ∈ log.recorded, ∃ c ∈ log.all, c.serial = s.serial ∧ c.revealed = true
  once : (log.recorded.map Submission.serial).Nodup
  first : ∀ s ∈ log.recorded, s.state = .revealed → ∀ c ∈ log.all, c.problemId = s.problemId →
    c.solutionCid = s.solutionCid → c.serial < s.serial → c.abandonedAt ≠ none
  unique : ∀ s ∈ log.recorded, ∀ t ∈ log.recorded, s.state = .revealed → t.state = .revealed →
    s.problemId = t.problemId → s.solutionCid = t.solutionCid → s = t

/-! ### The portal as it stands -/

/-- A commit and what has become of it. -/
def Same (c d : CommitRecord) : Prop :=
  d.serial = c.serial ∧ d.id = c.id ∧ d.problemId = c.problemId ∧ d.solutionCid = c.solutionCid ∧
    (c.abandonedAt ≠ none → d.abandonedAt ≠ none)

theorem Same.refl (c : CommitRecord) : Same c c := ⟨rfl, rfl, rfl, rfl, id⟩

/-- The commits of a log stay, and none is added. -/
structure Ages (log log' : Log) : Prop where
  forth : ∀ c ∈ log.all, ∃ d ∈ log'.all, Same c d
  back : ∀ d ∈ log'.all, ∃ c ∈ log.all, Same c d

theorem Ages.trans {log₁ log₂ log₃ : Log} (h : Ages log₁ log₂) (h' : Ages log₂ log₃) : Ages log₁ log₃ := by
  have hsame : ∀ {c d e : CommitRecord}, Same c d → Same d e → Same c e := by
    rintro c d e ⟨hserial, hid, hproblem, hcid, habandoned⟩ ⟨hserial', hid', hproblem', hcid', habandoned'⟩
    exact ⟨hserial'.trans hserial, hid'.trans hid, hproblem'.trans hproblem, hcid'.trans hcid,
      habandoned' ∘ habandoned⟩
  constructor
  · intro c hc
    obtain ⟨d, hd, hcd⟩ := h.forth c hc
    obtain ⟨e, he, hde⟩ := h'.forth d hd
    exact ⟨e, he, hsame hcd hde⟩
  · intro e he
    obtain ⟨d, hd, hde⟩ := h'.back e he
    obtain ⟨c, hc, hcd⟩ := h.back d hd
    exact ⟨c, hc, hsame hcd hde⟩

theorem ages_map {log' : Log} {f : CommitRecord → CommitRecord} (hf : ∀ c, Same c (f c))
    (hmem : ∀ c, c ∈ log'.all ↔ (∃ d ∈ log.commits, f d = c) ∨ c ∈ log.gone) : Ages log log' := by
  constructor
  · intro c hc
    rcases List.mem_append.mp hc with hc | hc
    · exact ⟨f c, (hmem _).mpr (.inl ⟨c, hc, rfl⟩), hf c⟩
    · exact ⟨c, (hmem c).mpr (.inr hc), Same.refl c⟩
  · intro d hd
    rcases (hmem d).mp hd with ⟨c, hc, rfl⟩ | hd
    · exact ⟨c, List.mem_append_left _ hc, hf c⟩
    · exact ⟨d, List.mem_append_right _ hd, Same.refl d⟩

theorem mem_maintainLog {c : CommitRecord} : c ∈ (maintainLog p now log).all ↔
    (∃ d ∈ log.commits, maintainCommit now d = c) ∨ c ∈ log.gone := by
  simp only [Log.all, maintainLog, List.mem_append, List.mem_filter, List.mem_map, Bool.not_eq_true']
  cases keepsCommit p now c <;> simp [or_comm]

theorem same_maintainCommit (now : ℕ) (c : CommitRecord) : Same c (maintainCommit now c) := by
  obtain ⟨hserial, hid, hproblem, hcid, -, -, habandoned⟩ := maintainCommit_spec now c
  refine ⟨hserial, hid, hproblem, hcid, fun hsome => ?_⟩
  rcases habandoned with hsame | ⟨-, hnone, -⟩
  · rw [hsame]
    exact hsome
  · exact absurd hnone hsome

theorem ages_maintain : Ages log (maintainLog p now log) :=
  ages_map (same_maintainCommit now) fun _ => mem_maintainLog

theorem ages_modifyFirst (h : Kept log) {q : CommitRecord → Bool} {g : CommitRecord → CommitRecord}
    (hg : ∀ c, Same c (g c)) (submissions recorded : List Submission) :
    Ages log { log with commits := modifyFirst q g log.commits, submissions, recorded } := by
  refine ages_map (f := fun c => if log.commits.find? q = some c then g c else c) (fun c => ?_) fun c => ?_
  · split
    · exact hg c
    · exact Same.refl c
  · rw [Log.all, modifyFirst_eq_map_find h.nodup, List.mem_append, List.mem_map]

/-- What holds as long as ids are fresh and revealed commits are not removed. -/
structure Led (reveals : List Reveal) (log : Log) : Prop where
  ids : ∀ c ∈ log.all, ∀ d ∈ log.all, c.id = d.id → c.serial = d.serial
  opened : ∀ r ∈ reveals, r.record.id = r.input.commitId ∧ ∃ c ∈ log.all, c.id = r.record.id ∧
    c.problemId = r.record.problemId ∧ c.solutionCid = r.record.solutionCid
  first : ∀ s ∈ log.recorded, s.state = .revealed → ∀ c ∈ log.all, c.problemId = s.problemId →
    c.solutionCid = s.solutionCid → c.serial < s.serial → c.abandonedAt ≠ none
  matching : ∀ s ∈ log.recorded, ∃ c ∈ log.all, c.serial = s.serial ∧ c.problemId = s.problemId ∧
    c.solutionCid = s.solutionCid

theorem Led.ages {reveals : List Reveal} {log' : Log} (h : Led reveals log) (ha : Ages log log')
    (hrecorded : log'.recorded = log.recorded) : Led reveals log' := by
  constructor
  · intro c' hc' d' hd' hid
    obtain ⟨c, hc, hserial, hcid, -⟩ := ha.back c' hc'
    obtain ⟨d, hd, hserial', hdid, -⟩ := ha.back d' hd'
    rw [hserial, hserial']
    exact h.ids c hc d hd (hcid.symm.trans (hid.trans hdid))
  · intro r hr
    obtain ⟨hrid, c, hc, hid, hproblem, hcid⟩ := h.opened r hr
    obtain ⟨d, hd, -, hdid, hdproblem, hdcid, -⟩ := ha.forth c hc
    exact ⟨hrid, d, hd, hdid.trans hid, hdproblem.trans hproblem, hdcid.trans hcid⟩
  · intro s hs hstate d hd hproblem hcid hlt
    obtain ⟨c, hc, hserial, -, hdproblem, hdcid, habandoned⟩ := ha.back d hd
    rw [hrecorded] at hs
    exact habandoned (h.first s hs hstate c hc (hdproblem.symm.trans hproblem) (hdcid.symm.trans hcid)
      (hserial ▸ hlt))
  · intro s hs
    rw [hrecorded] at hs
    obtain ⟨c, hc, hserial, hproblem, hcid⟩ := h.matching s hs
    obtain ⟨d, hd, hdserial, -, hdproblem, hdcid, -⟩ := ha.forth c hc
    exact ⟨d, hd, hdserial.trans hserial, hdproblem.trans hproblem, hdcid.trans hcid⟩

theorem maintainCommit_abandons {c : CommitRecord} {behind : ℕ} (hrevealed : c.revealed = false)
    (hlease : c.revealLease = none) (hexpired : commitIsExpired now c = true) (hle : now ≤ behind) :
    (maintainCommit behind c).abandonedAt ≠ none := by
  by_cases hnone : c.abandonedAt = none
  · have hlate : commitIsExpired behind c = true := by
      simp only [commitIsExpired, hnone, Option.isSome_none, Bool.false_or, decide_eq_true_eq] at hexpired ⊢
      exact hexpired.trans hle
    unfold maintainCommit
    dsimp only
    rw [hlease, Option.filter_none, if_pos ⟨hrevealed, hnone, rfl, hlate⟩]
    exact Option.some_ne_none behind
  · exact (same_maintainCommit behind c).2.2.2.2 hnone

/-- A commit before the first that competes is abandoned, or about to be. -/
theorem Kept.earlier (h : Kept log) {problemId : ℕ} {solutionCid : String} {c d : CommitRecord}
    (hfirst : log.commits.find? (competes now problemId solutionCid) = some c) (hd : d ∈ log.commits)
    (hproblem : d.problemId = problemId) (hcid : d.solutionCid = solutionCid) (hlt : d.serial < c.serial) :
    d.abandonedAt ≠ none ∨ d.revealed = false ∧ d.revealLease = none ∧ commitIsExpired now d = true := by
  obtain ⟨-, earlier, later, hsplit, hearlier⟩ := List.find?_eq_some_iff_append.mp hfirst
  have hordered := h.ordered
  rw [hsplit] at hd hordered
  obtain ⟨-, hrest, -⟩ := List.pairwise_append.mp hordered
  have hlater := (List.pairwise_cons.mp hrest).1
  have hmem : d ∈ earlier := by
    rcases List.mem_append.mp hd with hd | hd
    · exact hd
    rcases List.mem_cons.mp hd with rfl | hd
    · exact absurd hlt (lt_irrefl _)
    · exact absurd hlt (hlater d hd).asymm
  have hno := hearlier d hmem
  simp only [competes, hproblem, hcid, decide_true, Bool.true_and, Bool.not_eq_true', Bool.and_eq_false_iff,
    decide_eq_false_iff_not, Bool.or_eq_false_iff, Option.isSome_eq_false_iff, Option.isNone_iff_eq_none,
    Bool.not_eq_false'] at hno
  tauto

/-- A submission is credited while every earlier commit of its solution is abandoned or about to be. -/
theorem Led.record {reveals : List Reveal} (h : Led reveals log) (hk : Kept log) {reveal : Reveal}
    (hreveal : reveal ∈ reveals) {submissionId : String} {submission : Submission} {log' : Log} {behind : ℕ}
    (hrecord : recordReveal p now submissionId reveal log = .ok (submission, log')) (hle : now ≤ behind)
    (hretained : ∀ c ∈ log.gone, c.problemId = reveal.record.problemId →
      c.solutionCid = reveal.record.solutionCid → c.revealed = false) :
    Led reveals (maintainLog p behind log') := by
  obtain ⟨stored, hfound, -, -, hserial, hproblem, hcid, hcredited, hlog⟩ := recordReveal_ok hrecord
  have hmem := List.mem_of_find?_eq_some hfound
  have hall : ∀ c ∈ log.commits, c ∈ log.all := fun c hc => List.mem_append_left _ hc
  have hid := of_decide_eq_true (List.find?_some hfound :)
  -- the stored commit is the one that the reveal has read
  obtain ⟨hrid, c, hc, hcid', hcproblem, hccid⟩ := h.opened reveal hreveal
  obtain rfl : c = stored :=
    hk.unique hc (hall stored hmem) (h.ids c hc stored (hall stored hmem) (by rw [hcid', hrid, hid]))
  have hchanged : Ages log log' := by
    rw [hlog]
    refine ages_modifyFirst hk (fun c => ?_) _ _
    exact ⟨rfl, rfl, rfl, rfl, id⟩
  have hages : Ages log (maintainLog p behind log') := hchanged.trans ages_maintain
  have hrecorded : (maintainLog p behind log').recorded = log.recorded ++ [submission] := by
    rw [hlog]
    rfl
  have hled : Led reveals { maintainLog p behind log' with recorded := log.recorded } :=
    h.ages ⟨hages.forth, hages.back⟩ rfl
  refine ⟨hled.ids, hled.opened, ?_, ?_⟩
  · rw [hrecorded]
    refine List.forall_mem_append.mpr ⟨hled.first, List.forall_mem_singleton.mpr ?_⟩
    intro hstate d hd hdproblem hdcid hlt
    obtain ⟨-, first, hfirst, hfirstId⟩ := hcredited hstate
    have hfirstMem := List.mem_of_find?_eq_some hfirst
    obtain rfl : first = c := hk.unique (hall first hfirstMem) hc (h.ids first (hall first hfirstMem) c hc hfirstId)
    rcases mem_maintainLog.mp hd with ⟨changed, hchanged, rfl⟩ | hgone
    · rw [hlog, modifyFirst_eq_map_find hk.nodup] at hchanged
      obtain ⟨e, he, rfl⟩ := List.mem_map.mp hchanged
      by_cases hsome : log.commits.find? (fun commit => commit.id = reveal.input.commitId) = some e
      · obtain rfl := Option.some.inj (hfound.symm.trans hsome)
        rw [if_pos hsome, (same_maintainCommit behind _).1, hserial] at hlt
        exact absurd hlt (lt_irrefl _)
      · rw [if_neg hsome] at hlt hdproblem hdcid ⊢
        obtain ⟨hserial', -, hproblem', hcid'', habandoned⟩ := same_maintainCommit behind e
        rw [hserial', hserial] at hlt
        rcases hk.earlier hfirst he ((hproblem'.symm.trans hdproblem).trans hproblem)
          ((hcid''.symm.trans hdcid).trans hcid) hlt with hdone | ⟨hopen, hlease, hexpired⟩
        · exact habandoned hdone
        · exact maintainCommit_abandons hopen hlease hexpired hle
    · rw [hlog] at hgone
      rcases hk.ended d hgone with habandoned | hrevealed
      · exact habandoned
      · have hno := hretained d hgone (hdproblem.trans hproblem) (hdcid.trans hcid)
        rw [hrevealed] at hno
        cases hno
  · rw [hrecorded]
    refine List.forall_mem_append.mpr ⟨hled.matching, List.forall_mem_singleton.mpr ?_⟩
    obtain ⟨d, hd, hdserial, -, hdproblem, hdcid, -⟩ := hages.forth c hc
    exact ⟨d, hd, hdserial.trans hserial.symm, (hdproblem.trans hcproblem).trans hproblem.symm,
      (hdcid.trans hccid).trans hcid.symm⟩

theorem Led.persist {reveals : List Reveal} (h : Led reveals log) (hk : Kept log) {record : CommitRecord}
    (hfresh : ∀ c ∈ log.all, c.id ≠ record.id) : Led reveals { log with
      commits := log.commits ++ [{ record with serial := log.accepted }]
      accepted := log.accepted + 1 } := by
  have hmem : ∀ {c}, c ∈ log.commits ++ [{ record with serial := log.accepted }] ++ log.gone ↔
      c = { record with serial := log.accepted } ∨ c ∈ log.all := by
    intro c
    simp only [Log.all, List.mem_append, List.mem_singleton]
    tauto
  constructor
  · intro c hc d hd hid
    rcases hmem.mp hc with rfl | hc
    · rcases hmem.mp hd with rfl | hd
      · rfl
      · exact absurd hid.symm (hfresh d hd)
    · rcases hmem.mp hd with rfl | hd
      · exact absurd hid (hfresh c hc)
      · exact h.ids c hc d hd hid
  · intro r hr
    obtain ⟨hrid, c, hc, hrest⟩ := h.opened r hr
    exact ⟨hrid, c, hmem.mpr (.inr hc), hrest⟩
  · intro s hs hstate c hc hproblem hcid hlt
    rcases hmem.mp hc with rfl | hc
    · obtain ⟨d, hd, hserial, -⟩ := hk.revealed s hs
      exact absurd (hlt.trans_eq hserial.symm) (hk.bounded d hd).asymm
    · exact h.first s hs hstate c hc hproblem hcid hlt
  · intro s hs
    obtain ⟨c, hc, hrest⟩ := h.matching s hs
    exact ⟨c, hmem.mpr (.inr hc), hrest⟩

/-- Commit ids are fresh, and no commit of the solution of a reveal has been removed after it was revealed. -/
def Retained (p : Settings) (w : World) : Attempt → Prop
  | .commit _ commitId _ _ _ => ∀ c ∈ w.snapshot.rest.all, c.id ≠ commitId
  | .record leaseId _ _ before _ _ => ∀ reveal, w.reveal? leaseId [.reserved] = some reveal →
      ∀ c ∈ (maintainLog p before w.snapshot.rest).gone, c.problemId = reveal.record.problemId →
        c.solutionCid = reveal.record.solutionCid → c.revealed = false
  | _ => True

theorem Led.changed {reveals : List Reveal} (hreveals : reveals = w.reveals) {before behind : ℕ} {log' : Log}
    (h : Led reveals (maintainLog p before w.snapshot.rest)) (hk : Kept (maintainLog p before w.snapshot.rest))
    (hretained : Retained p w a)
    (hc : Changed p w a before behind (maintainLog p before w.snapshot.rest) log') :
    Led reveals (maintainLog p behind log') := by
  cases hc with
  | commit hprepared hpersisted =>
      obtain ⟨hid, -⟩ := prepareCommit_ok hprepared
      rw [persistCommit_ok hpersisted]
      refine (h.persist hk fun c hc => ?_).ages ages_maintain rfl
      obtain ⟨d, hd, -, hdid, -⟩ := (ages_maintain (p := p)).back c hc
      rw [hdid, hid]
      exact hretained d hd
  | reserve hreserved =>
      obtain ⟨stored, -, -, -, rfl⟩ := reserveReveal_ok hreserved
      refine h.ages (Ages.trans (ages_modifyFirst hk (fun c => ?_) _ _) ages_maintain) rfl
      exact ⟨rfl, rfl, rfl, rfl, id⟩
  | record hle hreveal hrecorded =>
      exact h.record hk (hreveals ▸ mem_reveals hreveal) hrecorded hle (hretained _ hreveal)
  | release =>
      refine h.ages (Ages.trans (ages_modifyFirst hk (fun c => ?_) _ _) ages_maintain) rfl
      split
      · exact ⟨rfl, rfl, rfl, rfl, id⟩
      · exact Same.refl c
  | other => exact h.ages ages_maintain rfl

theorem led_of_reachable (h : (system p).Reachable (Retained p) w) : Led w.reveals w.snapshot.rest := by
  refine h.invariant (P := fun w => Led w.reveals w.snapshot.rest) ?_ ?_
  · rintro w ⟨hempty, hreveals⟩
    rw [hempty, hreveals]
    constructor <;> simp [Log.all]
  · intro w a w' hreach hled hretained hstep
    have hk := kept_of_reachable hreach
    have hlog : Led w.reveals w'.snapshot.rest := by
      rcases log_of_step hstep with hsame | ⟨before, behind, log', hchanged, hrest⟩
      · rw [hsame]
        exact hled
      · rw [hrest]
        exact (hled.ages ages_maintain rfl).changed rfl hk.maintain hretained hchanged
    rcases reveals_of_step hstep with hstays | ⟨reveal, now, hreveals, hsame, hopened⟩
    · refine ⟨hlog.ids, fun r hr => ?_, hlog.first, hlog.matching⟩
      obtain ⟨r₀, hr₀, hopened, hinput⟩ := hstays r hr
      rw [hopened, hinput]
      exact hlog.opened r₀ hr₀
    · refine ⟨hlog.ids, ?_, hlog.first, hlog.matching⟩
      rw [hreveals]
      refine List.forall_mem_cons.mpr ⟨?_, hlog.opened⟩
      obtain ⟨hmem, hid, -⟩ := openCommit_ok hopened
      rw [hsame]
      exact ⟨hid, _, List.mem_append_left _ hmem, rfl, rfl, rfl⟩

/-- Whatever the catalogue and the verifier, the first commit of a solution has the priority as long as its
revealed commits are not removed. -/
theorem commit_priority_of_retained (h : (system p).Reachable (Retained p) w) : Priority w.snapshot.rest := by
  have hk := kept_of_reachable h
  have hled := led_of_reachable h
  -- of two credited submissions of a solution, the earlier commit would be abandoned, but it is revealed
  have hlt : ∀ s ∈ w.snapshot.rest.recorded, ∀ t ∈ w.snapshot.rest.recorded, t.state = .revealed →
      s.problemId = t.problemId → s.solutionCid = t.solutionCid → ¬ s.serial < t.serial := by
    intro s hs t ht hstate hproblem hcid hlt
    obtain ⟨c, hc, hserial, hcproblem, hccid⟩ := hled.matching s hs
    obtain ⟨d, hd, hdserial, hrevealed⟩ := hk.revealed s hs
    obtain rfl := hk.unique hc hd (hserial.trans hdserial.symm)
    exact hled.first t ht hstate c hc (hcproblem.trans hproblem) (hccid.trans hcid) (hserial.trans_lt hlt)
      (hk.sound c hc hrevealed)
  exact
    { places := hk.distinct
      listed := hk.listed
      revealed := hk.revealed
      once := hk.once
      first := hled.first
      unique := by
        intro s hs t ht hstate hstate' hproblem hcid
        have hserial : s.serial = t.serial :=
          le_antisymm (not_lt.mp (hlt t ht s hs hstate hproblem.symm hcid.symm))
            (not_lt.mp (hlt s hs t ht hstate' hproblem hcid))
        exact List.inj_on_of_nodup_map hk.once hs ht hserial }

end P42Prizes.PortalCommits
