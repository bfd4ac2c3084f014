import P42Prizes.QueueLaws
import P42Prizes.Systems

/-! # The action of a job

The operator records what becomes of the challenge of a job.  An action is fenced by the candidate it was
made for, never follows a disposition, and is settled once its status is terminal.  Recording the same
update again changes nothing, except where the first recording has taken over the transaction hash of the
action before it: the repetition is compared with the hash that was taken over, and is not recognised. -/

namespace P42Prizes.Challenger

open Reverting Transition

/-- A job with the time at which its action was recorded. -/
structure Stamped where
  job : Job
  recordedAt : Option ℤ := none
deriving DecidableEq

/-- `record_runner_action` of a job that is in the queue, at the time `now`.  An alert names the source
event of its job, and is validated when it is there already. -/
def ActionUpdate.recordAt (u : ActionUpdate) (now : ℤ) (x : Stamped) : Except QueueError Stamped := do
  u.check
  revertIf (u.jobId ≠ x.job.id) .jobNotFound
  let job ← u.record x.job
  if u.Repeats x.job.action then do
    revertIf (u.alertMessage ≠ none ∧ isSha256 x.job.sourceEventHash = false) .alertInvalid
    pure x
  else do
    revertIf (u.alertMessage ≠ none ∧ x.job.sourceEventHash = "") .alertInvalid
    pure ⟨job, some now⟩

/-- `set_runner_local_disposition` -/
def Disposition.setAt (d : Disposition) (retryVerified : Bool) (x : Stamped) : Except QueueError Stamped := do
  revertIf (x.job.id = "" ∨ isSha256 x.job.sourceEventHash = false) .identityInvalid
  match d.detail with
  | none => pure ()
  | some detail => revertIf (detail = "" ∨ maxDetailBytes < detail.utf8ByteSize) .identityInvalid
  let job ← setRunnerLocalDisposition d retryVerified x.job
  pure { x with job := job }

inductive ActionCall where
  | record (u : ActionUpdate) (now : ℤ)
  | dispose (d : Disposition) (retryVerified : Bool)

def ActionCall.run (x : Stamped) : ActionCall → Except QueueError Stamped
  | record u now => u.recordAt now x
  | dispose d retryVerified => d.setAt retryVerified x

/-- The action of a job is of its candidate, and there is none beside a disposition. -/
structure Job.Fenced (job : Job) : Prop where
  candidate : ∀ action ∈ job.action, job.challengeCandidateHash = some action.candidateHash
  exclusive : job.action = none ∨ job.terminalDisposition = none

/-- The calls on one job; a call that is refused changes nothing. -/
def runnerActions : System Stamped ActionCall where
  init x := x.job.Fenced
  step x call := (call.run x).toOption

/-- The update names its transaction or finds none to take over, and an alert has its source event. -/
def ActionUpdate.Repeatable (u : ActionUpdate) (job : Job) : Prop :=
  (u.transactionHash = none → ∀ action ∈ job.action, action.transactionHash = none) ∧
    (u.alertMessage ≠ none → isSha256 job.sourceEventHash = true)

section Recording

variable {u : ActionUpdate} {now : ℤ} {x y : Stamped} {job job' : Job} {d : Disposition} {verified : Bool}

/-- What is recorded of an update that does not repeat the action. -/
structure ActionUpdate.Records (u : ActionUpdate) (job job' : Job) : Prop where
  fresh : ¬ u.Repeats job.action
  step : ∀ action ∈ job.action, u.checkStep action.status = .ok ()
  job_eq : job' = { job with
    action := some (u.action job.action), actionAlert := u.alertMessage.or job.actionAlert }

theorem record_eq_ok : u.record job = .ok job' ↔
    job.terminalDisposition = none ∧ job.challengeCandidateHash = some u.candidateHash ∧
      (∀ action ∈ job.action, action.candidateHash = u.candidateHash) ∧
        (u.Repeats job.action ∧ (u.alertMessage ≠ none → job.actionAlert = u.alertMessage) ∧ job' = job ∨
          u.Records job job') := by
  simp only [ActionUpdate.record, bind_eq_ok, revertIf_eq_ok, exists_const, not_not, not_exists, not_and]
  refine and_congr Iff.rfl (and_congr Iff.rfl (and_congr Iff.rfl ?_))
  by_cases hrepeats : u.Repeats job.action
  · rw [if_pos hrepeats]
    simp only [bind_eq_ok, revertIf_eq_ok, exists_const, not_and, not_not, pure_eq_ok]
    constructor
    · rintro ⟨halert, rfl⟩
      exact .inl ⟨hrepeats, halert, rfl⟩
    · rintro (⟨-, halert, rfl⟩ | hrecords)
      · exact ⟨halert, rfl⟩
      · exact absurd hrepeats hrecords.fresh
  · rw [if_neg hrepeats]
    have hrecords : (∀ action ∈ job.action, u.checkStep action.status = .ok ()) ∧
        job' = { job with action := some (u.action job.action), actionAlert := u.alertMessage.or job.actionAlert } ↔
          u.Repeats job.action ∧ (u.alertMessage ≠ none → job.actionAlert = u.alertMessage) ∧ job' = job ∨
            u.Records job job' := by
      constructor
      · rintro ⟨hstep, rfl⟩
        exact .inr ⟨hrepeats, hstep, rfl⟩
      · rintro (⟨hrepeats', -⟩ | hrecords)
        · exact absurd hrepeats' hrepeats
        · exact ⟨hrecords.step, hrecords.job_eq⟩
    rw [← hrecords]
    cases haction : job.action with
    | none =>
        simp only [pure_eq_ok]
        exact ⟨fun h => ⟨fun action hmem => absurd hmem (Option.not_mem_none action), h.symm⟩, fun h => h.2.symm⟩
    | some current =>
        simp only [bind_eq_ok, pure_eq_ok]
        constructor
        · rintro ⟨_, hstep, rfl⟩
          exact ⟨fun action hmem => by rw [← Option.some.inj hmem]; exact hstep, rfl⟩
        · rintro ⟨hstep, rfl⟩
          exact ⟨(), hstep current rfl, rfl⟩

theorem recordAt_eq_ok : u.recordAt now x = .ok y ↔
    u.check = .ok () ∧ u.jobId = x.job.id ∧ ∃ job, u.record x.job = .ok job ∧
      (u.Repeats x.job.action ∧ (u.alertMessage ≠ none → isSha256 x.job.sourceEventHash = true) ∧ y = x ∨
        ¬ u.Repeats x.job.action ∧ (u.alertMessage ≠ none → x.job.sourceEventHash ≠ "") ∧
          y = ⟨job, some now⟩) := by
  simp only [ActionUpdate.recordAt, bind_eq_ok, revertIf_eq_ok, exists_const, not_not]
  have hunit : ∀ P : Prop, (∃ a : Unit, u.check = .ok a ∧ P) ↔ u.check = .ok () ∧ P :=
    fun P => ⟨fun h => h.elim fun _ h => h, fun h => ⟨(), h⟩⟩
  rw [hunit]
  refine and_congr Iff.rfl (and_congr Iff.rfl (exists_congr (fun job => and_congr Iff.rfl ?_)))
  by_cases hrepeats : u.Repeats x.job.action
  · rw [if_pos hrepeats]
    simp only [bind_eq_ok, revertIf_eq_ok, exists_const, not_and, Bool.not_eq_false, pure_eq_ok, hrepeats,
      true_and, not_true_eq_false, false_and, or_false]
    exact and_congr Iff.rfl eq_comm
  · rw [if_neg hrepeats]
    simp only [bind_eq_ok, revertIf_eq_ok, exists_const, not_and, pure_eq_ok, hrepeats, not_false_eq_true,
      true_and, false_and, false_or]
    exact and_congr Iff.rfl eq_comm

/-- A terminal action is not recorded over. -/
theorem ActionUpdate.Records.not_terminal (h : u.Records job job') {action : Action}
    (haction : job.action = some action) : action.status.terminal = false := by
  have hstep := h.step action haction
  simp only [ActionUpdate.checkStep, bind_eq_ok, revertIf_eq_ok, exists_const] at hstep
  simpa using hstep.1

theorem recordAt_fenced (hx : x.job.Fenced) (h : u.recordAt now x = .ok y) : y.job.Fenced := by
  obtain ⟨-, -, job, hrecord, ⟨-, -, rfl⟩ | ⟨hfresh, -, rfl⟩⟩ := recordAt_eq_ok.mp h
  · exact hx
  · obtain ⟨hdisposed, hfence, -, ⟨hrepeats, -⟩ | hrecords⟩ := record_eq_ok.mp hrecord
    · exact absurd hrepeats hfresh
    · rw [hrecords.job_eq]
      exact ⟨fun action haction => by rw [← Option.some.inj haction]; exact hfence, .inr hdisposed⟩

theorem setAt_eq_ok (h : d.setAt verified x = .ok y) :
    ∃ job, setRunnerLocalDisposition d verified x.job = .ok job ∧ y = { x with job := job } := by
  unfold Disposition.setAt at h
  obtain ⟨_, -, h⟩ := bind_eq_ok.mp h
  split at h
  · obtain ⟨job, hjob, h⟩ := bind_eq_ok.mp h
    exact ⟨job, hjob, (pure_eq_ok.mp h).symm⟩
  · obtain ⟨_, -, h⟩ := bind_eq_ok.mp h
    obtain ⟨job, hjob, h⟩ := bind_eq_ok.mp h
    exact ⟨job, hjob, (pure_eq_ok.mp h).symm⟩

theorem setAt_action (h : d.setAt verified x = .ok y) : x.job.action = none ∧ y.job.action = none := by
  obtain ⟨job, hjob, rfl⟩ := setAt_eq_ok h
  obtain ⟨-, hnone, rfl | ⟨hash, rfl⟩⟩ := disposition_spec hjob
  · exact ⟨hnone, hnone⟩
  · exact ⟨hnone, hnone⟩

theorem fenced_step {call : ActionCall} (hx : x.job.Fenced) (h : call.run x = .ok y) : y.job.Fenced := by
  cases call with
  | record u now => exact recordAt_fenced hx h
  | dispose d verified =>
      obtain ⟨-, hnone⟩ := setAt_action h
      refine ⟨fun action haction => ?_, .inl hnone⟩
      rw [hnone] at haction
      cases haction

/-- A job whose action is terminal is left as it is. -/
theorem terminal_step {call : ActionCall} {action : Action} (haction : x.job.action = some action)
    (hterminal : action.status.terminal = true) (h : call.run x = .ok y) : y = x := by
  cases call with
  | record u now =>
      obtain ⟨-, -, job, hrecord, ⟨-, -, rfl⟩ | ⟨hfresh, -, rfl⟩⟩ := recordAt_eq_ok.mp h
      · rfl
      · obtain ⟨-, -, -, ⟨hrepeats, -⟩ | hrecords⟩ := record_eq_ok.mp hrecord
        · exact absurd hrepeats hfresh
        · rw [hrecords.not_terminal haction] at hterminal
          cases hterminal
  | dispose d verified =>
      obtain ⟨hnone, -⟩ := setAt_action h
      rw [haction] at hnone
      cases hnone

/-- The action that was recorded is recognised, unless it has taken over a transaction. -/
theorem repeats_action (u : ActionUpdate) (current : Option Action) :
    u.Repeats (some (u.action current)) ↔
      (u.transactionHash = none → ∀ action ∈ current, action.transactionHash = none) := by
  have hiff : u.Repeats (some (u.action current)) ↔
      u.transactionHash.or (current.bind Action.transactionHash) = u.transactionHash := by
    constructor
    · rintro ⟨action, hsome, -, htransaction⟩
      rw [← Option.some.inj hsome] at htransaction
      exact htransaction
    · intro h
      exact ⟨_, rfl, rfl, h⟩
  rw [hiff]
  cases u.transactionHash with
  | some hash => simp
  | none =>
      cases current with
      | none => simp
      | some action => simp

theorem repeatable_iff (h : u.recordAt now x = .ok y) :
    (∀ later, u.recordAt later y = .ok y) ↔ u.Repeatable x.job := by
  obtain ⟨hcheck, hid, job, hrecord, ⟨hrepeats, hsource, rfl⟩ | ⟨hfresh, -, rfl⟩⟩ := recordAt_eq_ok.mp h
  · refine iff_of_true (fun later => ?_) ⟨fun hnone action haction => ?_, hsource⟩
    · exact recordAt_eq_ok.mpr ⟨hcheck, hid, job, hrecord, .inl ⟨hrepeats, hsource, rfl⟩⟩
    · obtain ⟨current, hcurrent, -, htransaction⟩ := hrepeats
      rw [haction] at hcurrent
      rw [Option.some.inj hcurrent, htransaction, hnone]
  · obtain ⟨hdisposed, hfence, hcandidate, ⟨hrepeats, -⟩ | hrecords⟩ := record_eq_ok.mp hrecord
    · exact absurd hrepeats hfresh
    have hagain := repeats_action u x.job.action
    have hjob := hrecords.job_eq
    constructor
    · intro hlater
      have hrepeats : u.Repeats job.action ∧ (u.alertMessage ≠ none → isSha256 job.sourceEventHash = true) := by
        obtain ⟨-, -, _, -, ⟨hrepeats, hsource, -⟩ | ⟨-, -, hnow⟩⟩ := recordAt_eq_ok.mp (hlater (now + 1))
        · exact ⟨hrepeats, hsource⟩
        · have hstamp := congrArg Stamped.recordedAt hnow
          simp only [Option.some.injEq] at hstamp
          omega
      rw [hjob] at hrepeats
      exact ⟨hagain.mp hrepeats.1, hrepeats.2⟩
    · rintro ⟨htransaction, hsource⟩ later
      have hrepeats : u.Repeats job.action := by
        rw [hjob]
        exact hagain.mpr htransaction
      refine recordAt_eq_ok.mpr ⟨hcheck, ?_, job, record_eq_ok.mpr ⟨?_, ?_, ?_, .inl ⟨hrepeats, ?_, rfl⟩⟩,
        .inl ⟨hrepeats, ?_, rfl⟩⟩
      · rw [hjob]
        exact hid
      · rw [hjob]
        exact hdisposed
      · rw [hjob]
        exact hfence
      · intro action haction
        rw [hjob] at haction
        rw [← Option.some.inj haction]
        rfl
      · intro halert
        rw [hjob]
        exact Option.or_of_isSome (Option.isSome_iff_ne_none.mpr halert)
      · rw [hjob]
        exact hsource

end Recording

/-- What holds of a job in every run. -/
structure ActionLaws (x : Stamped) : Prop where
  /-- Once an action is terminal nothing changes any more. -/
  terminal : ∀ action, x.job.action = some action → action.status.terminal = true →
    ∀ calls y, runnerActions.Run Free x calls y → y = x
  candidate : ∀ action, x.job.action = some action → x.job.challengeCandidateHash = some action.candidateHash
  exclusive : x.job.action = none ∨ x.job.terminalDisposition = none
  /-- An update that was accepted may be recorded again exactly if it is repeatable. -/
  repeated : ∀ (u : ActionUpdate) now y, u.recordAt now x = .ok y →
    ((∀ later, u.recordAt later y = .ok y) ↔ u.Repeatable x.job)

theorem ok_of_toOption {ε α : Type} {a : α} {r : Except ε α} (h : r.toOption = some a) : r = .ok a := by
  cases r with
  | error e => cases h
  | ok b => rw [Option.some.inj h]

/-- **The action of a job.** -/
theorem runner_actions {x : Stamped} (h : runnerActions.Reachable Free x) : ActionLaws x := by
  have hfenced : x.job.Fenced := h.invariant (fun _ hinit => hinit)
    (fun _ _ _ _ hx _ hstep => fenced_step hx (ok_of_toOption hstep))
  refine ⟨fun action haction hterminal calls y hrun => ?_, hfenced.candidate, hfenced.exclusive,
    fun u now y haccepted => repeatable_iff haccepted⟩
  refine hrun.invariant (P := fun y => y = x) ?_ rfl
  rintro y call z rfl - hstep
  exact terminal_step haction hterminal (ok_of_toOption hstep)

namespace ActionSample

def hash : String := "sha256:0000000000000000000000000000000000000000000000000000000000000001"

/-- A job whose candidate is known. -/
def start : Stamped := ⟨{ id := "job-1", sourceEventHash := hash, challengeCandidateHash := some hash }, none⟩

def signed : ActionUpdate :=
  { jobId := "job-1", candidateHash := hash, status := .signed, transactionHash := some "0xaa" }

/-- The operator learns that the challenge is confirmed, and does not name the transaction again. -/
def confirmed : ActionUpdate := { jobId := "job-1", candidateHash := hash, status := .confirmed }

end ActionSample

/-- The same update is accepted once and refused when it is repeated. -/
theorem confirmed_not_repeatable : ∃ x y, runnerActions.Reachable Free x ∧
    ActionSample.confirmed.recordAt 2 x = .ok y ∧
      ActionSample.confirmed.recordAt 3 y = .error .alreadyTerminal := by
  have hinit : runnerActions.init ActionSample.start :=
    ⟨fun action haction => (nomatch haction), .inl rfl⟩
  have hsigned : (ActionSample.signed.recordAt 1 ActionSample.start).toOption.isSome = true := by decide +kernel
  obtain ⟨x, hx⟩ := Option.isSome_iff_exists.mp hsigned
  have hconfirmed : ((ActionSample.signed.recordAt 1 ActionSample.start).bind (fun x =>
      (ActionSample.confirmed.recordAt 2 x).bind (fun y => ActionSample.confirmed.recordAt 3 y))) =
        .error .alreadyTerminal := by decide +kernel
  have hsome : ((ActionSample.signed.recordAt 1 ActionSample.start).bind (fun x =>
      ActionSample.confirmed.recordAt 2 x)).toOption.isSome = true := by decide +kernel
  rw [ok_of_toOption hx] at hconfirmed hsome
  obtain ⟨y, hy⟩ := Option.isSome_iff_exists.mp hsome
  have hy' := ok_of_toOption hy
  simp only [Except.bind] at hconfirmed hy'
  rw [hy'] at hconfirmed
  exact ⟨x, y, (System.Reachable.of_init hinit).step (a := .record ActionSample.signed 1) trivial hx, hy',
    hconfirmed⟩

theorem runner_actions_sample : ActionLaws ActionSample.start :=
  runner_actions (.of_init ⟨fun _ haction => (nomatch haction), .inl rfl⟩)

end P42Prizes.Challenger
