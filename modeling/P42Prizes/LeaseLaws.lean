import P42Prizes.QueueLaws
import P42Prizes.RunnerWorker

/-! # What the leases keep

The history of a run has an event for every claim, reap, cancellation and recorded outcome.  A job that
is running is under the lease of its last claim, and nothing has happened to it since (`Job.Kept`); so
an outcome can only be recorded for the last claim, and the attempts of a job are its reaps. -/

namespace P42Prizes.Challenger

open Reverting Transition
open WalletNonce (modifyFirst)

/-! ### Events -/

inductive Event where
  | claimed (worker : ℕ) (jobId : String)
  | reaped (jobId : String)
  | recorded (worker : ℕ) (jobId : String)
  | cancelled (jobId : String)
deriving DecidableEq, Repr

namespace Event

/-- The job that the event is about. -/
def jobId : Event → String
  | claimed _ jobId | reaped jobId | recorded _ jobId | cancelled jobId => jobId

def claims (jobId : String) : Event → Bool
  | claimed _ id => id = jobId
  | _ => false

def recordedBy (i : ℕ) : Event → Bool
  | recorded worker _ => worker = i
  | _ => false

end Event

namespace World

/-- What happens at an act, the last first. -/
def events (w : World) : Act → List Event
  | .claim input =>
      match input.claim w.queue with
      | .error _ => []
      | .ok (claimed, _) =>
          claimed.toList.map (fun job => .claimed w.workers.length job.id) ++
            (reapStaleLeases input.now defaultMaxJobAttempts w.queue).1.map .reaped
  | .record i input =>
      match w.workers[i]? with
      | some ⟨jobId, token, _, .finished result⟩ =>
          match input.recordOutcome jobId token result w.queue with
          | .ok (true, _) => [.recorded i jobId]
          | _ => []
      | _ => []
  | .quarantine jobId reason =>
      match updateJob jobId (quarantineCanonical reason) w.queue with
      | .ok _ => [.cancelled jobId]
      | .error _ => []
  | _ => []

end World

/-- A job that has not been claimed yet. -/
def Job.New (job : Job) : Prop :=
  job.status = .queued ∧ job.leaseExpiresAt = none ∧ job.leaseToken = none ∧ job.attempts = none

/-- The runner of one queue, from a queue of new jobs. -/
def runner : System World Act where
  init w := w.workers = [] ∧ w.slot = none ∧ (w.queue.map Job.id).Nodup ∧ ∀ job ∈ w.queue, job.New
  step := World.step

/-- The runner with its history, the last event first. -/
def runnerHistory : System (World × List Event) Act :=
  runner.withHistory [] (fun w act _ log => w.events act ++ log)

/-- A token that is drawn is new. -/
def Act.Fresh (w : World) : Act → Prop
  | .claim input => input.token ∉ w.workers.map Worker.token
  | _ => True

/-! ### A job and its history -/

/-- What a worker has claimed, and under which token. -/
def Worker.claimed (worker : Worker) : String × String := (worker.jobId, worker.token)

/-- The events about a job. -/
def about (id : String) (log : List Event) : List Event := log.filter (fun event => event.jobId = id)

/-- What holds of a job of the queue, given the claims of the workers and the history. -/
structure Job.Kept (claims : List (String × String)) (log : List Event) (job : Job) : Prop where
  /-- While it is running it is under the lease of its last claim. -/
  held : job.status = .running → job.leaseExpiresAt.isSome = true ∧ ∃ i token,
    job.leaseToken = some token ∧ claims[i]? = some (job.id, token) ∧
      (about job.id log).head? = some (.claimed i job.id)
  free : job.status = .queued ∨ job.status = .succeeded ∨ job.status = .failed →
    job.leaseExpiresAt = none ∧ job.leaseToken = none
  attempts : job.attemptCount = log.count (.reaped job.id)
  bounded : job.attemptCount ≤ defaultMaxJobAttempts
  below : job.status = .queued ∨ job.status = .running ∨ job.status = .succeeded →
    job.attemptCount < defaultMaxJobAttempts
  /-- Only the operator cancels, by an action. -/
  cancelled : job.status = .cancelled → job.action ≠ none

section Kept

variable {claims more : List (String × String)} {log events : List Event} {job job' : Job}
  {id : String}

theorem about_append (id : String) (events log : List Event) :
    about id (events ++ log) = about id events ++ about id log := List.filter_append ..

theorem about_eq_nil (h : ∀ event ∈ events, event.jobId ≠ id) : about id events = [] := by
  rw [about, List.filter_eq_nil_iff]
  intro event hevent
  simpa using h event hevent

theorem count_reaped_of_about (id : String) (log : List Event) :
    log.count (.reaped id) = (about id log).count (.reaped id) := by
  rw [about, List.count_filter]
  simp [Event.jobId]

/-- What happens to other jobs, and more claims, leave a job as it is. -/
theorem Job.Kept.frame (more : List (String × String)) (events : List Event) (h : job.Kept claims log)
    (hevents : ∀ event ∈ events, event.jobId ≠ job.id) :
    job.Kept (claims ++ more) (events ++ log) := by
  have habout : about job.id (events ++ log) = about job.id log := by
    rw [about_append, about_eq_nil hevents, List.nil_append]
  refine { h with held := fun hrunning => ?_, attempts := ?_ }
  · obtain ⟨hexpires, i, token, htoken, hclaim, hhead⟩ := h.held hrunning
    refine ⟨hexpires, i, token, htoken, ?_, habout ▸ hhead⟩
    obtain ⟨hi, -⟩ := List.getElem?_eq_some_iff.mp hclaim
    rw [List.getElem?_append_left hi, hclaim]
  · rw [h.attempts, count_reaped_of_about, count_reaped_of_about job.id (events ++ log), habout]

/-- A change that touches neither the lease nor the attempts. -/
theorem Job.Kept.congr (h : job.Kept claims log) (hid : job'.id = job.id)
    (hstatus : job'.status = job.status) (hexpires : job'.leaseExpiresAt = job.leaseExpiresAt)
    (htoken : job'.leaseToken = job.leaseToken) (hattempts : job'.attempts = job.attempts)
    (haction : job.action ≠ none → job'.action ≠ none) : job'.Kept claims log := by
  have hcount : job'.attemptCount = job.attemptCount := by
    rw [Job.attemptCount, hattempts, Job.attemptCount]
  constructor
  · rw [hid, hstatus, hexpires, htoken]
    exact h.held
  · rw [hstatus, hexpires, htoken]
    exact h.free
  · rw [hcount, hid]
    exact h.attempts
  · rw [hcount]
    exact h.bounded
  · rw [hcount, hstatus]
    exact h.below
  · rw [hstatus]
    exact fun hcancelled => haction (h.cancelled hcancelled)

theorem Job.reap_id (job : Job) (maxAttempts : ℕ) : (job.reap maxAttempts).id = job.id := by
  unfold Job.reap
  simp only
  split <;> rfl

theorem reap_ids (now : ℤ) (maxAttempts : ℕ) (queue : List Job) :
    (reapStaleLeases now maxAttempts queue).2.map Job.id = queue.map Job.id := by
  rw [reapStaleLeases, List.map_map]
  refine List.map_congr_left (fun job _ => ?_)
  simp only [Function.comp_apply]
  split
  · exact job.reap_id maxAttempts
  · rfl

theorem Event.count_map_reaped (ids : List String) (id : String) :
    (ids.map Event.reaped).count (.reaped id) = ids.count id :=
  List.count_map_of_injective ids Event.reaped (fun _ _ h => Event.reaped.inj h) id

/-- A reap counts one more attempt, and the last one ends the job. -/
theorem Job.Kept.reap {now : ℤ} (h : job.Kept claims log) (hstale : job.stale now = true)
    (hcount : (events ++ log).count (.reaped job.id) = 1 + log.count (.reaped job.id)) :
    (job.reap defaultMaxJobAttempts).Kept claims (events ++ log) := by
  have hrunning : job.status = .running := by
    simp only [Job.stale, Bool.and_eq_true, decide_eq_true_eq] at hstale
    exact hstale.1
  have hbelow := h.below (.inr (.inl hrunning))
  have hattempts := h.attempts
  unfold Job.reap
  simp only
  split
  · rename_i hlast
    constructor
    · exact fun hr => by cases hr
    · exact fun _ => ⟨rfl, rfl⟩
    · simp only [Job.attemptCount, Option.getD_some, Int.toNat_natCast] at hattempts ⊢
      omega
    · simp only [Job.attemptCount, Option.getD_some, Int.toNat_natCast] at hbelow ⊢
      omega
    · rintro (hs | hs | hs) <;> cases hs
    · exact fun hs => by cases hs
  · rename_i hmore
    constructor
    · exact fun hr => by cases hr
    · exact fun _ => ⟨rfl, rfl⟩
    · simp only [Job.attemptCount, Option.getD_some, Int.toNat_natCast] at hattempts ⊢
      omega
    · simp only [Job.attemptCount, Option.getD_some, Int.toNat_natCast] at hbelow ⊢
      omega
    · intro _
      simp only [Job.attemptCount, Option.getD_some, Int.toNat_natCast] at hmore ⊢
      omega
    · exact fun hs => by cases hs

/-- A queued job is claimed under a fresh token. -/
theorem Job.Kept.lease (input : ClaimInput) (h : job.Kept claims log) (hqueued : job.status = .queued) :
    (job.lease input).Kept (claims ++ [(job.id, input.token)])
      ([.claimed claims.length job.id] ++ log) := by
  have hattempts := h.attempts
  have hbelow := h.below (.inl hqueued)
  constructor
  · refine fun _ => ⟨rfl, claims.length, input.token, rfl, ?_, ?_⟩
    · rw [List.getElem?_append_right (le_refl _), Nat.sub_self]
      rfl
    · simp [about, Event.jobId, Job.lease]
  · rintro (hs | hs | hs) <;> cases hs
  · rw [List.count_append, List.count_singleton, if_neg (by simp), Nat.zero_add]
    exact hattempts
  · exact h.bounded
  · exact fun _ => hbelow
  · exact fun hs => by cases hs

theorem Job.Kept.extend {expires : ℤ} (h : job.Kept claims log) (hrunning : job.status = .running) :
    ({ job with leaseExpiresAt := some expires } : Job).Kept claims log := by
  constructor
  · exact fun _ => ⟨rfl, (h.held hrunning).2⟩
  · intro hfree
    rw [hrunning] at hfree
    simp at hfree
  · exact h.attempts
  · exact h.bounded
  · exact h.below
  · exact h.cancelled

/-- A job that is not running is ended. -/
theorem Job.Kept.dispose {d : Disposition} {verified : Bool} (h : job.Kept claims log)
    (hrun : setRunnerLocalDisposition d verified job = .ok job') : job'.Kept claims log := by
  obtain ⟨hrunning, haction, rfl | ⟨hash, rfl⟩⟩ := disposition_spec hrun
  · exact h
  · have hfree : job.status = .queued ∨ job.status = .succeeded ∨ job.status = .failed := by
      cases hstatus : job.status with
      | running => exact absurd hstatus hrunning
      | cancelled => exact absurd haction (h.cancelled hstatus)
      | queued => exact .inl rfl
      | succeeded => exact .inr (.inl rfl)
      | failed => exact .inr (.inr rfl)
    constructor
    · exact fun hs => by cases hs
    · exact fun _ => h.free hfree
    · exact h.attempts
    · exact h.bounded
    · rintro (hs | hs | hs) <;> cases hs
    · exact fun hs => by cases hs

theorem Job.Kept.quarantine {reason : String} (h : job.Kept claims log)
    (hrun : quarantineCanonical reason job = .ok job') :
    job'.Kept claims ([.cancelled job.id] ++ log) := by
  obtain ⟨hash, action, alert, -, rfl⟩ := quarantine_spec hrun
  constructor
  · exact fun hs => by cases hs
  · rintro (hs | hs | hs) <;> cases hs
  · rw [List.count_append, List.count_singleton, if_neg (by simp), Nat.zero_add]
    exact h.attempts
  · exact h.bounded
  · rintro (hs | hs | hs) <;> cases hs
  · exact fun _ hnone => by cases hnone

/-- What an outcome makes of a job. -/
theorem outcome_spec {input : RecordInput} {result : RunResult}
    (h : input.record result job = .ok job') :
    job'.id = job.id ∧ job'.attempts = job.attempts ∧ job'.leaseExpiresAt = none ∧
      job'.leaseToken = none ∧
      (job'.status = .queued ∨ job'.status = .succeeded ∨ job'.status = .failed) := by
  cases result with
  | error message storage =>
      simp only [RecordInput.record, RecordInput.recordError] at h
      split at h
      · simp only [pure_eq_ok] at h
        subst h
        exact ⟨rfl, rfl, rfl, rfl, .inl rfl⟩
      · obtain ⟨-, -, rfl | ⟨hash, rfl⟩⟩ := disposition_spec h
        · exact ⟨rfl, rfl, rfl, rfl, .inr (.inr rfl)⟩
        · exact ⟨rfl, rfl, rfl, rfl, .inr (.inr rfl)⟩
  | transcript verdict =>
      simp only [RecordInput.record, RecordInput.recordTranscript] at h
      split at h
      · split at h
        · simp only [pure_eq_ok] at h
          subst h
          exact ⟨rfl, rfl, rfl, rfl, .inl rfl⟩
        · obtain ⟨-, -, rfl | ⟨hash, rfl⟩⟩ := disposition_spec h
          · exact ⟨rfl, rfl, rfl, rfl, .inr (.inr rfl)⟩
          · exact ⟨rfl, rfl, rfl, rfl, .inr (.inr rfl)⟩
      · simp only [pure_eq_ok] at h
        subst h
        refine ⟨rfl, rfl, rfl, rfl, .inr ?_⟩
        simp only
        split
        · exact .inl rfl
        · exact .inr rfl

theorem Job.Kept.outcome {input : RecordInput} {result : RunResult} {i : ℕ} (h : job.Kept claims log)
    (hrunning : job.status = .running) (hrun : input.record result job = .ok job') :
    job'.Kept claims ([.recorded i job.id] ++ log) := by
  obtain ⟨hid, hattempts, hexpires, htoken, hstatus⟩ := outcome_spec hrun
  have hcount : job'.attemptCount = job.attemptCount := by
    rw [Job.attemptCount, hattempts, Job.attemptCount]
  constructor
  · intro hs
    rw [hs] at hstatus
    simp at hstatus
  · exact fun _ => ⟨hexpires, htoken⟩
  · rw [hcount, hid, List.count_append, List.count_singleton, if_neg (by simp), Nat.zero_add]
    exact h.attempts
  · exact hcount ▸ h.bounded
  · exact fun _ => hcount ▸ h.below (.inr (.inl hrunning))
  · intro hs
    rw [hs] at hstatus
    simp at hstatus

end Kept

/-! ### Claims -/

section Claims

variable {queue queue' : List Job} {job : Job} {claimed : Option Job} {input : ClaimInput} {plan : Plan}

/-- A plan selects a queued job. -/
theorem plan_selected {memory : MemorySnapshot} {policy : RunnerPolicy} {now chainNow : ℤ}
    (h : planRunnerQueue memory policy now chainNow queue = .ok plan) (hjob : plan.selected = some job) :
    job ∈ queue ∧ job.status = .queued := by
  simp only [planRunnerQueue, bind_eq_ok, revertIf_eq_ok] at h
  obtain ⟨-, -, -, -, -, -, h⟩ := h
  split at h
  · cases h
    cases hjob
  split at h
  · cases h
    cases hjob
  split at h
  · cases h
    cases hjob
  rename_i first rest hqueued
  have hmem : ∀ j ∈ first :: rest, j ∈ queue ∧ j.status = .queued := by
    intro j hj
    rw [← hqueued, List.mem_insertionSort, List.mem_filter] at hj
    exact ⟨hj.1, by simpa using hj.2⟩
  split at h
  · cases h
    cases hjob
    exact hmem _ (List.mem_cons_self ..)
  rename_i selected others heligible
  have hselected : selected ∈ queue ∧ selected.status = .queued := by
    have hcons : selected ∈ (first :: rest).filter (Job.retryIsEligible now chainNow) := by
      rw [← hqueued, heligible]
      exact List.mem_cons_self ..
    exact hmem _ (List.mem_filter.mp hcons).1
  split at h
  · cases h
    cases hjob
  split at h
  · cases h
    cases hjob
    exact hselected
  split at h
  · cases h
    cases hjob
    exact hselected
  · cases h
    cases hjob
    exact hselected

theorem mem_of_planningQueue {planning : List Job} (h : input.planningQueue queue = .ok (some planning))
    (hjob : job ∈ planning) : job ∈ queue := by
  unfold ClaimInput.planningQueue at h
  split at h
  · cases h
    exact hjob
  split at h
  · cases h
  split at h
  · cases h
  split at h
  · cases h
  · cases h
    exact (List.mem_filter.mp hjob).1

/-- What a claim makes of the queue, after the reap: nothing, the end of a queued job or its lease. -/
def Claims (input : ClaimInput) (queue : List Job) (claimed : Option Job) (queue' : List Job) : Prop :=
  claimed = none ∧ queue' = queue ∨
    ∃ job ∈ queue, job.status = .queued ∧
      (claimed = none ∧ (∃ d job', setRunnerLocalDisposition d false job = .ok job' ∧
          queue' = replaceJob job' queue) ∨
        claimed = some (job.lease input) ∧ queue' = replaceJob (job.lease input) queue)

theorem dispose_claims {reason : DispositionReason} {detail : Option String}
    (hn : (queue.map Job.id).Nodup) (hjob : job ∈ queue) (hqueued : job.status = .queued)
    (h : ClaimInput.dispose job reason detail queue = .ok (claimed, queue')) :
    Claims input queue claimed queue' := by
  obtain ⟨q, hq, h⟩ := bind_eq_ok.mp h
  cases h
  cases hupdate : updateJob job.id (setRunnerLocalDisposition ⟨reason, detail⟩ false) queue with
  | error e =>
      rw [hupdate] at hq
      cases hq
  | ok q' =>
      rw [hupdate] at hq
      cases hq
      obtain ⟨found, hfound, hid, job', hjob', rfl⟩ :=
        updateJob_spec hn (fun _ _ => disposition_id) hupdate
      obtain rfl := eq_of_id_eq hn hjob hfound hid
      exact .inr ⟨found, hfound, hqueued, .inl ⟨rfl, _, job', hjob', rfl⟩⟩

theorem follow_claims (hn : (queue.map Job.id).Nodup)
    (hselected : ∀ job, plan.selected = some job → job ∈ queue ∧ job.status = .queued)
    (h : input.follow plan queue = .ok (claimed, queue')) : Claims input queue claimed queue' := by
  unfold ClaimInput.follow at h
  split at h
  · rename_i selected _ hjob
    obtain ⟨hmem, hqueued⟩ := hselected selected hjob
    split at h
    · exact dispose_claims hn hmem hqueued h
    · simp only [bind_eq_ok, revertIf_eq_ok] at h
      obtain ⟨-, -, -, -, -, -, h⟩ := h
      cases h
      refine .inr ⟨selected, hmem, hqueued, .inr ⟨rfl, ?_⟩⟩
      exact modifyFirst_eq_replaceJob hn hmem rfl
  · rename_i selected _ hjob
    obtain ⟨hmem, hqueued⟩ := hselected selected hjob
    exact dispose_claims hn hmem hqueued h
  · cases h
    exact .inl ⟨rfl, rfl⟩

theorem claim_claims (hn : (queue.map Job.id).Nodup) (h : input.claim queue = .ok (claimed, queue')) :
    Claims input (reapStaleLeases input.now defaultMaxJobAttempts queue).2 claimed queue' := by
  have hn' := (reap_ids input.now defaultMaxJobAttempts queue).symm ▸ hn
  simp only [ClaimInput.claim, bind_eq_ok, revertIf_eq_ok] at h
  obtain ⟨-, -, chainNow, -, planning, hplanning, h⟩ := h
  split at h
  · cases h
    exact .inl ⟨rfl, rfl⟩
  · rename_i planning
    obtain ⟨plan, hplan, h⟩ := bind_eq_ok.mp h
    refine follow_claims hn' (fun job hjob => ?_) h
    cases hrun : planRunnerQueue input.memory input.policy input.now chainNow planning with
    | error e =>
        rw [hrun] at hplan
        cases hplan
    | ok plan' =>
        rw [hrun] at hplan
        cases hplan
        obtain ⟨hmem, hqueued⟩ := plan_selected hrun hjob
        exact ⟨mem_of_planningQueue hplanning hmem, hqueued⟩

end Claims

/-! ### A queue and its history -/

/-- What holds of the queue. -/
structure Kept (claims : List (String × String)) (log : List Event) (queue : List Job) : Prop where
  ids : (queue.map Job.id).Nodup
  jobs : ∀ job ∈ queue, job.Kept claims log
  known : ∀ event ∈ log, event.jobId ∈ queue.map Job.id

namespace Kept

variable {claims : List (String × String)} {log : List Event} {queue : List Job} {job job' : Job}

/-- One job is changed, and what has happened is about it. -/
theorem replace (more : List (String × String)) (events : List Event) (h : Kept claims log queue)
    (hjob : job ∈ queue) (hid : job'.id = job.id) (hevents : ∀ event ∈ events, event.jobId = job.id)
    (hkept : job'.Kept (claims ++ more) (events ++ log)) :
    Kept (claims ++ more) (events ++ log) (replaceJob job' queue) where
  ids := (replaceJob_ids job' queue).symm ▸ h.ids
  jobs := by
    intro other hother
    rcases mem_replaceJob hother with rfl | ⟨hmem, hne⟩
    · exact hkept
    · exact (h.jobs other hmem).frame _ _ (fun event hevent heq =>
        hne (heq.symm.trans ((hevents event hevent).trans hid.symm)))
  known := by
    intro event hevent
    rw [replaceJob_ids]
    rcases List.mem_append.mp hevent with hnew | hold
    · rw [hevents event hnew]
      exact List.mem_map_of_mem hjob
    · exact h.known event hold

/-- One job is changed, and nothing has happened. -/
theorem replace_quiet (h : Kept claims log queue) (hjob : job ∈ queue) (hid : job'.id = job.id)
    (hkept : job'.Kept claims log) : Kept claims log (replaceJob job' queue) := by
  have hquiet := h.replace [] [] hjob hid (fun _ h => absurd h List.not_mem_nil)
    (by simpa using hkept)
  simpa using hquiet

theorem of_new (hids : (queue.map Job.id).Nodup) (hnew : ∀ job ∈ queue, job.New) :
    Kept claims [] queue where
  ids := hids
  jobs := fun job hjob => by
    obtain ⟨hstatus, hexpires, htoken, hattempts⟩ := hnew job hjob
    have hcount : job.attemptCount = 0 := by rw [Job.attemptCount, hattempts]; rfl
    constructor
    · intro hrunning
      rw [hstatus] at hrunning
      cases hrunning
    · exact fun _ => ⟨hexpires, htoken⟩
    · rw [hcount, List.count_nil]
    · rw [hcount]
      exact Nat.zero_le _
    · intro _
      rw [hcount]
      decide
    · intro hcancelled
      rw [hstatus] at hcancelled
      cases hcancelled
  known := fun _ h => absurd h List.not_mem_nil

/-- A job that is appended has no history. -/
theorem append (h : Kept claims log queue) {spec : JobSpec}
    (hids : ((queue ++ [spec.job]).map Job.id).Nodup) : Kept claims log (queue ++ [spec.job]) where
  ids := hids
  jobs := by
    intro job hjob
    rcases List.mem_append.mp hjob with hold | hnew
    · exact h.jobs job hold
    · obtain rfl := List.mem_singleton.mp hnew
      have hnone : log.count (.reaped spec.job.id) = 0 := by
        rw [List.count_eq_zero]
        intro hmem
        rw [List.map_append] at hids
        exact (List.nodup_append.mp hids).2.2 _ (h.known _ hmem) _ (List.mem_singleton_self _) rfl
      constructor
      · exact fun hrunning => by cases hrunning
      · exact fun _ => ⟨rfl, rfl⟩
      · exact hnone.symm
      · exact Nat.zero_le _
      · exact fun _ => (by decide : 0 < defaultMaxJobAttempts)
      · exact fun hcancelled => by cases hcancelled
  known := fun event hevent => by
    rw [List.map_append]
    exact List.mem_append_left _ (h.known event hevent)

/-- A reap of the stale leases. -/
theorem reap (h : Kept claims log queue) (now : ℤ) :
    Kept claims ((reapStaleLeases now defaultMaxJobAttempts queue).1.map .reaped ++ log)
      (reapStaleLeases now defaultMaxJobAttempts queue).2 := by
  have hids := reap_ids now defaultMaxJobAttempts queue
  constructor
  case ids => exact hids.symm ▸ h.ids
  case jobs =>
    intro job' hjob'
    obtain ⟨job, hjob, rfl⟩ := List.mem_map.mp hjob'
    have hother : job.stale now = false →
        job.id ∉ (reapStaleLeases now defaultMaxJobAttempts queue).1 := by
      intro hlive hmem
      obtain ⟨stale, hstale, heq⟩ := List.mem_map.mp hmem
      rw [List.mem_filter] at hstale
      rw [eq_of_id_eq h.ids hjob hstale.1 heq, hlive] at hstale
      cases hstale.2
    split
    · rename_i hstale
      have hmem : job.id ∈ (reapStaleLeases now defaultMaxJobAttempts queue).1 :=
        List.mem_map_of_mem (List.mem_filter.mpr ⟨hjob, hstale⟩)
      have hnodup : (reapStaleLeases now defaultMaxJobAttempts queue).1.Nodup :=
        (List.filter_sublist.map Job.id).nodup h.ids
      refine (h.jobs job hjob).reap hstale ?_
      rw [List.count_append, Event.count_map_reaped, List.count_eq_one_of_mem hnodup hmem]
    · rename_i hlive
      have hframe := (h.jobs job hjob).frame []
        ((reapStaleLeases now defaultMaxJobAttempts queue).1.map .reaped) ?_
      · simpa using hframe
      · intro event hevent heq
        obtain ⟨id, hid, rfl⟩ := List.mem_map.mp hevent
        exact hother (by simpa using hlive) ((show id = job.id from heq) ▸ hid)
  case known =>
    intro event hevent
    rw [hids]
    rcases List.mem_append.mp hevent with hnew | hold
    · obtain ⟨id, hid, rfl⟩ := List.mem_map.mp hnew
      exact (List.filter_sublist.map Job.id).subset hid
    · exact h.known event hold

end Kept

/-! ### The runner and its history -/

/-- A heartbeat leaves the queue as it is, or extends the lease of a job under the token. -/
theorem heartbeat_spec {queue : List Job} (hn : (queue.map Job.id).Nodup) (id token : String)
    (now leaseSeconds : ℤ) :
    heartbeat id token now leaseSeconds queue = queue ∨
      ∃ job ∈ queue, job.status = .running ∧ heartbeat id token now leaseSeconds queue =
        replaceJob { job with leaseExpiresAt := some (now + leaseSeconds) } queue := by
  unfold heartbeat
  split
  · exact .inl rfl
  · rename_i job hfind
    have hjob := List.mem_of_find?_eq_some hfind
    have hid : job.id = id := by simpa using List.find?_some hfind
    subst hid
    split
    · rename_i hheld
      simp only [Job.heldBy, Bool.and_eq_true, decide_eq_true_eq] at hheld
      refine .inr ⟨job, hjob, hheld.1, ?_⟩
      exact modifyFirst_eq_replaceJob
        (g := fun job => { job with leaseExpiresAt := some (now + leaseSeconds) }) hn hjob rfl
    · exact .inl rfl

/-- An outcome is recorded for a job that the token holds, or nothing is. -/
theorem recordOutcome_spec {queue queue' : List Job} {input : RecordInput} {id token : String}
    {result : RunResult} {recorded : Bool} (hn : (queue.map Job.id).Nodup)
    (h : input.recordOutcome id token result queue = .ok (recorded, queue')) :
    recorded = false ∧ queue' = queue ∨
      recorded = true ∧ ∃ job ∈ queue, job.id = id ∧ job.status = .running ∧
        job.leaseToken = some token ∧ ∃ job', input.record result job = .ok job' ∧
          queue' = replaceJob job' queue := by
  unfold RecordInput.recordOutcome at h
  split at h
  · cases h
    exact .inl ⟨rfl, rfl⟩
  · rename_i job hfind
    have hjob := List.mem_of_find?_eq_some hfind
    have hid : job.id = id := by simpa using List.find?_some hfind
    split at h
    · rename_i hheld
      obtain ⟨job', hjob', h⟩ := bind_eq_ok.mp h
      cases h
      simp only [Job.heldBy, Bool.and_eq_true, decide_eq_true_eq] at hheld
      subst hid
      refine .inr ⟨rfl, job, hjob, rfl, hheld.1, hheld.2, job', hjob', ?_⟩
      exact modifyFirst_eq_replaceJob (g := fun _ => job') hn hjob (outcome_spec hjob').1
    · cases h
      exact .inl ⟨rfl, rfl⟩

/-- A new job is appended, or the queue is left as it is. -/
theorem enqueue_spec {queue queue' : List Job} {spec : JobSpec} {archived : Bool}
    {chainNow : Option ℤ} (h : enqueueRunnerJob spec archived chainNow queue = .ok queue') :
    queue' = queue ∨ queue' = queue ++ [spec.job] ∧ (queue'.map Job.id).Nodup := by
  simp only [enqueueRunnerJob, bind_eq_ok, revertIf_eq_ok] at h
  obtain ⟨-, -, -, -, h⟩ := h
  split at h
  · exact .inl (pure_eq_ok.mp h).symm
  split at h
  · simp only [bind_eq_ok, revertIf_eq_ok, pure_eq_ok] at h
    obtain ⟨-, -, rfl⟩ := h
    exact .inl rfl
  · simp only [bind_eq_ok, revertIf_eq_ok, pure_eq_ok, validateJobs] at h
    obtain ⟨-, -, -, ⟨-, -, -, hids, -⟩, rfl⟩ := h
    exact .inr ⟨rfl, by simpa using hids⟩

@[simp] theorem World.setPhase_queue (w : World) (i : ℕ) (phase : Phase) :
    (w.setPhase i phase).queue = w.queue := rfl

@[simp] theorem World.freeSlot_queue (w : World) (i : ℕ) : (w.freeSlot i).queue = w.queue := rfl

@[simp] theorem World.freeSlot_workers (w : World) (i : ℕ) : (w.freeSlot i).workers = w.workers := rfl

theorem map_modify_of_eq {α β : Type} (f : α → β) (g : α → α) (hg : ∀ x, f (g x) = f x) (l : List α)
    (i : ℕ) : (l.modify i g).map f = l.map f := by
  refine List.ext_getElem? (fun n => ?_)
  rw [List.getElem?_map, List.getElem?_map, List.getElem?_modify]
  cases l[n]? with
  | none => rfl
  | some x =>
      by_cases h : i = n
      · simp [h, hg]
      · simp [h]

/-- A worker keeps its claim. -/
@[simp] theorem World.setPhase_claimed (w : World) (i : ℕ) (phase : Phase) :
    (w.setPhase i phase).workers.map Worker.claimed = w.workers.map Worker.claimed :=
  map_modify_of_eq Worker.claimed (fun worker => { worker with phase := phase }) (fun _ => rfl) w.workers i

@[simp] theorem World.setPhase_token (w : World) (i : ℕ) (phase : Phase) :
    (w.setPhase i phase).workers.map Worker.token = w.workers.map Worker.token :=
  map_modify_of_eq Worker.token (fun worker => { worker with phase := phase }) (fun _ => rfl) w.workers i

/-- A worker that has ended, with its result recorded or dead. -/
def Worker.Ended (worker : Worker) : Prop := worker.phase = .closed ∨ worker.phase = .crashed

def EndedAt (workers : List Worker) (i : ℕ) : Prop := ∃ worker, workers[i]? = some worker ∧ worker.Ended

theorem World.setPhase_ended {w : World} {i j : ℕ} {phase : Phase}
    (hphase : phase = .closed ∨ phase = .crashed)
    (h : EndedAt w.workers j) : EndedAt (w.setPhase i phase).workers j := by
  obtain ⟨worker, hworker, hended⟩ := h
  rw [EndedAt, World.setPhase, List.getElem?_modify, hworker]
  by_cases hij : i = j
  · exact ⟨{ worker with phase := phase }, by simp [hij], hphase⟩
  · exact ⟨worker, by simp [hij], hended⟩

/-- A worker that has not ended goes on, and the ended ones stay as they are. -/
theorem World.setPhase_live {w : World} {i j : ℕ} {phase : Phase} {live : Worker}
    (hlive : w.workers[i]? = some live) (hnot : ¬ live.Ended)
    (h : EndedAt w.workers j) : EndedAt (w.setPhase i phase).workers j := by
  obtain ⟨worker, hworker, hended⟩ := h
  have hij : i ≠ j := by
    rintro rfl
    rw [hlive] at hworker
    cases hworker
    exact hnot hended
  rw [EndedAt, World.setPhase, List.getElem?_modify, hworker]
  exact ⟨worker, by simp [hij], hended⟩

/-- What holds of the runner and its history. -/
structure Fencing (p : World × List Event) : Prop where
  queue : Kept (p.1.workers.map Worker.claimed) p.2 p.1.queue
  tokens : (p.1.workers.map Worker.token).Nodup
  fenced : ∀ later earlier i id, p.2 = later ++ .recorded i id :: earlier →
    (about id earlier).head? = some (.claimed i id)
  once : ∀ i, (p.2.filter (Event.recordedBy i)).length ≤ 1
  ended : ∀ i id, .recorded i id ∈ p.2 → EndedAt p.1.workers i

namespace Fencing

variable {w w' : World} {log : List Event} {i : ℕ}

/-- Events that record nothing keep what is known of the recorded outcomes. -/
theorem of_silent (events : List Event) {queue : List Job} {workers : List Worker} {slot : Option ℕ}
    (h : Fencing (w, log)) (hsilent : ∀ i id, .recorded i id ∉ events)
    (hqueue : Kept (workers.map Worker.claimed) (events ++ log) queue)
    (htokens : (workers.map Worker.token).Nodup)
    (hended : ∀ i, EndedAt w.workers i → EndedAt workers i) :
    Fencing (⟨queue, workers, slot⟩, events ++ log) where
  queue := hqueue
  tokens := htokens
  fenced := by
    intro later earlier i id heq
    rcases List.append_eq_append_iff.mp heq with ⟨more, rfl, hlog⟩ | ⟨more, rfl, hlog⟩
    · exact h.fenced more earlier i id hlog
    · cases more with
      | nil => exact h.fenced [] earlier i id hlog.symm
      | cons event rest =>
          cases hlog
          exact absurd (List.mem_append_right later (List.mem_cons_self ..)) (hsilent i id)
  once := by
    intro i
    have hnone : events.filter (Event.recordedBy i) = [] := by
      rw [List.filter_eq_nil_iff]
      intro event hevent
      cases event with
      | recorded worker id => exact absurd hevent (hsilent worker id)
      | claimed | reaped | cancelled => simp [Event.recordedBy]
    rw [List.filter_append, hnone, List.nil_append]
    exact h.once i
  ended := by
    intro i id hmem
    rcases List.mem_append.mp hmem with hnew | hold
    · exact absurd hnew (hsilent i id)
    · exact hended i (h.ended i id hold)

/-- The step changes the queue only, and nothing has happened. -/
theorem of_queue {queue : List Job} (h : Fencing (w, log))
    (hqueue : Kept (w.workers.map Worker.claimed) log queue) : Fencing ({ w with queue := queue }, log) :=
  h.of_silent [] (fun _ _ => List.not_mem_nil) hqueue h.tokens (fun _ => id)

/-- A transaction on the queue that records no event. -/
theorem commit {ε : Type} {result : Except ε (List Job)} (h : Fencing (w, log))
    (hqueue : ∀ queue, result = .ok queue → Kept (w.workers.map Worker.claimed) log queue) :
    Fencing (w.commit result, log) := by
  cases result with
  | error e => exact h
  | ok queue => exact h.of_queue (hqueue queue rfl)

/-- A worker moves on. -/
theorem setPhase {phase : Phase} {slot : Option ℕ} (h : Fencing (w, log))
    (hended : ∀ j, EndedAt w.workers j → EndedAt (w.setPhase i phase).workers j) :
    Fencing ({ w.setPhase i phase with slot := slot }, log) := by
  refine h.of_silent [] (fun _ _ => List.not_mem_nil) ?_ ?_ hended
  · rw [World.setPhase_claimed]
    exact h.queue
  · rw [World.setPhase_token]
    exact h.tokens

theorem enqueue {spec : JobSpec} {archived : Bool} {chainNow : Option ℤ} (h : Fencing (w, log)) :
    Fencing (w.commit (enqueueRunnerJob spec archived chainNow w.queue), log) := by
  refine h.commit (fun queue hqueue => ?_)
  rcases enqueue_spec hqueue with rfl | ⟨rfl, hids⟩
  · exact h.queue
  · exact h.queue.append hids

theorem recordAction {update : ActionUpdate} (h : Fencing (w, log)) :
    Fencing (w.commit (recordRunnerAction update w.queue), log) := by
  refine h.commit (fun queue hqueue => ?_)
  obtain ⟨-, -, hupdate⟩ := bind_eq_ok.mp hqueue
  obtain ⟨job, hjob, -, job', hjob', rfl⟩ := updateJob_spec h.queue.ids (fun _ _ => record_id) hupdate
  refine h.queue.replace_quiet hjob (record_id hjob') ?_
  obtain ⟨-, action, alert, rfl, -⟩ := record_spec hjob'
  exact (h.queue.jobs job hjob).congr rfl rfl rfl rfl rfl (fun _ hnone => by cases hnone)

theorem terminalize {id : String} {d : Disposition} {verified : Bool} (h : Fencing (w, log)) :
    Fencing (w.commit (updateJob id (setRunnerLocalDisposition d verified) w.queue), log) := by
  refine h.commit (fun queue hqueue => ?_)
  obtain ⟨job, hjob, -, job', hjob', rfl⟩ := updateJob_spec h.queue.ids (fun _ _ => disposition_id) hqueue
  exact h.queue.replace_quiet hjob (disposition_id hjob') ((h.queue.jobs job hjob).dispose hjob')

theorem heartbeat {id token : String} {now leaseSeconds : ℤ} (h : Fencing (w, log)) :
    Fencing ({ w with queue := Challenger.heartbeat id token now leaseSeconds w.queue }, log) := by
  refine h.of_queue ?_
  rcases heartbeat_spec h.queue.ids id token now leaseSeconds with heq | ⟨job, hjob, hrunning, heq⟩
  · rw [heq]
    exact h.queue
  · rw [heq]
    exact h.queue.replace_quiet hjob rfl ((h.queue.jobs job hjob).extend hrunning)

theorem quarantine {id reason : String} (h : Fencing (w, log)) :
    Fencing (w.commit (updateJob id (quarantineCanonical reason) w.queue),
      w.events (.quarantine id reason) ++ log) := by
  cases hupdate : updateJob id (quarantineCanonical reason) w.queue with
  | error e =>
      simp only [World.events, hupdate]
      exact h
  | ok queue =>
      simp only [World.events, hupdate]
      obtain ⟨job, hjob, rfl, job', hjob', rfl⟩ :=
        updateJob_spec h.queue.ids (fun _ _ => quarantine_id) hupdate
      refine h.of_silent _ (fun i id => by simp) ?_ h.tokens (fun _ => fun h => h)
      have hkept := h.queue.replace [] [.cancelled job.id] hjob (quarantine_id hjob')
        (fun event hevent => by rw [List.mem_singleton.mp hevent]; rfl)
        (by simpa using (h.queue.jobs job hjob).quarantine hjob')
      simpa using hkept

/-- A claim reaps the stale leases first. -/
theorem claim {input : ClaimInput} (h : Fencing (w, log)) (hfresh : Act.Fresh w (.claim input)) :
    Fencing (w.claim input, w.events (.claim input) ++ log) := by
  cases hclaim : input.claim w.queue with
  | error e =>
      simp only [World.claim, World.events, hclaim]
      exact h
  | ok result =>
      obtain ⟨claimed, queue⟩ := result
      have hreaped := h.queue.reap input.now
      have hsilent : ∀ i id, .recorded i id ∉
          (reapStaleLeases input.now defaultMaxJobAttempts w.queue).1.map Event.reaped := by
        intro i id hmem
        obtain ⟨_, -, heq⟩ := List.mem_map.mp hmem
        cases heq
      rcases claim_claims h.queue.ids hclaim with ⟨rfl, rfl⟩ | ⟨job, hjob, hqueued, hcase⟩
      · simp only [World.claim, World.events, hclaim]
        exact h.of_silent _ hsilent hreaped h.tokens (fun _ => id)
      rcases hcase with ⟨rfl, d, job', hjob', rfl⟩ | ⟨rfl, rfl⟩
      · simp only [World.claim, World.events, hclaim]
        refine h.of_silent _ hsilent ?_ h.tokens (fun _ => id)
        exact hreaped.replace_quiet hjob (disposition_id hjob') ((hreaped.jobs job hjob).dispose hjob')
      · simp only [World.claim, World.events, hclaim, Option.toList_some, List.map_cons, List.map_nil]
        rw [List.append_assoc]
        have hlength : (w.workers.map Worker.claimed).length = w.workers.length := List.length_map _
        have hlease := (hreaped.jobs job hjob).lease input hqueued
        rw [hlength] at hlease
        have hkept := hreaped.replace _ [.claimed w.workers.length job.id] hjob
          (show (job.lease input).id = job.id from rfl)
          (fun event hevent => by rw [List.mem_singleton.mp hevent]; rfl) hlease
        rw [← List.append_assoc] at hkept ⊢
        refine h.of_silent _ ?_ ?_ ?_ ?_
        · intro i id hmem
          rcases List.mem_append.mp hmem with hnew | hold
          · cases List.mem_singleton.mp hnew
          · exact hsilent i id hold
        · rw [List.map_append]
          exact hkept
        · rw [List.map_append]
          refine List.nodup_append.mpr ⟨h.tokens, List.nodup_singleton _, ?_⟩
          rintro token htoken other hother rfl
          obtain rfl := List.mem_singleton.mp hother
          exact hfresh htoken
        · rintro i ⟨worker, hworker, hended⟩
          obtain ⟨hi, -⟩ := List.getElem?_eq_some_iff.mp hworker
          exact ⟨worker, by rw [List.getElem?_append_left hi, hworker], hended⟩

/-- The holder of a lease is the worker of the last claim. -/
theorem holder {worker : Worker} {job : Job} (h : Fencing (w, log)) (hworker : w.workers[i]? = some worker)
    (hjob : job ∈ w.queue) (hrunning : job.status = .running) (htoken : job.leaseToken = some worker.token) :
    (about job.id log).head? = some (.claimed i job.id) := by
  obtain ⟨-, j, token, hlease, hclaim, hhead⟩ := (h.queue.jobs job hjob).held hrunning
  obtain rfl : worker.token = token := Option.some.inj (htoken.symm.trans hlease)
  rw [List.getElem?_map, Option.map_eq_some_iff] at hclaim
  obtain ⟨other, hother, hclaimed⟩ := hclaim
  have htoken' : other.token = worker.token := congrArg Prod.snd hclaimed
  obtain ⟨hj, hj'⟩ := List.getElem?_eq_some_iff.mp hother
  obtain ⟨hi, hi'⟩ := List.getElem?_eq_some_iff.mp hworker
  have hij : j = i := by
    have htokens : (w.workers.map Worker.token).Nodup := h.tokens
    have hlen : (w.workers.map Worker.token).length = w.workers.length := List.length_map _
    have hj₁ : j < (w.workers.map Worker.token).length := hlen.symm ▸ hj
    have hi₁ : i < (w.workers.map Worker.token).length := hlen.symm ▸ hi
    have heq : (w.workers.map Worker.token)[j] = (w.workers.map Worker.token)[i] := by
      rw [List.getElem_map, List.getElem_map, hj', hi', htoken']
    exact htokens.getElem_inj_iff.mp heq
  rw [hij] at hhead
  exact hhead

/-- An outcome is recorded. -/
theorem recorded {worker : Worker} {job job' : Job} {input : RecordInput} {result : RunResult}
    (h : Fencing (w, log)) (hworker : w.workers[i]? = some worker) (hlive : ¬ worker.Ended)
    (hjob : job ∈ w.queue) (hrunning : job.status = .running) (htoken : job.leaseToken = some worker.token)
    (hrun : input.record result job = .ok job') :
    Fencing (({ w with queue := replaceJob job' w.queue } : World).setPhase i .closed,
      .recorded i job.id :: log) where
  queue := by
    rw [World.setPhase_claimed, World.setPhase_queue]
    have hkept := h.queue.replace [] [.recorded i job.id] hjob (outcome_spec hrun).1
      (fun event hevent => by rw [List.mem_singleton.mp hevent]; rfl)
      (by simpa using (h.queue.jobs job hjob).outcome hrunning hrun)
    simpa using hkept
  tokens := by
    rw [World.setPhase_token]
    exact h.tokens
  fenced := by
    intro later earlier j id heq
    cases later with
    | nil =>
        cases heq
        exact h.holder hworker hjob hrunning htoken
    | cons event rest =>
        cases heq
        exact h.fenced rest earlier j id rfl
  once := by
    intro j
    by_cases hij : i = j
    · subst hij
      have hnone : log.filter (Event.recordedBy i) = [] := by
        rw [List.filter_eq_nil_iff]
        intro event hevent hby
        cases event with
        | recorded k id =>
            obtain rfl : k = i := by simpa [Event.recordedBy] using hby
            obtain ⟨other, hother, hended⟩ := h.ended k id hevent
            rw [hworker] at hother
            cases hother
            exact hlive hended
        | claimed | reaped | cancelled => simp [Event.recordedBy] at hby
      simp [Event.recordedBy, hnone]
    · have hskip : (Event.recorded i job.id :: log).filter (Event.recordedBy j) =
          log.filter (Event.recordedBy j) := by simp [Event.recordedBy, hij]
      rw [hskip]
      exact h.once j
  ended := by
    intro j id hmem
    rcases List.mem_cons.mp hmem with heq | hold
    · cases heq
      refine ⟨{ worker with phase := .closed }, ?_, .inl rfl⟩
      simp [World.setPhase, hworker]
    · exact World.setPhase_ended (w := { w with queue := replaceJob job' w.queue }) (.inl rfl)
        (h.ended j id hold)

theorem record {worker : Worker} {input : RecordInput} {result : RunResult} (h : Fencing (w, log))
    (hworker : w.workers[i]? = some worker) (hphase : worker.phase = .finished result) :
    Fencing (w.record i worker input result, w.events (.record i input) ++ log) := by
  have hlive : ¬ worker.Ended := by rintro (hc | hc) <;> rw [hphase] at hc <;> cases hc
  obtain ⟨jobId, token, leaseSeconds, phase⟩ := worker
  obtain rfl : phase = .finished result := hphase
  have hclosed : ∀ slot, Fencing ({ w.setPhase i .closed with slot := slot }, log) := fun slot =>
    h.setPhase (fun _ => World.setPhase_ended (.inl rfl))
  cases hrun : input.recordOutcome jobId token result w.queue with
  | error e =>
      simp only [World.record, World.events, hworker, hrun]
      exact hclosed w.slot
  | ok outcome =>
      obtain ⟨recorded, queue⟩ := outcome
      rcases recordOutcome_spec h.queue.ids hrun with
        ⟨rfl, rfl⟩ | ⟨rfl, job, hjob, rfl, hrunning, htoken, job', hjob', rfl⟩
      · simp only [World.record, World.events, hworker, hrun]
        exact hclosed w.slot
      · simp only [World.record, World.events, hworker, hrun]
        exact h.recorded hworker hlive hjob hrunning htoken hjob'

theorem step {p p' : World × List Event} {act : Act} (h : Fencing p) (hfresh : Act.Fresh p.1 act)
    (hstep : runnerHistory.step p act = some p') : Fencing p' := by
  obtain ⟨w, log⟩ := p
  obtain ⟨w', log'⟩ := p'
  obtain ⟨hs, hk⟩ := System.withHistory_step.mp hstep
  change w.step act = some w' at hs
  change log' = w.events act ++ log at hk
  subst hk
  cases act with
  | enqueue spec archived chainNow =>
      cases hs
      exact h.enqueue
  | claim input =>
      cases hs
      exact h.claim hfresh
  | heartbeat i now =>
      obtain ⟨worker, hworker, hs⟩ := Option.bind_eq_some_iff.mp hs
      split at hs
      · cases hs
      · cases hs
        exact h.heartbeat
  | start i =>
      obtain ⟨worker, hworker, hs⟩ := Option.bind_eq_some_iff.mp hs
      split at hs
      · rename_i hphase
        cases hs
        refine h.setPhase (fun j => World.setPhase_live hworker ?_)
        rintro (hc | hc) <;> rw [hphase.1] at hc <;> cases hc
      · cases hs
  | finish i result =>
      obtain ⟨worker, hworker, hs⟩ := Option.bind_eq_some_iff.mp hs
      split at hs
      · rename_i hphase
        cases hs
        refine h.setPhase (fun j => World.setPhase_live hworker ?_)
        rcases hphase with hphase | ⟨hphase, -⟩
        all_goals rintro (hc | hc) <;> rw [hphase] at hc <;> cases hc
      · cases hs
  | record i input =>
      obtain ⟨worker, hworker, hs⟩ := Option.bind_eq_some_iff.mp hs
      split at hs
      · rename_i result hphase
        cases hs
        exact h.record hworker hphase
      · cases hs
  | crash i =>
      cases hs
      exact h.setPhase (fun _ => World.setPhase_ended (.inr rfl))
  | recordAction update =>
      cases hs
      exact h.recordAction
  | terminalize jobId disposition retryVerified =>
      cases hs
      exact h.terminalize
  | quarantine jobId reason =>
      cases hs
      exact h.quarantine

theorem of_init {p : World × List Event} (h : runnerHistory.init p) : Fencing p := by
  obtain ⟨w, log⟩ := p
  obtain ⟨⟨hworkers, -, hids, hnew⟩, hlog⟩ := h
  change log = [] at hlog
  change w.workers = [] at hworkers
  subst hlog
  constructor
  · exact .of_new hids hnew
  · simp [hworkers]
  · intro later earlier i id heq
    simp at heq
  · simp
  · intro i id hmem
    cases hmem

theorem of_reachable {p : World × List Event}
    (h : runnerHistory.Reachable (fun p => Act.Fresh p.1) p) : Fencing p :=
  h.invariant (fun _ => of_init) (fun _ _ _ _ hp hfresh hstep => hp.step hfresh hstep)

end Fencing

/-! ### Jobs that are over -/

/-- A job that is over is neither queued nor running. -/
def Job.Over (job : Job) : Prop := job.status ≠ .queued ∧ job.status ≠ .running

def OverIn (id : String) (queue : List Job) : Prop := ∃ job ∈ queue, job.id = id ∧ job.Over

namespace OverIn

variable {id : String} {queue queue' : List Job} {job job' : Job}

theorem replace (h : OverIn id queue) (hn : (queue.map Job.id).Nodup) (hjob : job ∈ queue)
    (hid : job'.id = job.id) (hover : job.Over → job'.Over) : OverIn id (replaceJob job' queue) := by
  obtain ⟨old, hold, rfl, hold'⟩ := h
  by_cases heq : old.id = job.id
  · obtain rfl := eq_of_id_eq hn hjob hold heq
    refine ⟨job', List.mem_map.mpr ⟨old, hold, if_pos hid.symm⟩, hid, hover hold'⟩
  · refine ⟨old, List.mem_map.mpr ⟨old, hold, if_neg ?_⟩, rfl, hold'⟩
    rw [hid]
    exact heq

/-- A job that is not over is changed. -/
theorem replace_other (h : OverIn id queue) (hn : (queue.map Job.id).Nodup) (hjob : job ∈ queue)
    (hid : job'.id = job.id) (hnot : ¬ job.Over) : OverIn id (replaceJob job' queue) :=
  h.replace hn hjob hid (fun hover => absurd hover hnot)

theorem dispose {d : Disposition} {verified : Bool} (h : OverIn id queue)
    (hn : (queue.map Job.id).Nodup) (hjob : job ∈ queue)
    (hrun : setRunnerLocalDisposition d verified job = .ok job') : OverIn id (replaceJob job' queue) := by
  refine h.replace hn hjob (disposition_id hrun) (fun hover => ?_)
  obtain ⟨-, -, rfl | ⟨hash, rfl⟩⟩ := disposition_spec hrun
  · exact hover
  · exact ⟨by simp, by simp⟩

theorem reap (h : OverIn id queue) (now : ℤ) (maxAttempts : ℕ) :
    OverIn id (reapStaleLeases now maxAttempts queue).2 := by
  obtain ⟨job, hjob, hid, hover⟩ := h
  refine ⟨job, List.mem_map.mpr ⟨job, hjob, if_neg ?_⟩, hid, hover⟩
  simp [Job.stale, hover.2]

theorem not_over_of_queued (h : job.status = .queued) : ¬ job.Over := fun hover => hover.1 h

theorem not_over_of_running (h : job.status = .running) : ¬ job.Over := fun hover => hover.2 h

theorem ne_of_queued (h : OverIn id queue) (hn : (queue.map Job.id).Nodup) (hjob : job ∈ queue)
    (hqueued : job.status = .queued) : job.id ≠ id := by
  obtain ⟨old, hold, rfl, hover⟩ := h
  intro heq
  obtain rfl := eq_of_id_eq hn hold hjob heq
  exact hover.1 hqueued

end OverIn

/-- A transaction that keeps what is over. -/
theorem World.over_commit {ε : Type} {w : World} {result : Except ε (List Job)} {id : String}
    (h : OverIn id w.queue) (hqueue : ∀ queue, result = .ok queue → OverIn id queue) :
    OverIn id (w.commit result).queue := by
  cases result with
  | error e => exact h
  | ok queue => exact hqueue queue rfl

/-- A job that is over stays over, and is not claimed. -/
theorem World.step_over {w w' : World} {act : Act} {id : String} (hn : (w.queue.map Job.id).Nodup)
    (h : OverIn id w.queue) (hstep : w.step act = some w') :
    OverIn id w'.queue ∧ ∀ i, .claimed i id ∉ w.events act := by
  cases act with
  | enqueue spec archived chainNow =>
      cases hstep
      refine ⟨World.over_commit h (fun queue hqueue => ?_), fun _ => List.not_mem_nil⟩
      rcases enqueue_spec hqueue with rfl | ⟨rfl, -⟩
      · exact h
      · obtain ⟨job, hjob, hover⟩ := h
        exact ⟨job, List.mem_append_left _ hjob, hover⟩
  | claim input =>
      cases hstep
      cases hclaim : input.claim w.queue with
      | error e =>
          simp only [World.claim, World.events, hclaim]
          exact ⟨h, fun _ => List.not_mem_nil⟩
      | ok result =>
          obtain ⟨claimed, queue⟩ := result
          have hreaped := h.reap input.now defaultMaxJobAttempts
          have hn' := (reap_ids input.now defaultMaxJobAttempts w.queue).symm ▸ hn
          rcases claim_claims hn hclaim with ⟨rfl, rfl⟩ | ⟨job, hjob, hqueued, hcase⟩
          · simp only [World.claim, World.events, hclaim]
            exact ⟨hreaped, fun i => by simp⟩
          rcases hcase with ⟨rfl, d, job', hjob', rfl⟩ | ⟨rfl, rfl⟩
          · simp only [World.claim, World.events, hclaim]
            exact ⟨hreaped.dispose hn' hjob hjob', fun i => by simp⟩
          · simp only [World.claim, World.events, hclaim]
            refine ⟨hreaped.replace_other hn' hjob rfl (OverIn.not_over_of_queued hqueued), fun i hmem => ?_⟩
            have hne := hreaped.ne_of_queued hn' hjob hqueued
            simp only [Option.toList_some, List.map_cons, List.map_nil, List.mem_append,
              List.mem_singleton, Event.claimed.injEq, List.mem_map, reduceCtorEq, and_false,
              exists_false, or_false] at hmem
            exact hne hmem.2.symm
  | heartbeat i now =>
      refine ⟨?_, fun _ => List.not_mem_nil⟩
      obtain ⟨worker, hworker, hs⟩ := Option.bind_eq_some_iff.mp hstep
      split at hs
      · cases hs
      · cases hs
        simp only
        rcases heartbeat_spec hn worker.jobId worker.token now worker.leaseSeconds with
          heq | ⟨job, hjob, hrunning, heq⟩
        · rw [heq]
          exact h
        · rw [heq]
          exact h.replace_other hn hjob rfl (OverIn.not_over_of_running hrunning)
  | start i =>
      refine ⟨?_, fun _ => List.not_mem_nil⟩
      obtain ⟨worker, hworker, hs⟩ := Option.bind_eq_some_iff.mp hstep
      split at hs
      · cases hs
        exact h
      · cases hs
  | finish i result =>
      refine ⟨?_, fun _ => List.not_mem_nil⟩
      obtain ⟨worker, hworker, hs⟩ := Option.bind_eq_some_iff.mp hstep
      split at hs
      · cases hs
        exact h
      · cases hs
  | record i input =>
      obtain ⟨worker, hworker, hs⟩ := Option.bind_eq_some_iff.mp hstep
      split at hs
      · rename_i result hphase
        cases hs
        obtain ⟨jobId, token, leaseSeconds, phase⟩ := worker
        obtain rfl : phase = .finished result := hphase
        simp only [World.record, World.events, hworker, World.setPhase_queue]
        cases hrun : input.recordOutcome jobId token result w.queue with
        | error e => exact ⟨h, fun _ => List.not_mem_nil⟩
        | ok outcome =>
            obtain ⟨recorded, queue⟩ := outcome
            rcases recordOutcome_spec hn hrun with
              ⟨rfl, rfl⟩ | ⟨rfl, job, hjob, rfl, hrunning, -, job', hjob', rfl⟩
            · exact ⟨h, fun _ => List.not_mem_nil⟩
            · refine ⟨?_, fun i => by simp⟩
              exact h.replace_other hn hjob (outcome_spec hjob').1 (OverIn.not_over_of_running hrunning)
      · cases hs
  | crash i =>
      cases hstep
      exact ⟨h, fun _ => List.not_mem_nil⟩
  | recordAction update =>
      cases hstep
      refine ⟨World.over_commit h (fun queue hqueue => ?_), fun _ => List.not_mem_nil⟩
      obtain ⟨-, -, hupdate⟩ := bind_eq_ok.mp hqueue
      obtain ⟨job, hjob, -, job', hjob', rfl⟩ := updateJob_spec hn (fun _ _ => record_id) hupdate
      refine h.replace hn hjob (record_id hjob') (fun hover => ?_)
      obtain ⟨-, action, alert, rfl, -⟩ := record_spec hjob'
      exact hover
  | terminalize jobId disposition retryVerified =>
      cases hstep
      refine ⟨World.over_commit h (fun queue hqueue => ?_), fun _ => List.not_mem_nil⟩
      obtain ⟨job, hjob, -, job', hjob', rfl⟩ := updateJob_spec hn (fun _ _ => disposition_id) hqueue
      exact h.dispose hn hjob hjob'
  | quarantine jobId reason =>
      cases hstep
      refine ⟨World.over_commit h (fun queue hqueue => ?_), fun i => ?_⟩
      · obtain ⟨job, hjob, -, job', hjob', rfl⟩ := updateJob_spec hn (fun _ _ => quarantine_id) hqueue
        refine h.replace hn hjob (quarantine_id hjob') (fun _ => ?_)
        obtain ⟨hash, action, alert, -, rfl⟩ := quarantine_spec hjob'
        exact ⟨by simp, by simp⟩
      · simp only [World.events]
        split <;> simp

/-- Along every further run. -/
theorem Fencing.run_over {p p' : World × List Event} {acts : List Act} {id : String} (h : Fencing p)
    (hover : OverIn id p.1.queue)
    (hrun : runnerHistory.Run (fun p => Act.Fresh p.1) p acts p') :
    OverIn id p'.1.queue ∧ ∃ later, p'.2 = later ++ p.2 ∧ ∀ i, .claimed i id ∉ later := by
  induction hrun with
  | refl p => exact ⟨hover, [], rfl, fun _ => List.not_mem_nil⟩
  | @step p q r act acts hfresh hstep _ ih =>
      obtain ⟨hs, hk⟩ := System.withHistory_step.mp hstep
      obtain ⟨hnext, hclaims⟩ := World.step_over h.queue.ids hover hs
      obtain ⟨hlast, later, hlater, hnone⟩ := ih (h.step hfresh hstep) hnext
      refine ⟨hlast, later ++ p.1.events act, ?_, ?_⟩
      · rw [hlater, hk, List.append_assoc]
      · intro i hmem
        rcases List.mem_append.mp hmem with hmem | hmem
        · exact hnone i hmem
        · exact hclaims i hmem

/-! ### The laws -/

/-- What holds of the queue, its workers and all that has happened, the last event first. -/
structure LeaseLaws (p : World × List Event) : Prop where
  /-- An outcome is recorded for a job that is under the lease of the worker, or nothing is. -/
  outcomes : ∀ i input p', runnerHistory.step p (.record i input) = some p' →
    p'.1.queue = p.1.queue ∧ p'.2 = p.2 ∨
      ∃ worker ∈ p.1.workers[i]?, ∃ job ∈ p.1.queue, job.id = worker.jobId ∧ job.status = .running ∧
        job.leaseToken = some worker.token ∧ p'.2 = .recorded i job.id :: p.2
  /-- Nothing has happened to the job between the claim of a worker and its outcome. -/
  fenced : ∀ later earlier i id, p.2 = later ++ .recorded i id :: earlier →
    (about id earlier).head? = some (.claimed i id)
  once : ∀ i, (p.2.filter (Event.recordedBy i)).length ≤ 1
  leased : ∀ job ∈ p.1.queue, job.status = .running →
    job.leaseExpiresAt.isSome = true ∧ job.leaseToken.isSome = true
  unleased : ∀ job ∈ p.1.queue, job.status = .queued ∨ job.status = .succeeded ∨ job.status = .failed →
    job.leaseExpiresAt = none ∧ job.leaseToken = none
  attempts : ∀ job ∈ p.1.queue,
    job.attemptCount = p.2.count (.reaped job.id) ∧ job.attemptCount ≤ defaultMaxJobAttempts
  last : ∀ job ∈ p.1.queue, job.attemptCount = defaultMaxJobAttempts → job.Over
  /-- A job that is over stays over and is not claimed again. -/
  final : ∀ job ∈ p.1.queue, job.Over → ∀ acts p',
    runnerHistory.Run (fun p => Act.Fresh p.1) p acts p' →
      OverIn job.id p'.1.queue ∧ ∃ later, p'.2 = later ++ p.2 ∧ ∀ i, .claimed i job.id ∉ later

theorem Fencing.outcomes {p p' : World × List Event} {i : ℕ} {input : RecordInput} (h : Fencing p)
    (hstep : runnerHistory.step p (.record i input) = some p') :
    p'.1.queue = p.1.queue ∧ p'.2 = p.2 ∨
      ∃ worker ∈ p.1.workers[i]?, ∃ job ∈ p.1.queue, job.id = worker.jobId ∧ job.status = .running ∧
        job.leaseToken = some worker.token ∧ p'.2 = .recorded i job.id :: p.2 := by
  obtain ⟨w, log⟩ := p
  obtain ⟨w', log'⟩ := p'
  obtain ⟨hs, hk⟩ := System.withHistory_step.mp hstep
  change log' = w.events (.record i input) ++ log at hk
  subst hk
  obtain ⟨worker, hworker, hs⟩ := Option.bind_eq_some_iff.mp hs
  split at hs
  · rename_i result hphase
    cases hs
    obtain ⟨jobId, token, leaseSeconds, phase⟩ := worker
    obtain rfl : phase = .finished result := hphase
    change w.workers[i]? = _ at hworker
    simp only [World.events, hworker]
    cases hrun : input.recordOutcome jobId token result w.queue with
    | error e => exact .inl ⟨rfl, rfl⟩
    | ok outcome =>
        obtain ⟨recorded, queue⟩ := outcome
        rcases recordOutcome_spec h.queue.ids hrun with
          ⟨rfl, rfl⟩ | ⟨rfl, job, hjob, rfl, hrunning, htoken, -⟩
        · exact .inl ⟨rfl, rfl⟩
        · exact .inr ⟨_, rfl, job, hjob, rfl, hrunning, htoken, rfl⟩
  · cases hs

theorem Fencing.last {p : World × List Event} {job : Job} (h : Fencing p) (hjob : job ∈ p.1.queue)
    (hlast : job.attemptCount = defaultMaxJobAttempts) : job.Over := by
  have hkept := h.queue.jobs job hjob
  constructor
  · intro hqueued
    have hbelow := hkept.below (.inl hqueued)
    omega
  · intro hrunning
    have hbelow := hkept.below (.inr (.inl hrunning))
    omega

theorem lease_fencing {p : World × List Event}
    (h : runnerHistory.Reachable (fun p => Act.Fresh p.1) p) : LeaseLaws p := by
  have hfencing := Fencing.of_reachable h
  constructor
  · exact fun i input p' hstep => hfencing.outcomes hstep
  · exact hfencing.fenced
  · exact hfencing.once
  · intro job hjob hrunning
    obtain ⟨hexpires, i, token, htoken, -⟩ := (hfencing.queue.jobs job hjob).held hrunning
    exact ⟨hexpires, by rw [htoken]; rfl⟩
  · exact fun job hjob => (hfencing.queue.jobs job hjob).free
  · exact fun job hjob => ⟨(hfencing.queue.jobs job hjob).attempts, (hfencing.queue.jobs job hjob).bounded⟩
  · exact fun job hjob => hfencing.last hjob
  · exact fun job hjob hover acts p' hrun => hfencing.run_over ⟨job, hjob, rfl, hover⟩ hrun

instance (w : World) (act : Act) : Decidable (Act.Fresh w act) := by
  cases act
  case claim input => exact inferInstanceAs (Decidable (input.token ∉ w.workers.map Worker.token))
  all_goals exact isTrue trivial

namespace LeaseSample

def event : String := "sha256:0000000000000000000000000000000000000000000000000000000000000001"

def start : World := { queue := [{ id := "j", sourceEventHash := event }] }

def claimAt (now : ℤ) (token : String) : Act :=
  .claim { now := now, memory := ⟨65536, 65536, 0⟩, manifest := .ok 600, token := token }

def passed : RunResult := .transcript ⟨true, none⟩

/-- The lease of the first worker runs out; the second one's outcome stands. -/
def acts : List Act :=
  [claimAt 0 "a", .start 0, claimAt 3600 "b", .finish 0 passed, .record 0 ⟨3700, none, true⟩, .start 1,
    .finish 1 passed, .record 1 ⟨3800, none, true⟩]

end LeaseSample

theorem lease_fencing_sample : ∃ p,
    runnerHistory.execIf (fun p => Act.Fresh p.1) (LeaseSample.start, []) LeaseSample.acts = some p ∧
      p.2 = [.recorded 1 "j", .claimed 1 "j", .reaped "j", .claimed 0 "j"] ∧ LeaseLaws p := by
  have hrun : (runnerHistory.execIf (fun p => Act.Fresh p.1) (LeaseSample.start, [])
      LeaseSample.acts).map Prod.snd =
        some [.recorded 1 "j", .claimed 1 "j", .reaped "j", .claimed 0 "j"] := by decide +kernel
  obtain ⟨p, hp, hlog⟩ := Option.map_eq_some_iff.mp hrun
  have hinit : runnerHistory.init (LeaseSample.start, []) :=
    ⟨⟨rfl, rfl, List.nodup_singleton _, by simp [LeaseSample.start, Job.New]⟩, rfl⟩
  exact ⟨p, hp, hlog, lease_fencing (.of_execIf hinit hp)⟩

/-- A job that is claimed and succeeds has no attempts, and one that the operator cancels while it is
running keeps its lease. -/
theorem claim_counts_no_attempt :
    (∃ p job, runnerHistory.Reachable (fun p => Act.Fresh p.1) p ∧ job ∈ p.1.queue ∧
      .claimed 0 job.id ∈ p.2 ∧ job.status = .succeeded ∧ job.attempts = none) ∧
    ∃ p job, runnerHistory.Reachable (fun p => Act.Fresh p.1) p ∧ job ∈ p.1.queue ∧
      job.status = .cancelled ∧ job.leaseExpiresAt.isSome = true ∧ job.leaseToken.isSome = true := by
  have hinit : runnerHistory.init (LeaseSample.start, []) :=
    ⟨⟨rfl, rfl, List.nodup_singleton _, by simp [LeaseSample.start, Job.New]⟩, rfl⟩
  constructor
  · have hrun : (runnerHistory.execIf (fun p => Act.Fresh p.1) (LeaseSample.start, [])
        [LeaseSample.claimAt 0 "a", .start 0, .finish 0 LeaseSample.passed,
          .record 0 ⟨100, none, true⟩]).any (fun p => decide (.claimed 0 "j" ∈ p.2) &&
            p.1.queue.any (fun job => job.id = "j" && job.status = .succeeded && job.attempts = none)) =
        true := by decide +kernel
    obtain ⟨p, hp, hany⟩ := (Option.any_eq_true _ _).mp hrun
    simp only [Bool.and_eq_true, decide_eq_true_eq, List.any_eq_true] at hany
    obtain ⟨hclaimed, job, hjob, ⟨hid, hstatus⟩, hattempts⟩ := hany
    exact ⟨p, job, .of_execIf hinit hp, hjob, hid ▸ hclaimed, hstatus, hattempts⟩
  · have hrun : (runnerHistory.execIf (fun p => Act.Fresh p.1) (LeaseSample.start, [])
        [LeaseSample.claimAt 0 "a", .quarantine "j" "reorg"]).any (fun p =>
            p.1.queue.any (fun job => job.status = .cancelled && job.leaseExpiresAt.isSome &&
              job.leaseToken.isSome)) = true := by decide +kernel
    obtain ⟨p, hp, hany⟩ := (Option.any_eq_true _ _).mp hrun
    simp only [Bool.and_eq_true, decide_eq_true_eq, List.any_eq_true] at hany
    obtain ⟨job, hjob, ⟨hstatus, hexpires⟩, htoken⟩ := hany
    exact ⟨p, job, .of_execIf hinit hp, hjob, hstatus, hexpires, htoken⟩

end P42Prizes.Challenger
