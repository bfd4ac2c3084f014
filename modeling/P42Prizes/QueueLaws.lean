import P42Prizes.NonceLaws
import P42Prizes.RunnerQueue

/-! # What the transactions of the queue do to a job

Each changes one job at most, which keeps its id; with distinct ids this is a map over the queue. -/

namespace P42Prizes.Challenger

open Reverting
open WalletNonce (modifyFirst modifyFirst_eq_map)

variable {queue queue' : List Job} {id : String} {f : Job → Except QueueError Job} {job job' : Job}

/-- The queue with `job` in the place of the one with its id. -/
def replaceJob (job : Job) (queue : List Job) : List Job :=
  queue.map (fun other => if other.id = job.id then job else other)

theorem eq_of_id_eq (hn : (queue.map Job.id).Nodup) (h : job ∈ queue) (h' : job' ∈ queue)
    (hid : job'.id = job.id) : job' = job :=
  List.inj_on_of_nodup_map hn h' h hid

theorem find?_eq_some (hn : (queue.map Job.id).Nodup) (h : job ∈ queue) :
    queue.find? (fun other => other.id = job.id) = some job := by
  cases hfind : queue.find? (fun other => other.id = job.id) with
  | none => exact absurd (List.find?_eq_none.mp hfind job h) (by simp)
  | some found =>
      have hid : found.id = job.id := by simpa using List.find?_some hfind
      rw [eq_of_id_eq hn h (List.mem_of_find?_eq_some hfind) hid]

theorem replaceJob_ids (job : Job) (queue : List Job) :
    (replaceJob job queue).map Job.id = queue.map Job.id := by
  rw [replaceJob, List.map_map]
  refine List.map_congr_left (fun other _ => ?_)
  by_cases h : other.id = job.id
  · rw [Function.comp_apply, if_pos h, h]
  · rw [Function.comp_apply, if_neg h]

theorem mem_replaceJob (h : job' ∈ replaceJob job queue) :
    job' = job ∨ (job' ∈ queue ∧ job'.id ≠ job.id) := by
  obtain ⟨old, hold, rfl⟩ := List.mem_map.mp h
  by_cases hid : old.id = job.id
  · exact .inl (if_pos hid)
  · rw [if_neg hid]
    exact .inr ⟨hold, hid⟩

/-- The change of the first job with an id, which is the only one. -/
theorem modifyFirst_eq_replaceJob (hn : (queue.map Job.id).Nodup) (hjob : job ∈ queue)
    {g : Job → Job} (hid : (g job).id = job.id) :
    modifyFirst (fun other => other.id = job.id) g queue = replaceJob (g job) queue := by
  rw [modifyFirst_eq_map (n := job.id) hn (by simp), replaceJob]
  refine List.map_congr_left (fun other hother => ?_)
  simp only [decide_eq_true_eq, hid]
  split
  · rename_i heq
    rw [eq_of_id_eq hn hjob hother heq]
  · rfl

theorem updateJob_spec (hn : (queue.map Job.id).Nodup) (hf : ∀ job job', f job = .ok job' → job'.id = job.id)
    (h : updateJob id f queue = .ok queue') :
    ∃ job ∈ queue, job.id = id ∧ ∃ job', f job = .ok job' ∧ queue' = replaceJob job' queue := by
  unfold updateJob at h
  split at h
  · cases h
  · rename_i job hfind
    obtain ⟨job', hjob', h⟩ := bind_eq_ok.mp h
    have hid : job.id = id := by simpa using List.find?_some hfind
    have hjob := List.mem_of_find?_eq_some hfind
    refine ⟨job, hjob, hid, job', hjob', ?_⟩
    subst hid
    rw [← modifyFirst_eq_replaceJob (g := fun _ => job') hn hjob (hf job job' hjob')]
    exact (pure_eq_ok.mp h).symm

/-- What a job is after its action has been recorded. -/
theorem record_spec {u : ActionUpdate} (h : u.record job = .ok job') :
    job'.terminalDisposition = none ∧
      ∃ action alert, job' = { job with action := some action, actionAlert := alert } ∧
        action.status = u.status := by
  simp only [ActionUpdate.record, bind_eq_ok, revertIf_eq_ok] at h
  obtain ⟨-, hdisposed, -, -, -, -, h⟩ := h
  have hnone : job.terminalDisposition = none := by simpa using hdisposed
  split at h
  · rename_i hrepeats
    obtain ⟨action, haction, hstatus, -⟩ := hrepeats
    simp only [bind_eq_ok, revertIf_eq_ok, pure_eq_ok] at h
    obtain ⟨-, -, rfl⟩ := h
    exact ⟨hnone, action, _, by rw [← haction], hstatus⟩
  · split at h
    · simp only [pure_eq_ok] at h
      subst h
      exact ⟨hnone, _, _, rfl, rfl⟩
    · simp only [bind_eq_ok, pure_eq_ok] at h
      obtain ⟨-, -, rfl⟩ := h
      exact ⟨hnone, _, _, rfl, rfl⟩

theorem record_id {u : ActionUpdate} (h : u.record job = .ok job') : job'.id = job.id := by
  obtain ⟨-, action, alert, rfl, -⟩ := record_spec h
  rfl

/-- What a job is after it has been given a disposition, or has been given it again. -/
theorem disposition_spec {d : Disposition} {verified : Bool}
    (h : setRunnerLocalDisposition d verified job = .ok job') :
    job.status ≠ .running ∧ job.action = none ∧ (job' = job ∨
      ∃ hash, job' = { job with
        challengeCandidateHash := hash, status := .failed, terminalDisposition := some d }) := by
  simp only [setRunnerLocalDisposition, bind_eq_ok, revertIf_eq_ok] at h
  obtain ⟨-, hrunning, -, haction, -, -, h⟩ := h
  refine ⟨hrunning, by simpa using haction, ?_⟩
  split at h
  · simp only [bind_eq_ok, revertIf_eq_ok, pure_eq_ok] at h
    obtain ⟨-, -, rfl⟩ := h
    exact .inl rfl
  · simp only [pure_eq_ok] at h
    exact .inr ⟨_, h.symm⟩

theorem disposition_id {d : Disposition} {verified : Bool}
    (h : setRunnerLocalDisposition d verified job = .ok job') : job'.id = job.id := by
  obtain ⟨-, -, rfl | ⟨hash, rfl⟩⟩ := disposition_spec h <;> rfl

theorem quarantine_spec {reason : String} (h : quarantineCanonical reason job = .ok job') :
    ∃ hash action alert, action.status = .canonicalInvalidated ∧
      job' = { job with
        challengeCandidateHash := hash, action := some action, actionAlert := alert,
        orphaned := true, status := .cancelled } := by
  simp only [quarantineCanonical, bind_eq_ok, revertIf_eq_ok, pure_eq_ok] at h
  obtain ⟨-, -, -, -, -, -, h⟩ := h
  exact ⟨_, _, _, rfl, h.symm⟩

theorem quarantine_id {reason : String} (h : quarantineCanonical reason job = .ok job') :
    job'.id = job.id := by
  obtain ⟨hash, action, alert, -, rfl⟩ := quarantine_spec h
  rfl

end P42Prizes.Challenger
