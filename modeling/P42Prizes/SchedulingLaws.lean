import Mathlib.Data.List.Sort
import P42Prizes.QueueLaws

/-! # Plans do not depend on the order of the queue

The jobs that wait are sorted by a key that ends with the id of the job, which is its own: two orders of
the queue give one sorted list (`insertionSort_eq_of_perm`), and everything else that a plan is decided by
is a count or a test of some job of the queue. -/

namespace P42Prizes.Challenger

open Reverting

/-! ### Lists sorted by a key -/

section Keys

variable {α κ : Type*} [LinearOrder κ] (key : α → κ)

instance total_key : Std.Total fun x y => key x ≤ key y := ⟨fun x y => le_total (key x) (key y)⟩

instance trans_key : IsTrans α fun x y => key x ≤ key y := ⟨fun _ _ _ => le_trans⟩

end Keys

/-! ### Plans -/

variable {queue queue' : List Job} {memory : MemorySnapshot} {policy : RunnerPolicy} {now chainNow : ℤ}
  {job other : Job} {plan : Plan}

/-- What a plan that starts a job has found. -/
structure Started (memory : MemorySnapshot) (policy : RunnerPolicy) (now chainNow : ℤ) (queue : List Job)
    (job : Job) : Prop where
  mem : job ∈ queue
  queued : job.status = .queued
  eligible : job.retryIsEligible now chainNow = true
  running : (queue.filter fun job => job.status = .running && !job.stale now).length < policy.maxRunning
  fresh : ∀ other ∈ queue, other.stale now = false
  swap : memory.swapUsedMb ≤ policy.maxSwapUsedMb
  memory : (policy.reserveMemoryMb : ℤ) + ⌈(job.requiredMemoryMb : ℚ) * policy.memorySafetyFactor⌉ ≤
    memory.availableMb
  first : ∀ other ∈ queue, other.status = .queued → other.retryIsEligible now chainNow = true →
    other ≠ job → job.sortKey chainNow < other.sortKey chainNow

end P42Prizes.Challenger
