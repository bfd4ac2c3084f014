import P42Prizes.ChallengePass
import P42Prizes.EnvelopeLaws
import P42Prizes.QueueLaws

/-! # The envelope and the queue agree

`Agrees` says that what is pending in the envelope belongs to a job that is not finished.  Every write
of a pass keeps it (`Triple.envelope`, `Triple.record`), but for those that finish a job whose
reservation has not been moved: the passes that come to one are told apart by what they read
(`ConsumeView.Served`). -/

namespace P42Prizes.Challenger

open Passes Reverting Agent Transition Keyed
open WalletNonce (modifyFirst)

/-! ### The envelope under one operation -/

/-- `id` was spent. -/
def Spent (id : String) (s : Envelope) : Prop := ∃ day, Reserved id (s.bucket day).spends

/-- A reservation that is released comes off the first day of the file. -/
def Releasable (id : String) (s : Envelope) : Prop := Reserved id s.pending → Reserved id s.firstDay

/-- Nothing is spent back, and nothing but `new` comes to be reserved. -/
structure Goes (new : String → Prop) (s s' : Envelope) : Prop where
  sound : s'.Sound defaultLimits
  pending : ∀ id, Reserved id s'.pending → Reserved id s.pending ∨ new id
  spent : ∀ id, Spent id s → Spent id s'

section Envelope

variable {s s' : Envelope} {id : String} {new : String → Prop}

theorem reserved_bucket (hs : s.Sound defaultLimits) :
    Reserved id s.pending ↔ ∃ day, Reserved id (s.bucket day).reservations := by
  rw [Envelope.reserved_pending]
  constructor
  · rintro ⟨⟨day, b⟩, hmem, hres⟩
    exact ⟨day, by rwa [Envelope.bucket, lookup_eq_of_mem hs.days hmem]⟩
  · rintro ⟨day, hres⟩
    exact ⟨_, Envelope.mem_bucket hs.days hres, hres⟩

theorem Goes.refl (hs : s.Sound defaultLimits) : Goes new s s := ⟨hs, fun _ h => .inl h, fun _ h => h⟩

theorem Goes.of_bucket (hs : s.Sound defaultLimits) (hs' : s'.Sound defaultLimits)
    (h : s'.bucket = s.bucket) : Goes new s s' where
  sound := hs'
  pending := fun id hres => by
    rw [reserved_bucket hs', h, ← reserved_bucket hs] at hres
    exact .inl hres
  spent := fun id hspent => by
    unfold Spent at hspent ⊢
    rwa [h]

/-- One bucket is replaced. -/
theorem Goes.of_update {day : ℕ} {b : Bucket} (hs : s.Sound defaultLimits) (hs' : s'.Sound defaultLimits)
    (h : s'.bucket = Function.update s.bucket day b)
    (hpending : ∀ id, Reserved id b.reservations → Reserved id (s.bucket day).reservations ∨ new id)
    (hspent : ∀ id, Reserved id (s.bucket day).spends → Reserved id b.spends) : Goes new s s' where
  sound := hs'
  pending := by
    intro id hres
    obtain ⟨d, hres⟩ := (reserved_bucket hs').mp hres
    rw [h] at hres
    by_cases hd : d = day
    · subst hd
      rw [Function.update_self] at hres
      exact (hpending id hres).imp_left (fun hold => (reserved_bucket hs).mpr ⟨d, hold⟩)
    · rw [Function.update_of_ne hd] at hres
      exact .inl ((reserved_bucket hs).mpr ⟨d, hres⟩)
  spent := by
    rintro id ⟨d, hold⟩
    refine ⟨d, ?_⟩
    rw [h]
    by_cases hd : d = day
    · subst hd
      rw [Function.update_self]
      exact hspent id hold
    · rwa [Function.update_of_ne hd]

/-- The reservations of `id` are erased. -/
theorem Goes.of_erased (hs : s.Sound defaultLimits) (hs' : s'.Sound defaultLimits)
    (h : ∀ day, s'.bucket day =
      { s.bucket day with reservations := erase id (s.bucket day).reservations }) : Goes new s s' where
  sound := hs'
  pending := by
    rintro other ⟨row, hrow, hid⟩
    exact .inl ⟨row, Envelope.pending_of_erased hs.days hs'.days h hrow, hid⟩
  spent := by
    rintro other ⟨day, hold⟩
    exact ⟨day, by rwa [h day]⟩

theorem reserved_append {rows rows' : List Row} :
    Reserved id (rows ++ rows') ↔ Reserved id rows ∨ Reserved id rows' := by
  simp only [Reserved, List.mem_append, or_and_right, exists_or]

theorem reserved_erase {rows : List Row} {other : String} (h : Reserved id (erase other rows)) :
    Reserved id rows := by
  obtain ⟨row, hrow, hid⟩ := h
  exact ⟨row, erase_sublist.subset hrow, hid⟩

theorem reserved_mark {rows : List Row} {other : String} {intent : ActionIntent} :
    Reserved id (mark other intent rows) ↔ Reserved id rows := by
  simp only [Reserved, mark, List.mem_map]
  constructor
  · rintro ⟨_, ⟨row, hrow, rfl⟩, hid⟩
    refine ⟨row, hrow, ?_⟩
    split at hid <;> exact hid
  · rintro ⟨row, hrow, hid⟩
    refine ⟨_, ⟨row, hrow, rfl⟩, ?_⟩
    split <;> exact hid

variable (new) in
/-- A final receipt moves the reservation to the spends, or finds it there. -/
theorem finalize_goes (hs : s.Sound defaultLimits) (hid : Plain id)
    (receipt : Option FinalizedReceipt) :
    Goes new s (EnvelopeOp.run s (.finalize id receipt)).2 ∧
      ∀ report, (EnvelopeOp.run s (.finalize id receipt)).1 = .ok report →
        ¬ Reserved id (EnvelopeOp.run s (.finalize id receipt)).2.pending ∧
          Spent id (EnvelopeOp.run s (.finalize id receipt)).2 := by
  have hserved : (EnvelopeOp.finalize id receipt).Served defaultLimits s := hid
  obtain ⟨hs', hmoved, hkept⟩ := EnvelopeOp.finalize_step receipt hs hserved
  cases receipt with
  | none => exact ⟨.of_bucket hs hs' (hkept (.inr rfl)), fun report h => by cases h⟩
  | some receipt =>
      by_cases hres : Reserved id s.pending
      · obtain ⟨-, day, row, hrow, hrid, hbucket⟩ := hmoved hres receipt rfl
        refine ⟨.of_update hs hs' hbucket (fun _ h => .inl (reserved_erase h))
          (fun _ h => reserved_append.mpr (.inl h)), fun report _ => ⟨?_, day, ?_⟩⟩
        · intro hleft
          obtain ⟨d, hleft⟩ := (reserved_bucket hs').mp hleft
          rw [hbucket] at hleft
          by_cases hd : d = day
          · subst hd
            rw [Function.update_self] at hleft
            exact not_reserved_erase hleft
          · rw [Function.update_of_ne hd] at hleft
            exact hd (hs.reserved_day ⟨row, hrow, hrid⟩ hleft)
        · rw [hbucket, Function.update_self]
          exact reserved_append.mpr (.inr ⟨_, List.mem_singleton_self _, hrid⟩)
      · have hbucket := hkept (.inl hres)
        refine ⟨.of_bucket hs hs' hbucket, fun report h => ⟨?_, ?_⟩⟩
        · rwa [reserved_bucket hs', hbucket, ← reserved_bucket hs]
        · have hspent : ∃ entry ∈ s.days, Reserved id entry.2.spends := by
            rcases Envelope.finalizeDays_spec hid receipt s.days with
              ⟨pre, day, b, post, row, hdays, hrow, hrid, -⟩ | ⟨-, hspent⟩ | ⟨hloop, -⟩
            · exact absurd (Envelope.reserved_pending.mpr ⟨(day, b), by simp [hdays], row, hrow, hrid⟩) hres
            · exact hspent
            · simp [EnvelopeOp.run, Envelope.finalizeChallengeSpend, hs.read_bind, hloop, settle] at h
          obtain ⟨⟨day, b⟩, hmem, hspent⟩ := hspent
          refine ⟨day, ?_⟩
          rw [hbucket, Envelope.bucket, lookup_eq_of_mem hs.days hmem]
          exact hspent

variable (new) in
/-- A release takes the reservation out. -/
theorem release_goes (hs : s.Sound defaultLimits) (h : Releasable id s) :
    Goes new s (EnvelopeOp.run s (.release id)).2 ∧
      ¬ Reserved id (EnvelopeOp.run s (.release id)).2.pending := by
  obtain ⟨s', hrun, hs', hbucket⟩ := Envelope.release_spec hs h
  have hout : (EnvelopeOp.run s (.release id)).2 = s' := by simp only [EnvelopeOp.run, hrun, settle]
  rw [hout]
  exact ⟨.of_erased hs hs' hbucket, Envelope.not_reserved_of_erased hs'.days hbucket⟩

theorem abandon_goes (hs : s.Sound defaultLimits) (h : Releasable id s) :
    Goes new s (s.abandonIntent id).2 := by
  obtain ⟨s', hrun, hs', hbucket⟩ := Envelope.release_spec hs h
  have hout : (s.abandonIntent id).2 = s' := by simp only [Envelope.abandonIntent, hrun]
  rw [hout]
  exact .of_erased hs hs' hbucket

theorem fails_goes (hs : s.Sound defaultLimits) (h : Releasable id s) :
    Goes new s (EnvelopeOp.run s (.intent id .fails)).2 := by
  have hout : EnvelopeOp.run s (.intent id .fails) = s.abandonIntent id := by
    simp only [EnvelopeOp.run, Envelope.runChallengeActionIntent, hs.read]
  rw [hout]
  exact abandon_goes hs h

/-- The days of the file are in order. -/
def InOrder (s : Envelope) : Prop := (keys s.days).Pairwise (· ≤ ·)

theorem inOrder_write (s : Envelope) : InOrder s.write := by
  unfold InOrder Envelope.write
  exact List.pairwise_map.mpr (List.pairwise_insertionSort _ _)

theorem write_of_inOrder (h : InOrder s) : s.write = s := by
  unfold Envelope.write
  rw [(List.pairwise_map.mp h).insertionSort_eq]

variable (new) in
/-- A journal is marked as durable only at a reservation, which stays where it is. -/
theorem marks_goes (hs : s.Sound defaultLimits) (hid : Plain id) {journalPath hash : String} :
    Goes new s (EnvelopeOp.run s (.intent id (.marks journalPath hash false))).2 ∧
      ∀ report, (EnvelopeOp.run s (.intent id (.marks journalPath hash false))).1 = .ok report →
        Reserved id s.pending ∧ (InOrder s → Releasable id s →
          Releasable id (EnvelopeOp.run s (.intent id (.marks journalPath hash false))).2) := by
  let intent : ActionIntent := .journalDurable journalPath hash
  rcases Envelope.markDays_spec hid intent s.days with
    ⟨pre, day, b, post, hdays, hres, hloop⟩ | ⟨hloop, hno⟩
  · let b' : Bucket := { b with reservations := mark id intent b.reservations }
    have hmem : (day, b) ∈ s.days := by simp [hdays]
    have hb : s.bucket day = b := lookup_eq_of_mem hs.days hmem
    have hout : EnvelopeOp.run s (.intent id (.marks journalPath hash false)) =
        (.ok .performed, Envelope.write ⟨pre ++ (day, b') :: post⟩) := by
      simp only [EnvelopeOp.run, Envelope.runChallengeActionIntent, hs.read]
      rw [hloop]
      rfl
    have hupdated : Updated {} day b b' s.days (Envelope.write ⟨pre ++ (day, b') :: post⟩).days := by
      refine Updated.perm_right ?_ (Envelope.write_perm _)
      have hn := hs.days
      rw [hdays] at hn ⊢
      exact Updated.of_append hn
    have hserved : (EnvelopeOp.intent id (.marks journalPath hash false)).Served defaultLimits s :=
      ⟨hid, fun h => by cases h⟩
    have hsound := (EnvelopeOp.intent_step hs hserved).1
    rw [hout] at hsound ⊢
    have hpending : Reserved id s.pending := Envelope.reserved_pending.mpr ⟨_, hmem, hres⟩
    refine ⟨.of_update hs hsound (Envelope.bucket_updated hs.days hupdated) ?_ ?_, ?_⟩
    · intro other h
      rw [hb]
      exact .inl (reserved_mark.mp h)
    · intro other h
      rwa [hb] at h
    · refine fun _ _ => ⟨hpending, fun horder h _ => ?_⟩
      have hfirst := h hpending
      have horder' : InOrder ⟨pre ++ (day, b') :: post⟩ := by
        unfold InOrder at horder ⊢
        rw [hdays] at horder
        simpa [keys] using horder
      rw [write_of_inOrder horder']
      cases pre with
      | nil =>
          simp only [Envelope.firstDay, hdays, List.nil_append] at hfirst ⊢
          exact reserved_mark.mpr hfirst
      | cons entry pre =>
          simp only [Envelope.firstDay, hdays, List.cons_append] at hfirst ⊢
          exact hfirst
  · have hnone : ¬ Reserved id s.pending := by
      intro hres
      obtain ⟨entry, hentry, hres⟩ := Envelope.reserved_pending.mp hres
      exact hno entry hentry hres
    have hout : EnvelopeOp.run s (.intent id (.marks journalPath hash false)) = s.abandonIntent id := by
      simp only [EnvelopeOp.run, Envelope.runChallengeActionIntent, hs.read]
      rw [hloop]
    rw [hout]
    refine ⟨abandon_goes hs (fun hres => absurd hres hnone), fun report h => ?_⟩
    obtain ⟨s', hrun, -, -⟩ := Envelope.release_spec hs (fun hres : Reserved id s.pending => absurd hres hnone)
    simp only [Envelope.abandonIntent, hrun] at h
    cases h

/-- A reservation adds `input.id` at most, and leaves the days in order. -/
theorem reserve_goes (day : ℕ) (input : ReserveInput) (hs : s.Sound defaultLimits)
    (hid : Plain input.id) (htight : input.tightened = []) :
    Goes (· = input.id) s (EnvelopeOp.run s (.reserve day input)).2 ∧
      ∀ report, (EnvelopeOp.run s (.reserve day input)).1 = .ok report →
        InOrder (EnvelopeOp.run s (.reserve day input)).2 := by
  have hserved : (EnvelopeOp.reserve day input).Served defaultLimits s :=
    ⟨hid, fun entry h => absurd (htight ▸ h) List.not_mem_nil, input.within_default⟩
  obtain ⟨hs', hlawful⟩ := EnvelopeOp.reserve_step hs hserved
  constructor
  · rcases hlawful with hbucket | ⟨-, limits, -, hbucket, -⟩
    · exact .of_bucket hs hs' hbucket
    · refine .of_update hs hs' hbucket (fun id h => ?_) (fun id h => h)
      refine (reserved_append.mp h).imp_right ?_
      rintro ⟨row, hrow, hid⟩
      obtain rfl := List.mem_singleton.mp hrow
      exact hid.symm
  · intro report h
    cases hrun : s.reserveChallengeSpend day input with
    | error e => simp [EnvelopeOp.run, hrun, settle] at h
    | ok out =>
        obtain ⟨report', s'⟩ := out
        have hout : (EnvelopeOp.run s (.reserve day input)).2 = s' := by
          simp only [EnvelopeOp.run, hrun, settle]
        rw [hout]
        rcases Envelope.reserve_cases hs hid hrun with ⟨-, rfl⟩ | ⟨-, -, -, _, -, -, -, -, rfl⟩
        · exact inOrder_write _
        · exact inOrder_write _

end Envelope

/-! ### Agreement -/

/-- No pass touches the job again. -/
def Job.Finished (job : Job) : Prop :=
  job.terminalDisposition ≠ none ∨ ∃ action, job.action = some action ∧ action.status.terminal = true

/-- The hash that the reservation of the job is entered under. -/
def Job.reservationId (job : Job) : Option String := job.candidate.map Candidate.candidateHash

/-- The job is being challenged for, under the reservation `id`. -/
def Job.Owns (job : Job) (id : String) : Prop :=
  (∃ candidate, job.candidate = some candidate ∧ candidate.action = .challenge ∧
    candidate.candidateHash = id) ∧ ¬ job.Finished

def Owned (queue : List Job) (id : String) : Prop := ∃ job ∈ queue, job.Owns id

structure Agrees (files : Files) : Prop where
  sound : files.envelope.Sound defaultLimits
  ids : (files.queue.map Job.id).Nodup
  plain : ∀ job ∈ files.queue, ∀ id, job.reservationId = some id → Plain id
  own : ∀ job ∈ files.queue, ∀ other ∈ files.queue, ∀ id, job.reservationId = some id →
    other.reservationId = some id → job = other
  pending : ∀ id, Reserved id files.envelope.pending → Owned files.queue id
  confirmed : ∀ job ∈ files.queue, ∀ action, job.action = some action → action.status = .confirmed →
    ∃ id, job.reservationId = some id ∧ Spent id files.envelope

theorem Job.Owns.reservationId {job : Job} {id : String} (h : job.Owns id) :
    job.reservationId = some id := by
  obtain ⟨⟨candidate, hcandidate, -, rfl⟩, -⟩ := h
  rw [Job.reservationId, hcandidate]
  rfl

namespace Agrees

variable {files : Files} {s' : Envelope} {job job' : Job} {id : String}

/-- What is reserved for a job is gone when the job is finished. -/
theorem not_reserved (h : Agrees files) (hjob : job ∈ files.queue) (hid : job.reservationId = some id)
    (hfinished : job.Finished) : ¬ Reserved id files.envelope.pending := by
  intro hres
  obtain ⟨owner, howner, howns⟩ := h.pending id hres
  have hsame := h.own job hjob owner howner id hid howns.reservationId
  exact howns.2 (hsame ▸ hfinished)

theorem envelope {new : String → Prop} (h : Agrees files) (hgoes : Goes new files.envelope s')
    (hnew : ∀ id, new id → Owned files.queue id) : Agrees { files with envelope := s' } where
  sound := hgoes.sound
  ids := h.ids
  plain := h.plain
  own := h.own
  pending := fun id hres => (hgoes.pending id hres).elim (h.pending id) (hnew id)
  confirmed := fun job hjob action haction hstatus => by
    obtain ⟨id, hid, hspent⟩ := h.confirmed job hjob action haction hstatus
    exact ⟨id, hid, hgoes.spent id hspent⟩

/-- One job is replaced, and goes on owning what is reserved for it. -/
theorem replace (h : Agrees files) (hjob : job ∈ files.queue) (hid : job'.id = job.id)
    (hplain : ∀ id, job'.reservationId = some id → Plain id)
    (hown : ∀ other ∈ files.queue, other.id ≠ job.id → ∀ id, job'.reservationId = some id →
      other.reservationId ≠ some id)
    (hpending : ∀ id, Reserved id files.envelope.pending → job.Owns id → job'.Owns id)
    (hconfirmed : ∀ action, job'.action = some action → action.status = .confirmed →
      ∃ id, job'.reservationId = some id ∧ Spent id files.envelope) :
    Agrees { files with
      queue := replaceJob job' files.queue } := by
  let change : Job → Job := fun other => if other.id = job.id then job' else other
  have hmap : replaceJob job' files.queue = files.queue.map change := by rw [replaceJob, hid]
  rw [hmap]
  have hsame : ∀ other ∈ files.queue, other.id = job.id → other = job := fun other hother heq =>
    List.inj_on_of_nodup_map h.ids hother hjob heq
  have hself : ∀ other, other.id = job.id → change other = job' := fun other heq => if_pos heq
  have hrest : ∀ other, other.id ≠ job.id → change other = other := fun other hne => if_neg hne
  have hids : (files.queue.map change).map Job.id = files.queue.map Job.id := by
    rw [List.map_map]
    refine List.map_congr_left (fun other _ => ?_)
    by_cases heq : other.id = job.id
    · rw [Function.comp_apply, hself other heq, hid, heq]
    · rw [Function.comp_apply, hrest other heq]
  constructor
  case sound => exact h.sound
  case ids => exact hids ▸ h.ids
  case plain =>
    intro other hother id hres
    obtain ⟨old, hold, rfl⟩ := List.mem_map.mp hother
    by_cases heq : old.id = job.id
    · exact hplain id (hself old heq ▸ hres)
    · exact h.plain old hold id (hrest old heq ▸ hres)
  case own =>
    intro x hx y hy id hxid hyid
    obtain ⟨oldX, holdX, rfl⟩ := List.mem_map.mp hx
    obtain ⟨oldY, holdY, rfl⟩ := List.mem_map.mp hy
    by_cases hX : oldX.id = job.id <;> by_cases hY : oldY.id = job.id
    · rw [hself oldX hX, hself oldY hY]
    · exact absurd (hrest oldY hY ▸ hyid) (hown oldY holdY hY id (hself oldX hX ▸ hxid))
    · exact absurd (hrest oldX hX ▸ hxid) (hown oldX holdX hX id (hself oldY hY ▸ hyid))
    · rw [hrest oldX hX, hrest oldY hY]
      exact h.own oldX holdX oldY holdY id (hrest oldX hX ▸ hxid) (hrest oldY hY ▸ hyid)
  case pending =>
    intro id hres
    obtain ⟨owner, howner, howns⟩ := h.pending id hres
    refine ⟨change owner, List.mem_map.mpr ⟨owner, howner, rfl⟩, ?_⟩
    by_cases heq : owner.id = job.id
    · rw [hself owner heq]
      exact hpending id hres (hsame owner howner heq ▸ howns)
    · rwa [hrest owner heq]
  case confirmed =>
    intro other hother action haction hstatus
    obtain ⟨old, hold, rfl⟩ := List.mem_map.mp hother
    by_cases heq : old.id = job.id
    · rw [hself old heq] at haction ⊢
      exact hconfirmed action haction hstatus
    · rw [hrest old heq] at haction ⊢
      exact h.confirmed old hold action haction hstatus

/-- One job changes, but not its transcript, and is not finished before its reservation is moved. -/
theorem queue (h : Agrees files) (hjob : job ∈ files.queue) (hid : job'.id = job.id)
    (htranscript : job'.transcript = job.transcript)
    (hfinished : job'.Finished →
      ∀ id, job.reservationId = some id → ¬ Reserved id files.envelope.pending)
    (hconfirmed : ∀ action, job'.action = some action → action.status = .confirmed →
      ∃ id, job'.reservationId = some id ∧ Spent id files.envelope) :
    Agrees { files with
      queue := replaceJob job' files.queue } := by
  have hcandidate : job'.candidate = job.candidate := by rw [Job.candidate, htranscript, Job.candidate]
  have hreservation : job'.reservationId = job.reservationId := by
    rw [Job.reservationId, hcandidate, Job.reservationId]
  refine h.replace hjob hid ?_ ?_ ?_ hconfirmed
  · exact fun id hres => h.plain job hjob id (hreservation ▸ hres)
  · intro other hother hne id hres hother'
    exact hne (congrArg Job.id (h.own other hother job hjob id hother' (hreservation ▸ hres)))
  · intro id hres howns
    exact ⟨hcandidate ▸ howns.1, fun hdone => hfinished hdone id howns.reservationId hres⟩

end Agrees

/-! ### Writes of the queue -/

/-- The job is in the queue with its transcript, and is not finished. -/
def Live (job : Job) (files : Files) : Prop :=
  ∃ current ∈ files.queue, current.id = job.id ∧ current.transcript = job.transcript ∧
    ¬ current.Finished

/-- What holds in a pass before the write that finishes its job. -/
structure Ready (job : Job) (C : Envelope → Prop) (files : Files) : Prop where
  agrees : Agrees files
  live : Live job files
  envelope : C files.envelope

section Writes

variable {job : Job} {C D : Envelope → Prop} {candidate : Candidate} {status : ActionStatus}
  {transactionHash detail alertMessage : Option String} {id : String}

/-- The reservation of the job is not pending. -/
def Unreserved (job : Job) (files : Files) : Prop :=
  ∀ id, job.reservationId = some id → ¬ Reserved id files.envelope.pending

/-- One write of the queue at the job of the pass. -/
theorem triple_onQueue {f : Job → Except QueueError Job} {Q : Files → Prop}
    (hf : ∀ current next, f current = .ok next → next.id = current.id)
    (h : ∀ files, Ready job C files → ∀ current ∈ files.queue, current.id = job.id →
      current.transcript = job.transcript → ∀ next, f current = .ok next →
        Q { files with queue := replaceJob next files.queue }) :
    Triple Agrees (Ready job C) (onQueue (updateJob job.id f)) (fun _ => Q) := by
  refine Triple.write (fun files hready => hready.agrees) (fun files hready => ?_)
  cases hrun : updateJob job.id f files.queue with
  | error e => exact hready.agrees
  | ok queue =>
      obtain ⟨current, hcurrent, hid, next, hnext, rfl⟩ := updateJob_spec hready.agrees.ids hf hrun
      obtain ⟨live, hlive, hliveId, htranscript, -⟩ := hready.live
      have hsame : live = current :=
        List.inj_on_of_nodup_map hready.agrees.ids hlive hcurrent (hliveId.trans hid.symm)
      exact h files hready current hcurrent hid (hsame ▸ htranscript) next hnext

theorem triple_check {u : ActionUpdate} {I P : Files → Prop} {Q : Unit → Files → Prop}
    (hI : ∀ files, P files → I files) (h : Triple I P (onQueue (updateJob u.jobId u.record)) Q) :
    Triple I P (onQueue (recordRunnerAction u)) Q := by
  unfold recordRunnerAction
  cases hcheck : u.check with
  | error e => exact Triple.write hI (fun files hfiles => hI files hfiles)
  | ok => exact h

/-- An action that goes on leaves the job live. -/
theorem triple_recordLive (hstatus : status.terminal = false) :
    Triple Agrees (Ready job C) (recordAction job candidate status transactionHash detail alertMessage)
      (fun _ => Ready job C) := by
  refine triple_check (fun _ hready => hready.agrees) (triple_onQueue (fun _ _ => record_id) ?_)
  intro files hready current hcurrent hid htranscript next hnext
  obtain ⟨hdisposed, action, alert, hframe, hnextStatus⟩ := record_spec hnext
  have hnextId : next.id = current.id := record_id hnext
  have hnextTranscript : next.transcript = current.transcript := by rw [hframe]
  have haction : next.action = some action := by rw [hframe]
  have hlive : ¬ next.Finished := by
    rintro (hdone | ⟨other, hother, hterminal⟩)
    · exact hdone hdisposed
    · rw [haction] at hother
      obtain rfl := Option.some.inj hother
      rw [hnextStatus, hstatus] at hterminal
      cases hterminal
  refine ⟨?_, ⟨next, ?_, hnextId.trans hid, hnextTranscript.trans htranscript, hlive⟩, hready.envelope⟩
  · refine hready.agrees.queue hcurrent hnextId hnextTranscript (fun h => absurd h hlive) ?_
    intro other hother hconfirmed
    rw [haction] at hother
    obtain rfl := Option.some.inj hother
    change action.status = status at hnextStatus
    rw [← hnextStatus, hconfirmed] at hstatus
    cases hstatus
  · exact List.mem_map.mpr ⟨current, hcurrent, if_pos hnextId.symm⟩

/-- A job may be finished by an action once its reservation is gone. -/
theorem triple_recordLast (hfree : ∀ files, Ready job C files → Unreserved job files)
    (hspent : status = .confirmed → ∀ s, C s → ∃ id, job.reservationId = some id ∧ Spent id s) :
    Triple Agrees (Ready job C) (recordAction job candidate status transactionHash detail alertMessage)
      (fun _ => Agrees) := by
  refine triple_check (fun _ hready => hready.agrees) (triple_onQueue (fun _ _ => record_id) ?_)
  intro files hready current hcurrent hid htranscript next hnext
  obtain ⟨-, action, alert, hframe, hnextStatus⟩ := record_spec hnext
  have hnextId : next.id = current.id := record_id hnext
  have hnextTranscript : next.transcript = current.transcript := by rw [hframe]
  have haction : next.action = some action := by rw [hframe]
  have hreservation : current.reservationId = job.reservationId := by
    simp only [Job.reservationId, Job.candidate, htranscript]
  refine hready.agrees.queue hcurrent hnextId hnextTranscript ?_ ?_
  · exact fun _ id hres => hfree files hready id (hreservation ▸ hres)
  · intro other hother hconfirmed
    rw [haction] at hother
    obtain rfl := Option.some.inj hother
    change action.status = status at hnextStatus
    obtain ⟨id, hres, hdone⟩ := hspent (hnextStatus.symm.trans hconfirmed) _ hready.envelope
    refine ⟨id, ?_, hdone⟩
    rw [Job.reservationId, Job.candidate, hnextTranscript, htranscript]
    exact hres

theorem triple_disposition {reason : DispositionReason} {verified : Bool}
    (hfree : ∀ files, Ready job C files → Unreserved job files) :
    Triple Agrees (Ready job C) (recordLocalDisposition job reason detail verified)
      (fun _ => Agrees) := by
  refine triple_onQueue (fun _ _ => disposition_id) ?_
  intro files hready current hcurrent hid htranscript next hnext
  obtain ⟨-, haction, hframe⟩ := disposition_spec hnext
  have hnextId : next.id = current.id := disposition_id hnext
  have hnextTranscript : next.transcript = current.transcript := by
    rcases hframe with rfl | ⟨hash, rfl⟩ <;> rfl
  have hnone : next.action = none := by
    rcases hframe with rfl | ⟨hash, rfl⟩ <;> exact haction
  have hreservation : current.reservationId = job.reservationId := by
    simp only [Job.reservationId, Job.candidate, htranscript]
  refine hready.agrees.queue hcurrent hnextId hnextTranscript ?_ ?_
  · exact fun _ id hres => hfree files hready id (hreservation ▸ hres)
  · intro action haction
    rw [hnone] at haction
    cases haction

/-- One operation on the envelope. -/
theorem triple_onEnvelope {op : EnvelopeOp} (new : String → Prop)
    (hgoes : ∀ files, Ready job C files → Goes new files.envelope (op.run files.envelope).2)
    (hnew : ∀ files, Ready job C files → ∀ id, new id → Owned files.queue id)
    (hD : ∀ files, Ready job C files → ∀ report, (op.run files.envelope).1 = .ok report →
      D (op.run files.envelope).2) :
    Triple Agrees (Ready job C) (onEnvelope op) (fun _ => Ready job D) := by
  refine Triple.write (fun _ hready => hready.agrees) (fun files hready => ?_)
  have hagrees := hready.agrees.envelope (hgoes files hready) (hnew files hready)
  cases hrun : (op.run files.envelope).1 with
  | error e =>
      simp only [hrun, Except.mapError]
      exact hagrees
  | ok report =>
      simp only [hrun, Except.mapError]
      exact ⟨hagrees, hready.live, hD files hready report hrun⟩

end Writes

/-! ### Following a transaction -/

namespace BroadcastView

variable (view : BroadcastView) (required : ℕ) (job : Job) (candidate : Candidate)

theorem rebroadcastGate_status {view : BroadcastView} {job : Job} {candidate : Candidate}
    {r : Rejection} (h : view.rebroadcastGate job candidate = .rejected r) :
    r.status ≠ .confirmed := by
  unfold rebroadcastGate at h
  split at h
  · cases h
    simp
  · split at h
    · cases h
    · cases h
      simp
    · split at h <;> cases h
      simp

/-- The transaction is unknown, and is not broadcast again. -/
def GivesUp : Prop :=
  view.journal = true ∧ (view.receiptState required = some none ∨
      ∃ receipt, view.receiptState required = some (some (receipt, .reorged))) ∧
    view.pending = some false ∧ ∃ rejection, view.rebroadcastGate job candidate = .rejected rejection

/-- The transaction is final and has failed. -/
def Reverts : Prop :=
  view.journal = true ∧ ∃ receipt, view.receiptState required = some (some (receipt, .confirmed)) ∧
    receipt.success = false

/-- A transaction is given up only without a reservation, and the reservation of a failed one comes
off the first day of the file. -/
def Served (s : Envelope) : Prop :=
  (view.GivesUp required job candidate → ¬ Reserved candidate.candidateHash s.pending) ∧
    (view.Reverts required → Releasable candidate.candidateHash s)

end BroadcastView

section Reconcile

variable {files : Files} {config : Config} {view : BroadcastView} {job : Job} {candidate : Candidate}
  {C : Envelope → Prop} {status : ActionStatus} {hash : String}

theorem observed {p : Prop} [Decidable p] {u : Unit} (h : (if p then some () else none) = some u) : p := by
  by_contra hno
  rw [if_neg hno] at h
  cases h

theorem Agrees.plain_of (hagrees : Agrees files) (hlive : Live job files)
    (hjob : job.candidate = some candidate) : Plain candidate.candidateHash := by
  obtain ⟨current, hcurrent, -, htranscript, -⟩ := hlive
  refine hagrees.plain current hcurrent _ ?_
  rw [Job.reservationId, Job.candidate, htranscript, ← Job.candidate, hjob]
  rfl

theorem unreserved_of (hjob : job.candidate = some candidate)
    (h : ¬ Reserved candidate.candidateHash files.envelope.pending) : Unreserved job files := by
  intro id hid
  rw [Job.reservationId, hjob] at hid
  obtain rfl := Option.some.inj hid
  exact h

theorem triple_recordBroadcast : Triple Agrees (Ready job C)
    (recordBroadcast job candidate status hash) (fun _ => Agrees) := by
  unfold recordBroadcast
  split
  · exact Triple.pure (fun _ hready => hready.agrees)
  · exact (triple_recordLive rfl).weaken (fun _ h => h) (fun _ _ hready => hready.agrees)

theorem triple_rebroadcast (hjob : job.candidate = some candidate)
    (hfree : (∃ r, view.rebroadcastGate job candidate = .rejected r) →
      ∀ s, C s → ¬ Reserved candidate.candidateHash s.pending) :
    Triple Agrees (Ready job C) (rebroadcast view job candidate status hash) (fun _ => Agrees) := by
  have hstop : ∀ files, Ready job C files → Agrees files := fun _ hready => hready.agrees
  unfold rebroadcast
  cases hcase : view.rebroadcastGate job candidate with
  | unavailable => exact Triple.throw hstop
  | rejected rejection =>
      refine triple_recordLast ?_ ?_
      · intro files hready
        exact unreserved_of hjob (hfree ⟨rejection, hcase⟩ _ hready.envelope)
      · intro h
        exact absurd h (BroadcastView.rebroadcastGate_status hcase)
  | passed known => exact Triple.observe_bind hstop (fun _ _ => triple_recordBroadcast)

theorem triple_reconcilePending (hjob : job.candidate = some candidate)
    (hfree : view.pending = some false → (∃ r, view.rebroadcastGate job candidate = .rejected r) →
      ∀ s, C s → ¬ Reserved candidate.candidateHash s.pending) :
    Triple Agrees (Ready job C) (reconcilePending view job candidate status hash) (fun _ => Agrees) := by
  have hstop : ∀ files, Ready job C files → Agrees files := fun _ hready => hready.agrees
  refine Triple.observe_bind hstop (fun pending hpending => ?_)
  cases pending with
  | true => exact Triple.observe_bind hstop (fun _ _ => triple_recordBroadcast)
  | false =>
      simp only [Bool.false_eq_true, if_false]
      split
      · exact Triple.bind (triple_recordLive rfl) (fun _ => triple_rebroadcast hjob (hfree hpending))
      · exact triple_rebroadcast hjob (hfree hpending)

/-- A final receipt moves or releases the reservation before it finishes the job. -/
theorem triple_settleReceipt {receipt : Receipt} (hjob : job.candidate = some candidate)
    (hreleasable : receipt.success = false → ∀ s, C s → Releasable candidate.candidateHash s) :
    Triple Agrees (Ready job C) (settleReceipt job candidate receipt hash) (fun _ => Agrees) := by
  have hplain : ∀ files, Ready job C files → Plain candidate.candidateHash := fun _ hready =>
    hready.agrees.plain_of hready.live hjob
  have hid : job.reservationId = some candidate.candidateHash := by rw [Job.reservationId, hjob]; rfl
  unfold settleReceipt
  split
  · let D : Envelope → Prop := fun s =>
      ¬ Reserved candidate.candidateHash s.pending ∧ Spent candidate.candidateHash s
    refine Triple.bind (triple_onEnvelope (D := D) (fun _ => False) ?_ ?_ ?_) (fun _ => ?_)
    · exact fun files hready => (finalize_goes _ hready.agrees.sound (hplain files hready) _).1
    · exact fun _ _ _ h => h.elim
    · exact fun files hready =>
        (finalize_goes (fun _ => False) hready.agrees.sound (hplain files hready) _).2
    · refine triple_recordLast ?_ ?_
      · exact fun files hready => unreserved_of hjob hready.envelope.1
      · exact fun _ s hs => ⟨_, hid, hs.2⟩
  · rename_i hfailed
    let D : Envelope → Prop := fun s => ¬ Reserved candidate.candidateHash s.pending
    have hrelease : ∀ files, Ready job C files → Releasable candidate.candidateHash files.envelope :=
      fun files hready => hreleasable (by simpa using hfailed) _ hready.envelope
    refine Triple.bind (triple_onEnvelope (D := D) (fun _ => False) ?_ ?_ ?_) (fun _ => ?_)
    · exact fun files hready => (release_goes _ hready.agrees.sound (hrelease files hready)).1
    · exact fun _ _ _ h => h.elim
    · exact fun files hready _ _ =>
        (release_goes (fun _ => False) hready.agrees.sound (hrelease files hready)).2
    · refine triple_recordLast ?_ ?_
      · exact fun files hready => unreserved_of hjob hready.envelope
      · exact fun h => by cases h

theorem triple_reconcileReceipt {known : Option (Receipt × ReceiptState)}
    (hjob : job.candidate = some candidate) (hjournal : view.journal = true)
    (hknown : view.receiptState config.finalityConfirmations = some known)
    (hserved : ∀ s, C s → view.Served config.finalityConfirmations job candidate s) :
    Triple Agrees (Ready job C) (reconcileReceipt view job candidate status hash known)
      (fun _ => Agrees) := by
  have hstop : ∀ files, Ready job C files → Agrees files := fun _ hready => hready.agrees
  have hpending : (known = none ∨ ∃ receipt, known = some (receipt, .reorged)) →
      Triple Agrees (Ready job C) (reconcilePending view job candidate status hash)
        (fun _ => Agrees) := by
    intro hreceipt
    refine triple_reconcilePending hjob (fun hnone hrejected s hs => (hserved s hs).1 ?_)
    refine ⟨hjournal, ?_, hnone, hrejected⟩
    rcases hreceipt with rfl | ⟨receipt, rfl⟩
    · exact .inl hknown
    · exact .inr ⟨receipt, hknown⟩
  unfold reconcileReceipt
  split
  · exact hpending (.inl rfl)
  · split
    · exact Triple.bind (triple_recordLive rfl) (fun _ => hpending (.inr ⟨_, rfl⟩))
    · exact hpending (.inr ⟨_, rfl⟩)
  · split
    · exact (triple_recordLive rfl).weaken (fun _ h => h) (fun _ => hstop)
    · exact Triple.pure hstop
  · refine triple_settleReceipt hjob (fun hfailed s hs => (hserved s hs).2 ?_)
    exact ⟨hjournal, _, hknown, hfailed⟩

theorem triple_reconcileBroadcast (hserved : ∀ candidate, job.candidate = some candidate → ∀ s, C s →
      view.Served config.finalityConfirmations job candidate s) :
    Triple Agrees (Ready job C) (reconcileBroadcast config view job) (fun _ => Agrees) := by
  have hstop : ∀ files, Ready job C files → Agrees files := fun _ hready => hready.agrees
  unfold reconcileBroadcast
  split
  · exact Triple.pure hstop
  · split
    · exact Triple.pure hstop
    · split
      · exact Triple.pure hstop
      · split
        · exact Triple.pure hstop
        · refine Triple.observe_bind hstop (fun _ hjournal => ?_)
          refine Triple.observe_bind hstop (fun candidate hjob => ?_)
          refine Triple.observe_bind hstop (fun known hknown => ?_)
          exact Triple.bind
            (triple_reconcileReceipt hjob (observed hjournal) hknown (hserved candidate hjob))
            (fun _ => Triple.pure (fun _ h => h))

/-- Nothing follows an action that has ended. -/
theorem triple_reconcileBroadcast_done {action : Action} {P : Files → Prop}
    (haction : job.action = some action) (hterminal : action.status.terminal = true)
    (hP : ∀ files, P files → Agrees files) :
    Triple Agrees P (reconcileBroadcast config view job) (fun _ => Agrees) := by
  unfold reconcileBroadcast
  rw [haction]
  simp only
  split
  · exact Triple.pure hP
  · split
    · exact Triple.pure hP
    · exact Triple.pure hP

end Reconcile

/-! ### Consuming a candidate -/

namespace ConsumeView

variable (view : ConsumeView) (config : Config) (job : Job) (candidate : Candidate)

/-- What is signed and broadcast from the file `s` is followed up. -/
structure ServedSigning (s : Envelope) : Prop where
  fails : view.signed = none → Releasable candidate.candidateHash s
  follows : view.signed.isSome = true → Reserved candidate.candidateHash s.pending →
    view.record = true → view.broadcast.Served config.finalityConfirmations job candidate s

/-- The challenge is not given up while its bond is reserved. -/
structure ServedChallenge (s : Envelope) : Prop where
  transcript : ∀ message, view.transcript = .error message →
    ¬ Reserved candidate.candidateHash s.pending
  rejected : ∀ rejection, view.transcript = .ok () → candidate.Matches config job →
    view.locked = true → view.gate job candidate = .rejected rejection →
      ¬ Reserved candidate.candidateHash s.pending
  signing : ∀ bond admission, view.transcript = .ok () → candidate.Matches config job →
    view.locked = true → view.gate job candidate = .passed bond → view.admission = some admission →
      let out := EnvelopeOp.run s (.reserve admission.day (reservation config candidate bond admission))
      out.1.toBool = true → view.policyWritten = true → view.walletLocked = true →
        view.ServedSigning config job candidate out.2

/-- The pass over `job` does not end it while its reservation stays. -/
def Served (s : Envelope) : Prop :=
  job.orphaned = false → job.terminalDisposition = none → ∀ candidate, job.candidate = some candidate →
    (job.action ≠ none → view.walletLocked = true →
      view.broadcast.Served config.finalityConfirmations job candidate s) ∧
    (job.action = none → candidate.action = .challenge → view.ServedChallenge config job candidate s)

theorem gate_status {view : ConsumeView} {job : Job} {candidate : Candidate} {r : Rejection}
    (h : view.gate job candidate = .rejected r) : r.status ≠ .confirmed := by
  unfold gate at h
  split at h
  · cases h
    simp
  · simp only at h
    repeat' split at h
    all_goals cases h
    all_goals simp

end ConsumeView

section Consume

variable {files : Files} {config : Config} {view : ConsumeView} {job : Job} {candidate : Candidate}
  {bond : ℕ} {C : Envelope → Prop}

theorem Live.owned (hlive : Live job files) (hjob : job.candidate = some candidate)
    (hchallenge : candidate.action = .challenge) : Owned files.queue candidate.candidateHash := by
  obtain ⟨current, hcurrent, -, htranscript, hunfinished⟩ := hlive
  refine ⟨current, hcurrent, ⟨candidate, ?_, hchallenge, rfl⟩, hunfinished⟩
  rw [Job.candidate, htranscript]
  exact hjob

theorem triple_signAndBroadcast (hjob : job.candidate = some candidate) :
    Triple Agrees (Ready job (fun s => InOrder s ∧ view.ServedSigning config job candidate s))
      (signAndBroadcast config view job candidate) (fun _ => Agrees) := by
  have hplain : ∀ files, Ready job (fun s => InOrder s ∧ view.ServedSigning config job candidate s)
      files → Plain candidate.candidateHash := fun _ hready => hready.agrees.plain_of hready.live hjob
  unfold signAndBroadcast
  cases hsigned : view.signed with
  | none =>
      refine Triple.bind (triple_onEnvelope (D := fun _ => True) (fun _ => False) ?_ ?_ ?_)
        (fun _ => Triple.throw (fun _ hready => hready.agrees))
      · exact fun files hready => fails_goes hready.agrees.sound (hready.envelope.2.fails hsigned)
      · exact fun _ _ _ h => h.elim
      · exact fun _ _ _ _ => trivial
  | some signed =>
      let D : Envelope → Prop := fun s =>
        view.record = true → view.broadcast.Served config.finalityConfirmations job candidate s
      refine Triple.bind (triple_onEnvelope (D := D) (fun _ => False) ?_ ?_ ?_) (fun _ => ?_)
      · exact fun files hready => (marks_goes _ hready.agrees.sound (hplain files hready)).1
      · exact fun _ _ _ h => h.elim
      · intro files hready report hreport hrecord
        obtain ⟨hres, hkeeps⟩ := (marks_goes (fun _ => False) hready.agrees.sound
          (hplain files hready)).2 report hreport
        obtain ⟨horder, hsigning⟩ := hready.envelope
        obtain ⟨hgives, hreverts⟩ := hsigning.follows (by simp [hsigned]) hres hrecord
        exact ⟨fun h => absurd hres (hgives h), fun h => hkeeps horder (hreverts h)⟩
      · refine Triple.observe_bind (fun _ hready => hready.agrees) (fun _ hrecord => ?_)
        refine Triple.bind (triple_recordLive rfl) (fun _ => ?_)
        refine Triple.bind ?_ (fun _ => Triple.pure (fun _ h => h))
        let action : Action :=
          ⟨candidate.candidateHash, .signed, some signed.transactionHash, some signed.detail⟩
        let job' : Job := { job with action := some action }
        have hjob' : job'.candidate = some candidate := hjob
        have hserved : ∀ found, job'.candidate = some found → ∀ s, D s →
            view.broadcast.Served config.finalityConfirmations job' found s := by
          intro found hfound s hs
          obtain rfl := Option.some.inj (hjob'.symm.trans hfound)
          exact hs (observed hrecord)
        refine (triple_reconcileBroadcast hserved).weaken ?_ (fun _ _ h => h)
        exact fun _ hready => ⟨hready.agrees, hready.live, hready.envelope⟩

theorem triple_fileChallenge (hjob : job.candidate = some candidate)
    (hchallenge : candidate.action = .challenge)
    (hsigning : ∀ s, C s → ∀ admission, view.admission = some admission →
      let out := EnvelopeOp.run s (.reserve admission.day (reservation config candidate bond admission))
      out.1.toBool = true → view.policyWritten = true → view.walletLocked = true →
        view.ServedSigning config job candidate out.2) :
    Triple Agrees (Ready job C) (fileChallenge config view job candidate bond) (fun _ => Agrees) := by
  unfold fileChallenge
  cases hadmission : view.admission with
  | none => exact Triple.pure (fun _ hready => hready.agrees)
  | some admission =>
      let D : Bool → Envelope → Prop := fun reserved s => reserved = true →
        view.policyWritten = true → view.walletLocked = true →
          InOrder s ∧ view.ServedSigning config job candidate s
      have hreserve : Triple Agrees (Ready job C)
          (reserve admission.day (reservation config candidate bond admission))
          (fun reserved => Ready job (D reserved)) := by
        refine Triple.write (fun _ hready => hready.agrees) (fun files hready => ?_)
        have hplain : Plain candidate.candidateHash := hready.agrees.plain_of hready.live hjob
        obtain ⟨hgoes, horder⟩ := reserve_goes admission.day
          (reservation config candidate bond admission) hready.agrees.sound hplain rfl
        refine ⟨hready.agrees.envelope hgoes ?_, hready.live, fun hreserved hpolicy hwallet => ⟨?_, ?_⟩⟩
        · rintro id rfl
          exact hready.live.owned hjob hchallenge
        · cases hout : (EnvelopeOp.run files.envelope (.reserve admission.day
              (reservation config candidate bond admission))).1 with
          | error e => simp [hout, Except.toBool] at hreserved
          | ok report => exact horder report hout
        · exact hsigning _ hready.envelope admission hadmission hreserved hpolicy hwallet
      refine Triple.bind hreserve (fun reserved => ?_)
      cases reserved with
      | false => exact Triple.pure (fun _ hready => hready.agrees)
      | true =>
          refine Triple.observe_bind (fun _ hready => hready.agrees) (fun _ hdone => ?_)
          have hdone := observed hdone
          simp only [Bool.and_eq_true] at hdone
          refine (triple_signAndBroadcast hjob).weaken ?_ (fun _ _ h => h)
          exact fun _ hready => ⟨hready.agrees, hready.live, hready.envelope rfl hdone.1 hdone.2⟩

theorem triple_prepareChallenge (hjob : job.candidate = some candidate)
    (hchallenge : candidate.action = .challenge)
    (hrejected : ∀ s, C s → ∀ r, view.gate job candidate = .rejected r →
      ¬ Reserved candidate.candidateHash s.pending)
    (hsigning : ∀ s, C s → ∀ bond, view.gate job candidate = .passed bond →
      ∀ admission, view.admission = some admission →
      let out := EnvelopeOp.run s (.reserve admission.day (reservation config candidate bond admission))
      out.1.toBool = true → view.policyWritten = true → view.walletLocked = true →
        view.ServedSigning config job candidate out.2) :
    Triple Agrees (Ready job C) (prepareChallenge config view job candidate) (fun _ => Agrees) := by
  unfold prepareChallenge
  cases hgate : view.gate job candidate with
  | unavailable => exact Triple.throw (fun _ hready => hready.agrees)
  | rejected rejection =>
      refine triple_recordLast ?_ ?_
      · intro files hready
        exact unreserved_of hjob (hrejected _ hready.envelope rejection hgate)
      · intro h
        exact absurd h (ConsumeView.gate_status hgate)
  | passed bond =>
      exact triple_fileChallenge hjob hchallenge (fun s hs => hsigning s hs bond hgate)

theorem triple_consumeChallenge (hnew : job.action = none)
    (h : Triple Agrees (Ready job C) (prepareChallenge config view job candidate) (fun _ => Agrees)) :
    Triple Agrees (fun files => Ready job C files ∧ job ∈ files.queue)
      (consumeChallenge config view job candidate) (fun _ => Agrees) := by
  refine Triple.bind (Triple.get (Q := fun files s => Ready job C s ∧ s = files ∧ job ∈ s.queue)
    (fun s hs => ⟨hs.1, rfl, hs.2⟩)) (fun files => ?_)
  refine Triple.observe_bind (fun _ hs => hs.1.agrees) (fun durable hdurable => ?_)
  rintro s n ⟨hready, rfl, hmem⟩
  have hsame : durable = job := by
    have hid : durable.id = job.id := by simpa using List.find?_some hdurable
    exact List.inj_on_of_nodup_map hready.agrees.ids (List.mem_of_find?_eq_some hdurable) hmem hid
  rw [if_neg (by simp [hsame, hnew])]
  exact h s n hready

/-- Nothing is reserved for a job whose candidate is not a challenge. -/
theorem unreserved_of_other (hready : Ready job C files)
    (hother : ∀ candidate, job.candidate = some candidate → candidate.action ≠ .challenge) :
    Unreserved job files := by
  intro id hid hres
  obtain ⟨owner, howner, howns⟩ := hready.agrees.pending id hres
  obtain ⟨current, hcurrent, -, htranscript, -⟩ := hready.live
  have hcurrentId : current.reservationId = some id := by
    rw [Job.reservationId, Job.candidate, htranscript]
    exact hid
  have hsame := hready.agrees.own current hcurrent owner howner id hcurrentId howns.reservationId
  obtain ⟨⟨candidate, hcandidate, hchallenge, -⟩, -⟩ := howns
  refine hother candidate ?_ hchallenge
  rw [Job.candidate, ← htranscript, hsame]
  exact hcandidate

theorem triple_consumeTranscript (hjob : job.candidate = some candidate) (hnew : job.action = none)
    (htranscript : view.transcript = .ok ())
    (hserved : ∀ s, C s → candidate.action = .challenge →
      view.ServedChallenge config job candidate s) :
    Triple Agrees (fun files => Ready job C files ∧ job ∈ files.queue)
      (consumeTranscript config view job candidate) (fun _ => Agrees) := by
  have hstop : ∀ files, Ready job C files ∧ job ∈ files.queue → Agrees files := fun _ h => h.1.agrees
  have hunreserved : candidate.action ≠ .challenge → ∀ files, Ready job C files →
      Unreserved job files := by
    intro hother files hready
    refine unreserved_of_other hready (fun found hfound => ?_)
    rw [hjob] at hfound
    exact Option.some.inj hfound ▸ hother
  unfold consumeTranscript
  cases haction : candidate.action with
  | retry =>
      simp only
      split
      · exact (triple_disposition (hunreserved (by simp [haction]))).weaken (fun _ h => h.1)
          (fun _ _ h => h)
      · exact Triple.pure hstop
  | none =>
      refine (triple_recordLast (hunreserved (by simp [haction])) ?_).weaken (fun _ h => h.1)
        (fun _ _ h => h)
      exact fun h => by cases h
  | quarantine =>
      refine (triple_recordLast (hunreserved (by simp [haction])) ?_).weaken (fun _ h => h.1)
        (fun _ _ h => h)
      exact fun h => by cases h
  | other => exact Triple.throw hstop
  | challenge =>
      refine Triple.observe_bind hstop (fun _ hmatches => ?_)
      refine Triple.observe_bind hstop (fun _ hlocked => ?_)
      refine triple_consumeChallenge hnew (triple_prepareChallenge hjob haction ?_ ?_)
      · intro s hs r hgate
        exact (hserved s hs haction).rejected r htranscript (observed hmatches) (observed hlocked) hgate
      · intro s hs bond hgate admission hadmission
        exact (hserved s hs haction).signing bond admission htranscript (observed hmatches)
          (observed hlocked) hgate hadmission

/-- A served pass over a job of the queue keeps the files in agreement, wherever it ends. -/
theorem triple_consumeCandidate :
    Triple Agrees (fun files => Agrees files ∧ job ∈ files.queue ∧ view.Served config job files.envelope)
      (consumeCandidate config view job) (fun _ => Agrees) := by
  have hstop : ∀ files, Agrees files ∧ job ∈ files.queue ∧ view.Served config job files.envelope →
      Agrees files := fun _ h => h.1
  unfold consumeCandidate
  split
  · exact Triple.pure hstop
  · rename_i hopen
    obtain ⟨horphaned, hdisposed⟩ : job.orphaned = false ∧ job.terminalDisposition = none := by
      simpa using hopen
    split
    · rename_i haction
      refine Triple.observe_bind hstop (fun _ hlocked => ?_)
      refine Triple.bind ?_ (fun _ => Triple.pure (fun _ h => h))
      by_cases hfinished : job.Finished
      · obtain ⟨action, hsome, hterminal⟩ := hfinished.resolve_left (by simp [hdisposed])
        exact triple_reconcileBroadcast_done hsome hterminal hstop
      · refine (triple_reconcileBroadcast (C := view.Served config job) ?_).weaken ?_ (fun _ _ h => h)
        · intro candidate hjob s hs
          exact (hs horphaned hdisposed candidate hjob).1 haction (observed hlocked)
        · rintro files ⟨hagrees, hmem, hserved⟩
          exact ⟨hagrees, ⟨job, hmem, rfl, rfl, hfinished⟩, hserved⟩
    · rename_i hnone
      have haction : job.action = none := by simpa using hnone
      have hlive : ¬ job.Finished := by
        rintro (h | ⟨action, hsome, -⟩)
        · exact h hdisposed
        · rw [haction] at hsome
          cases hsome
      have hready : ∀ files, Agrees files ∧ job ∈ files.queue ∧ view.Served config job files.envelope →
          Ready job (view.Served config job) files ∧ job ∈ files.queue := by
        rintro files ⟨hagrees, hmem, hserved⟩
        exact ⟨⟨hagrees, ⟨job, hmem, rfl, rfl, hlive⟩, hserved⟩, hmem⟩
      have hdisposition : (∀ files, Ready job (view.Served config job) files → Unreserved job files) →
          ∀ {reason detail verified}, Triple Agrees
            (fun files => Agrees files ∧ job ∈ files.queue ∧ view.Served config job files.envelope)
            (recordLocalDisposition job reason detail verified) (fun _ => Agrees) :=
        fun h _ _ _ => (triple_disposition h).weaken (fun _ hs => (hready _ hs).1) (fun _ _ h => h)
      split
      · rename_i htranscript
        split
        · refine hdisposition (fun files _ id hid => ?_)
          rw [Job.reservationId, Job.candidate, htranscript] at hid
          cases hid
        · exact Triple.pure hstop
      · rename_i found htranscript
        split
        · rename_i message hmessage
          refine hdisposition (fun files hr => ?_)
          by_cases hchallenge : ∃ candidate, job.candidate = some candidate ∧
              candidate.action = .challenge
          · obtain ⟨candidate, hjob, hchallenge⟩ := hchallenge
            have hserved := (hr.envelope horphaned hdisposed candidate hjob).2 haction hchallenge
            exact unreserved_of hjob (hserved.transcript message hmessage)
          · exact unreserved_of_other hr (fun candidate hjob h => hchallenge ⟨candidate, hjob, h⟩)
        · rename_i hok
          split
          · exact Triple.pure hstop
          · rename_i candidate
            have hjob : job.candidate = some candidate := by rw [Job.candidate, htranscript]; rfl
            refine (triple_consumeTranscript hjob haction hok ?_).weaken hready (fun _ _ h => h)
            intro s hs hchallenge
            exact (hs horphaned hdisposed candidate hjob).2 haction hchallenge

end Consume

/-! ### Runs -/

/-- No turn ends a job while its reservation stays: neither a pass nor an invalidation. -/
def Turn.Served (config : Config) (files : Files) : Turn → Prop
  | .consume jobId view _ => ∀ job, files.queue.find? (fun job => job.id = jobId) = some job →
      view.Served config job files.envelope
  | .deliver _ _ => True
  | .quarantine jobId _ => ∀ job, files.queue.find? (fun job => job.id = jobId) = some job →
      Unreserved job files

theorem plain_of_sha256 {id : String} (h : isSha256 id = true) : Plain id := by
  have hnames : ∀ name ∈ objectPrototypeNames ++ forbiddenKeys, isSha256 name = false := by decide
  refine ⟨fun hmem => ?_, fun hmem => ?_⟩
  · rw [hnames id (List.mem_append_left _ hmem)] at h
    cases h
  · rw [hnames id (List.mem_append_right _ hmem)] at h
    cases h

section Runs

variable {config : Config} {files files' : Files} {job : Job}

theorem agrees_init (h : (challenger config).init files) : Agrees files := by
  obtain ⟨hempty, hids, hnew⟩ := h
  have hnone : ∀ job ∈ files.queue, job.reservationId = none := by
    intro job hjob
    rw [Job.reservationId, Job.candidate, (hnew job hjob).1]
    rfl
  constructor
  case sound => exact hempty ▸ Envelope.sound_empty
  case ids => exact hids
  case plain =>
    intro job hjob id hid
    rw [hnone job hjob] at hid
    cases hid
  case own =>
    intro job hjob other _ id hid
    rw [hnone job hjob] at hid
    cases hid
  case pending =>
    rintro id ⟨row, hrow, -⟩
    rw [hempty] at hrow
    cases hrow
  case confirmed =>
    intro job hjob action haction
    rw [(hnew job hjob).2.1] at haction
    cases haction

theorem agrees_deliver (h : Agrees files) {outcome : Outcome} (hjob : job ∈ files.queue)
    (hrunnable : job.Runnable) (hfits : outcome.Fits job files.queue) :
    Agrees { files with queue := replaceJob (job.deliver outcome) files.queue } := by
  obtain ⟨hnone, -, hretry⟩ := hrunnable
  refine h.replace hjob (show (job.deliver outcome).id = job.id from rfl) ?_ ?_ ?_ ?_
  · intro id hid
    cases hcandidate : outcome.transcript.join with
    | none => simp [Job.reservationId, Job.candidate, Job.deliver, hcandidate] at hid
    | some candidate =>
        simp only [Outcome.Fits, hcandidate] at hfits
        obtain rfl : candidate.candidateHash = id := by
          simpa [Job.reservationId, Job.candidate, Job.deliver, hcandidate] using hid
        exact plain_of_sha256 hfits.1
  · intro other hother hne id hid
    cases hcandidate : outcome.transcript.join with
    | none => simp [Job.reservationId, Job.candidate, Job.deliver, hcandidate] at hid
    | some candidate =>
        simp only [Outcome.Fits, hcandidate] at hfits
        obtain rfl : candidate.candidateHash = id := by
          simpa [Job.reservationId, Job.candidate, Job.deliver, hcandidate] using hid
        exact hfits.2 other hother hne
  · -- only a job whose candidate asks for another run is run again
    rintro id - ⟨⟨candidate, hcandidate, hchallenge, -⟩, -⟩
    rw [hretry candidate hcandidate] at hchallenge
    cases hchallenge
  · intro action haction
    rw [Job.deliver, hnone] at haction
    cases haction

theorem agrees_step {turn : Turn} (h : Agrees files) (hserved : turn.Served config files)
    (hstep : (challenger config).step files turn = some files') : Agrees files' := by
  cases turn with
  | consume jobId view writes =>
      obtain ⟨job, hfind, rfl⟩ := Option.map_eq_some_iff.mp hstep
      exact triple_consumeCandidate.after
        ⟨h, List.mem_of_find?_eq_some hfind, hserved job hfind⟩ writes
  | deliver jobId outcome =>
      simp only [challenger] at hstep
      split at hstep
      · cases hstep
      · rename_i job hfind
        have hid : job.id = jobId := by simpa using List.find?_some hfind
        split at hstep
        · rename_i hallowed
          obtain rfl := Option.some.inj hstep
          have hjob := List.mem_of_find?_eq_some hfind
          subst hid
          rw [modifyFirst_eq_replaceJob (g := fun job => job.deliver outcome) h.ids hjob rfl]
          exact agrees_deliver h hjob hallowed.1 hallowed.2
        · cases hstep
  | quarantine jobId reason =>
      simp only [challenger] at hstep
      split at hstep
      · rename_i queue hrun
        obtain rfl := Option.some.inj hstep
        obtain ⟨job, hjob, hid, job', hquarantine, rfl⟩ :=
          updateJob_spec h.ids (fun _ _ => quarantine_id) hrun
        obtain ⟨hash, action, alert, hstatus, hframe⟩ := quarantine_spec hquarantine
        have haction : job'.action = some action := by rw [hframe]
        have hfree : Unreserved job files := hserved job (hid ▸ find?_eq_some h.ids hjob)
        refine h.queue hjob (quarantine_id hquarantine) (by rw [hframe]) (fun _ => hfree) ?_
        intro other hother hconfirmed
        rw [haction] at hother
        obtain rfl := Option.some.inj hother
        rw [hstatus] at hconfirmed
        cases hconfirmed
      · cases hstep

theorem agrees_of_reachable
    (h : (challenger config).Reachable (fun files turn => turn.Served config files) files) :
    Agrees files := by
  refine h.invariant ?_ ?_
  · exact fun s hs => agrees_init hs
  · exact fun s turn s' _ hs hserved hstep => agrees_step hs hserved hstep

/-- Over any run of served turns, cut off anywhere, a pending reservation belongs to a job that goes on,
a finished job has none pending, and that of a filed challenge is spent. -/
theorem envelope_and_queue
    (h : (challenger config).Reachable (fun files turn => turn.Served config files) files) :
    (∀ row ∈ files.envelope.pending, ∃ job ∈ files.queue,
      job.reservationId = some row.id ∧ ¬ job.Finished) ∧
    ∀ job ∈ files.queue,
      (job.Finished → ∀ id, job.reservationId = some id → ¬ Reserved id files.envelope.pending) ∧
      ∀ action, job.action = some action → action.status = .confirmed →
        ∃ id, job.reservationId = some id ∧ Spent id files.envelope := by
  have hagrees := agrees_of_reachable h
  refine ⟨fun row hrow => ?_, fun job hjob => ⟨fun hfinished id hid => ?_, ?_⟩⟩
  · obtain ⟨job, hjob, howns⟩ := hagrees.pending row.id ⟨row, hrow, rfl⟩
    exact ⟨job, hjob, howns.reservationId, howns.2⟩
  · exact hagrees.not_reserved hjob hid hfinished
  · exact hagrees.confirmed job hjob

end Runs

namespace Sample

def config : Config where
  chainId := 1
  problemId := "a11"
  submissionContract := "0x5b"
  challengeContract := "0xc4"
  finalityConfirmations := 2

def candidate : Candidate where
  candidateHash := "sha256:aaaaaaaaaaaaaaaaaaaaaaaaaaaaaaaaaaaaaaaaaaaaaaaaaaaaaaaaaaaaaaaa"
  reasonCode := "metric_overstated"
  chainId := 1
  problemId := "a11"
  submissionContract := "0x5b"
  challengeContract := "0xc4"
  sourceEventHash := "event"
  submissionId := 7
  revealInstanceHash := "0x01"
  challengeEndsAt := 100
  maxBondWei := 10 ^ 16

def revealed : Job where
  id := "job"
  sourceEventHash := "event"

def openView : SubmissionView := ⟨some 2, some "0x01", some (some 5)⟩

/-- The challenge is signed, and its transaction is known. -/
def filing : ConsumeView where
  submission := openView
  bond := some (10 ^ 15)
  admission := some { day := 1 }
  signed := some ⟨"journal", "0x07", "signed"⟩
  broadcast := { submission := openView, pending := some true }

/-- What a later pass finds of the transaction. -/
def following (broadcast : BroadcastView) : ConsumeView :=
  { filing with broadcast := broadcast }

/-- It is gone, and someone else has challenged the submission. -/
def overtaken : BroadcastView where
  submission := { openView with status := some 3 }

def outcome : Outcome := ⟨.failed, none, some (some candidate)⟩

def verified : Files where
  queue := [revealed.deliver outcome]

def filed : Files where
  envelope := { days := [(1, { reservations :=
    [{ id := candidate.candidateHash
       problemId := "a11"
       amountWei := 10 ^ 15
       actionIntent := .journalDurable "journal" "0x07" }] })] }
  queue := [{ revealed.deliver outcome with
    action := some ⟨candidate.candidateHash, .broadcast, some "0x07", some "signed"⟩ }]

/-- The challenge is verified and filed. -/
def turns : List Turn := [.deliver "job" outcome, .consume "job" filing 9]

theorem verified_step :
    (challenger config).step { queue := [revealed] } (.deliver "job" outcome) = some verified := by
  decide +kernel

theorem filed_step :
    (challenger config).step verified (.consume "job" filing 9) = some filed := by
  decide +kernel

end Sample

theorem envelope_and_queue_sample : Sample.filed.envelope.pending.length = 1 ∧
    ∀ row ∈ Sample.filed.envelope.pending, ∃ job ∈ Sample.filed.queue,
      job.reservationId = some row.id ∧ ¬ job.Finished := by
  have hreach : (challenger Sample.config).Reachable
      (fun files turn => turn.Served Sample.config files) Sample.filed := by
    refine ⟨{ queue := [Sample.revealed] }, Sample.turns, ⟨rfl, by simp, by decide⟩, ?_⟩
    refine .step trivial Sample.verified_step ?_
    refine .step ?_ Sample.filed_step (.refl _)
    rintro job - - - candidate -
    have hserved : ∀ s, Sample.filing.broadcast.Served 2 job candidate s := by
      refine fun s => ⟨?_, ?_⟩
      · rintro ⟨-, -, hpending, -⟩
        cases hpending
      · rintro ⟨-, receipt, hreceipt, -⟩
        cases hreceipt
    refine ⟨fun _ _ => hserved _, fun _ _ => ⟨?_, ?_, ?_⟩⟩
    · intro message hmessage
      cases hmessage
    · rintro rejection - - - - ⟨row, hrow, -⟩
      cases hrow
    · intro bond admission _ _ _ _ _ out _ _ _
      exact ⟨fun h => (by cases h), fun _ _ _ => hserved _⟩
  exact ⟨rfl, (envelope_and_queue hreach).1⟩

/-- Someone else challenges first: the pass records that the challenge is superseded, and its
reservation stays. -/
theorem superseded_keeps_reservation : ∃ files, (challenger Sample.config).Reachable Transition.Free files ∧
    ∃ job ∈ files.queue, job.Finished ∧
      ∃ id, job.reservationId = some id ∧ Reserved id files.envelope.pending := by
  let last : Turn := .consume "job" (Sample.following Sample.overtaken) 9
  have hstep : ((challenger Sample.config).step Sample.filed last).map (fun files =>
      (files.queue.map (fun job => (job.action.map Action.status, job.reservationId)),
        files.envelope.pending.map Row.id)) =
      some ([(some .superseded, some Sample.candidate.candidateHash)],
        [Sample.candidate.candidateHash]) := by
    decide +kernel
  obtain ⟨files, hlast, hfiles⟩ := Option.map_eq_some_iff.mp hstep
  obtain ⟨hqueue, hpending⟩ := Prod.mk.inj hfiles
  refine ⟨files, ⟨{ queue := [Sample.revealed] }, Sample.turns ++ [last],
    ⟨rfl, by simp, by decide⟩, ?_⟩, ?_⟩
  · refine .step trivial Sample.verified_step ?_
    refine .step trivial Sample.filed_step ?_
    exact .step trivial hlast (.refl _)
  · obtain ⟨job, hjob, hdone⟩ := List.mem_map.mp (hqueue ▸ List.mem_singleton_self
      (some ActionStatus.superseded, some Sample.candidate.candidateHash))
    obtain ⟨hstatus, hid⟩ := Prod.mk.inj hdone
    obtain ⟨action, haction, hsuperseded⟩ := Option.map_eq_some_iff.mp hstatus
    obtain ⟨row, hrow, hrid⟩ := List.mem_map.mp (hpending ▸ List.mem_singleton_self
      Sample.candidate.candidateHash)
    refine ⟨job, hjob, .inr ⟨action, haction, by rw [hsuperseded]; rfl⟩, _, hid, row, hrow, hrid⟩

end P42Prizes.Challenger
