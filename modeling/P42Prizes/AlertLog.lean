import P42Prizes.JsonText
import P42Prizes.LineLog
import P42Prizes.Passes
import P42Prizes.WalletNonce

/-! # The log of terminal alerts

A job of the runner that has come to an end raises an alert.  An attempt to deliver it runs under the
lock of the queue and that of the log: it appends the record of the alert to the log unless a line of it
is the record already, reads the log back, and only then writes into the queue that the alert is
delivered; when the log does not read back behind that write, the queue is written back.

A write to the log may take any part of what it is given, and an attempt may throw or be cut off between
any two of its writes.  A log is a file of bytes and the queue holds of a job what the delivery reads.
`Attempt` is what an attempt meets outside of both.  Left open is what the validation of a job asks of
its alert (`valid`), and which lines the strict JSON reader takes back to themselves (`readsBack`). -/

namespace P42Prizes.AlertLog

open JsonText LineLog Passes
open WalletNonce (modifyFirst)
export JsonText (Bytes)

/-! ### Records -/

/-- A Python string, by code points. -/
abbrev Text := List ℕ

def text (s : String) : Text := s.toList.map Char.toNat

/-- `\uXXXX` -/
def unicodeEscape (unit : ℕ) : Bytes :=
  [92, 117, hexDigit (unit / 4096 % 16), hexDigit (unit / 256 % 16), hexDigit (unit / 16 % 16),
    hexDigit (unit % 16)]

/-- A character as `json.dumps` writes it with `ensure_ascii`. -/
def escapeAscii (c : ℕ) : Bytes :=
  if c = 34 then [92, 34]
  else if c = 92 then [92, 92]
  else if c = 8 then [92, 98]
  else if c = 9 then [92, 116]
  else if c = 10 then [92, 110]
  else if c = 12 then [92, 102]
  else if c = 13 then [92, 114]
  else if 32 ≤ c ∧ c ≤ 126 then [UInt8.ofNat c]
  else if c < 65536 then unicodeEscape c
  else unicodeEscape (0xd800 + (c - 65536) / 1024 % 1024) ++ unicodeEscape (0xdc00 + (c - 65536) % 1024)

def quoteAscii (s : Text) : Bytes := 34 :: (s.flatMap escapeAscii ++ [34])

def member (field : Text × Text) : Bytes := quoteAscii field.1 ++ 58 :: quoteAscii field.2

/-- `canonical_json`, of an object whose values are strings. -/
def canonicalJson (fields : List (Text × Text)) : Bytes :=
  123 :: ((((fields.insertionSort (fun a b => a.1 ≤ b.1)).map member).intersperse [44]).flatten ++ [125])

/-- What the alert is about: how the job was disposed of, or the action that has ended. -/
inductive Subject where
  | disposition (dispositionHash : Text)
  | action (sourceEventHash candidateHash actionStatus actionHash : Text)
deriving DecidableEq, Repr

/-- The fields of an alert that its record is made of. -/
structure Identity where
  subject : Subject
  jobId : Text
  message : Text
  createdAtUtc : Text
  alertId : Text
deriving DecidableEq, Repr

/-- `_terminal_alert_record` -/
def terminalAlertRecord (a : Identity) : List (Text × Text) :=
  match a.subject with
  | .action sourceEventHash candidateHash actionStatus actionHash =>
      [(text "schema_version", text "p42-runner-action-alert/v1"),
        (text "job_id", a.jobId),
        (text "source_event_hash", sourceEventHash),
        (text "candidate_hash", candidateHash),
        (text "action_status", actionStatus),
        (text "action_hash", actionHash),
        (text "message", a.message),
        (text "created_at_utc", a.createdAtUtc),
        (text "alert_id", a.alertId)]
  | .disposition dispositionHash =>
      [(text "schema_version", text "p42-runner-terminal-alert/v1"),
        (text "job_id", a.jobId),
        (text "disposition_hash", dispositionHash),
        (text "message", a.message),
        (text "created_at_utc", a.createdAtUtc),
        (text "alert_id", a.alertId)]

/-- The canonical record of an alert. -/
def Identity.record (a : Identity) : Bytes := canonicalJson (terminalAlertRecord a)

/-! ### The queue -/

inductive AlertStatus where
  | pending | delivered
deriving DecidableEq, Repr

structure DeliveryProof where
  logName : Text
  logDevice : ℕ
  logInode : ℕ
  recordHash : Text
deriving DecidableEq, Repr

/-- An alert in the queue.  Alerts of earlier versions have no field for a proof. -/
structure Alert extends Identity where
  status : AlertStatus := .pending
  deliveredAtUtc : Option Text := none
  deliveryProof : Option (Option DeliveryProof) := some none
deriving DecidableEq, Repr

/-- What the delivery reads of a job; `disposed` says that it has a terminal disposition. -/
structure Job where
  jobId : Text
  disposed : Bool
  terminalAlert : Option Alert := none
  actionAlert : Option Alert := none
deriving DecidableEq, Repr

def Job.alerts (job : Job) : List Alert := job.terminalAlert.toList ++ job.actionAlert.toList

structure State where
  log : Bytes
  queue : List Job
deriving DecidableEq, Repr

/-- `_migrate_unproven_terminal_alerts`, of one alert. -/
def Alert.migrate (alert : Alert) : Alert :=
  if alert.deliveryProof ≠ none then alert
  else if alert.status = .delivered then
    { alert with deliveryProof := some none, status := .pending, deliveredAtUtc := none }
  else { alert with deliveryProof := some none }

def Job.migrate (job : Job) : Job :=
  { job with
    terminalAlert := job.terminalAlert.map Alert.migrate
    actionAlert := job.actionAlert.map Alert.migrate }

inductive AlertError where
  | jobId | queueUnavailable | jobNotFound | noAlert | alertInvalid | logUnavailable | logTooLarge
  | recordTooLarge | noProgress | notSynced | logChanged | notDurable | alertChanged | queueUnwritten
deriving DecidableEq, Repr

/-- What an attempt meets: the job it is for, what the operating system does, and the number of writes
before it is cut off.  `missing` is the alert that is built for a job whose ended action has none,
`archived` the jobs whose archive is there; `writes` are the bytes that each write to the log takes,
`stable` says which of the four checks find the files that were opened. -/
structure Attempt where
  jobId : Text
  queueOpens : Bool
  missing : Job → Option Identity
  archived : Job → Bool
  logOpens : Bool
  logDevice : ℕ
  logInode : ℕ
  writes : List ℕ
  synced : Bool
  stable : ℕ → Bool
  deliveredAtUtc : Text
  encodes : Bool
  replaced : Bool
  restores : Bool
  restored : Bool
  granted : ℕ

/-- `_migrate_legacy_action_alerts`, of one job. -/
def Attempt.withAlert (a : Attempt) (job : Job) : Job :=
  match a.missing job with
  | some identity =>
      if job.disposed = true ∨ job.actionAlert ≠ none then job
      else { job with actionAlert := some { toIdentity := identity } }
  | none => job

/-- The queue as `_locked_runner_queue_process` hands it out. -/
def Attempt.opened (a : Attempt) (queue : List Job) : List Job :=
  (queue.map (fun job => (a.withAlert job).migrate)).filter (fun job => !a.archived job)

def logMaxBytes : ℕ := 64 * 1024 * 1024

def recordMaxBytes : ℕ := 64 * 1024

/-! ### An attempt -/

section Attempts

variable (valid : Job → Alert → Bool) (readsBack : Bytes → Bool) (sha256 : Bytes → Text) (logName : Text)

abbrev Attempting (α : Type) : Type := Pass State AlertError α

/-- `_validated_job_terminal_alert` -/
def validatedJobTerminalAlert (job : Job) : Except AlertError Alert :=
  match if job.disposed then job.terminalAlert else job.actionAlert with
  | some alert => if valid job alert then .ok alert else .error .alertInvalid
  | none => .error .noAlert

/-- `_alert_log_has_exact_record` -/
def alertLogHasExactRecord (payload record : Bytes) : Bool :=
  (lines 10 payload).any (fun line => line = record && readsBack line)

/-- `_write_all_descriptor` -/
def writeAllDescriptor : List ℕ → Bytes → Attempting Unit
  | _, [] => pure ()
  | [], _ :: _ => .throw .noProgress
  | n :: sizes, b :: rest =>
      if n = 0 ∨ rest.length + 1 < n then .throw .noProgress
      else do
        Pass.write (fun s => (.ok (), { s with log := s.log ++ (b :: rest).take n }))
        writeAllDescriptor sizes ((b :: rest).drop n)

/-- What is appended to a log without the record. -/
def payload (existing record : Bytes) : Bytes :=
  if tail 10 existing = record then [10]
  else (if existing ≠ [] ∧ existing.getLast? ≠ some 10 then [10] else []) ++ record ++ [10]

/-- `verify_locked_log` -/
def verifyLockedLog (stable : Bool) (record : Bytes) : Attempting Unit := do
  Pass.observe .logChanged (if stable then some () else none)
  let s ← Pass.get
  if logMaxBytes < s.log.length then Pass.throw .logTooLarge
  else if alertLogHasExactRecord readsBack s.log record then pure ()
  else Pass.throw .notDurable

/-- What `_append_terminal_alert_record` does up to the first check; whether it has appended. -/
def appendRecord (a : Attempt) (record : Bytes) : Attempting Bool := do
  Pass.observe .logUnavailable (if a.logOpens then some () else none)
  let s ← Pass.get
  if logMaxBytes < s.log.length then Pass.throw .logTooLarge
  else if recordMaxBytes < record.length then Pass.throw .recordTooLarge
  else if alertLogHasExactRecord readsBack s.log record then do
    Pass.observe .notSynced (if a.synced then some () else none)
    pure false
  else if logMaxBytes < s.log.length + (payload s.log record).length then Pass.throw .logTooLarge
  else do
    writeAllDescriptor a.writes (payload s.log record)
    Pass.observe .notSynced (if a.synced then some () else none)
    pure true

/-- `_write_queue_file_at`; the directory is synced behind the replacement. -/
def writeQueueFileAt (encodes synced : Bool) (queue : List Job) : Attempting Unit := do
  Pass.observe .queueUnwritten (if encodes then some () else none)
  Pass.write (fun s => (if synced then .ok () else .error .queueUnwritten, { s with queue := queue }))

/-- `_LockedRunnerQueueTransaction.commit` -/
def commit (a : Attempt) (original queue : List Job) (beforeCommit afterCommit : Attempting Unit) :
    Attempting Unit :=
  if queue = original then do
    beforeCommit
    afterCommit
  else do
    beforeCommit
    writeQueueFileAt a.encodes a.replaced queue
    afterCommit.onThrow (writeQueueFileAt a.restores a.restored original)

/-- A pending alert once it is delivered. -/
def Alert.deliver (a : Attempt) (alert : Alert) : Alert :=
  { alert with
    status := .delivered
    deliveredAtUtc := some a.deliveredAtUtc
    deliveryProof := some (some
      { logName := logName
        logDevice := a.logDevice
        logInode := a.logInode
        recordHash := sha256 alert.record }) }

/-- The job whose alert is `alert`. -/
def Job.setAlert (job : Job) (alert : Alert) : Job :=
  if job.disposed then { job with terminalAlert := some alert }
  else { job with actionAlert := some alert }

/-- The job as the commit leaves it. -/
def Job.delivered (a : Attempt) (job : Job) (current : Alert) : Job :=
  if current.status = .pending then job.setAlert (current.deliver sha256 logName a) else job

/-- What an attempt returns. -/
structure Result where
  created : Bool
  delivered : Bool
  record : Bytes
  alert : Alert
deriving DecidableEq, Repr

/-- `reconcile_runner_terminal_alert` -/
def reconcileRunnerTerminalAlert (a : Attempt) : Attempting Result :=
  if a.jobId = [] then Pass.throw .jobId
  else do
    Pass.observe .queueUnavailable (if a.queueOpens then some () else none)
    let s ← Pass.get
    let job ← Pass.observe .jobNotFound
      ((a.opened s.queue).find? (fun job => decide (job.jobId = a.jobId)))
    let alert ← Pass.ofExcept (validatedJobTerminalAlert valid job)
    let created ← appendRecord readsBack a alert.record
    verifyLockedLog readsBack (a.stable 0) alert.record
    let current ← Pass.ofExcept (validatedJobTerminalAlert valid job)
    Pass.observe .alertChanged (if current.alertId = alert.alertId then some () else none)
    let after := job.delivered sha256 logName a current
    commit a s.queue
      (modifyFirst (fun job => decide (job.jobId = a.jobId)) (fun _ => after) (a.opened s.queue))
      (verifyLockedLog readsBack (a.stable 1) alert.record)
      (verifyLockedLog readsBack (a.stable 2) alert.record)
    verifyLockedLog readsBack (a.stable 3) alert.record
    let final ← Pass.ofExcept (validatedJobTerminalAlert valid after)
    pure
      { created := created
        delivered := decide (current.status = .pending)
        record := alert.record
        alert := final }

/-- The state that an attempt leaves behind. -/
def Attempt.left (a : Attempt) (s : State) : State :=
  (reconcileRunnerTerminalAlert valid readsBack sha256 logName a).after s a.granted

/-- How an attempt ends. -/
def Attempt.result (a : Attempt) (s : State) : Except (Stop AlertError) Result :=
  (reconcileRunnerTerminalAlert valid readsBack sha256 logName a (s, a.granted)).1

/-- The state behind a sequence of attempts. -/
def run (attempts : List Attempt) (s : State) : State :=
  attempts.foldl (fun s a => a.left valid readsBack sha256 logName s) s

end Attempts

/-! ### Records are lines of their own -/

/-- Where a reader of a record stands. -/
inductive Scan where
  | between | within | escaped | closed | beyond
deriving DecidableEq

def scan : Scan → UInt8 → Scan
  | .between, b => if b = 34 then .within else if b = 125 then .closed else .between
  | .within, b => if b = 34 then .between else if b = 92 then .escaped else .within
  | .escaped, _ => .within
  | .closed, _ => .beyond
  | .beyond, _ => .beyond

theorem scan_beyond (t : Bytes) : t.foldl scan .beyond = .beyond := by
  induction t with
  | nil => rfl
  | cons b t ih => exact ih

theorem hexDigit_scan (n : ℕ) (h : n < 16) : scan .within (hexDigit n) = .within ∧ hexDigit n ≠ 10 := by
  interval_cases n <;> decide

/-- The escape of a character stays within its string and has no newline. -/
theorem escapeAscii_scan (c : ℕ) : (escapeAscii c).foldl scan .within = .within ∧ 10 ∉ escapeAscii c := by
  have hunit : ∀ u, (unicodeEscape u).foldl scan .within = .within ∧ 10 ∉ unicodeEscape u := by
    intro u
    have h1 := hexDigit_scan (u / 4096 % 16) (Nat.mod_lt _ (by decide))
    have h2 := hexDigit_scan (u / 256 % 16) (Nat.mod_lt _ (by decide))
    have h3 := hexDigit_scan (u / 16 % 16) (Nat.mod_lt _ (by decide))
    have h4 := hexDigit_scan (u % 16) (Nat.mod_lt _ (by decide))
    constructor
    · simp only [unicodeEscape, List.foldl_cons, List.foldl_nil,
        show scan .within 92 = .escaped from rfl, show scan .escaped 117 = .within from rfl, h1.1, h2.1,
        h3.1, h4.1]
    · simp only [unicodeEscape, List.mem_cons, List.not_mem_nil, or_false, not_or]
      exact ⟨by decide, by decide, h1.2.symm, h2.2.symm, h3.2.symm, h4.2.symm⟩
  by_cases hplain : 32 ≤ c ∧ c ≤ 126
  · obtain ⟨hlow, hhigh⟩ := hplain
    interval_cases c <;> decide
  · by_cases hshort : c ∈ [8, 9, 10, 12, 13]
    · simp only [List.mem_cons, List.not_mem_nil, or_false] at hshort
      rcases hshort with rfl | rfl | rfl | rfl | rfl <;> decide
    · simp only [List.mem_cons, List.not_mem_nil, or_false, not_or] at hshort
      obtain ⟨h8, h9, h10, h12, h13⟩ := hshort
      have h34 : c ≠ 34 := by omega
      have h92 : c ≠ 92 := by omega
      simp only [escapeAscii, if_neg h34, if_neg h92, if_neg h8, if_neg h9, if_neg h10, if_neg h12,
        if_neg h13, if_neg hplain]
      split
      · exact hunit c
      · rw [List.foldl_append, (hunit _).1, (hunit _).1, List.mem_append, not_or]
        exact ⟨rfl, (hunit _).2, (hunit _).2⟩

theorem quoteAscii_scan (s : Text) : (quoteAscii s).foldl scan .between = .between ∧ 10 ∉ quoteAscii s := by
  have hbody : (s.flatMap escapeAscii).foldl scan .within = .within ∧ 10 ∉ s.flatMap escapeAscii := by
    induction s with
    | nil => exact ⟨rfl, List.not_mem_nil⟩
    | cons c s ih =>
        rw [List.flatMap_cons, List.foldl_append, (escapeAscii_scan c).1, List.mem_append, not_or]
        exact ⟨ih.1, (escapeAscii_scan c).2, ih.2⟩
  constructor
  · rw [quoteAscii, List.foldl_cons, List.foldl_append, show scan .between 34 = .within from rfl, hbody.1]
    rfl
  · simp only [quoteAscii, List.mem_cons, List.mem_append, List.not_mem_nil, or_false, not_or]
    exact ⟨by decide, hbody.2, by decide⟩

theorem member_scan (field : Text × Text) :
    (member field).foldl scan .between = .between ∧ 10 ∉ member field := by
  obtain ⟨hkey, hkeys⟩ := quoteAscii_scan field.1
  obtain ⟨hvalue, hvalues⟩ := quoteAscii_scan field.2
  constructor
  · rw [member, List.foldl_append, hkey, List.foldl_cons, show scan .between 58 = .between from rfl, hvalue]
  · rw [member, List.mem_append, List.mem_cons, not_or, not_or]
    exact ⟨hkeys, by decide, hvalues⟩

theorem members_scan (fields : List (Text × Text)) :
    (((fields.map member).intersperse [44]).flatten).foldl scan .between = .between ∧
      10 ∉ ((fields.map member).intersperse [44]).flatten := by
  induction fields with
  | nil => exact ⟨rfl, List.not_mem_nil⟩
  | cons field fields ih =>
      obtain ⟨hfield, hmem⟩ := member_scan field
      cases fields with
      | nil =>
          rw [List.map_singleton, List.intersperse_singleton, List.flatten_singleton]
          exact ⟨hfield, hmem⟩
      | cons next rest =>
          rw [List.map_cons, List.map_cons, List.intersperse_cons_cons, List.flatten_cons,
            List.flatten_cons, List.foldl_append, List.foldl_append, hfield, List.mem_append,
            List.mem_append, not_or, not_or]
          exact ⟨ih.1, hmem, by decide, ih.2⟩

/-- A record is read as closed at its last byte, and it has no newline. -/
theorem record_scan (a : Identity) : a.record.foldl scan .between = .closed ∧ 10 ∉ a.record := by
  obtain ⟨hscan, hmem⟩ := members_scan ((terminalAlertRecord a).insertionSort (fun a b => a.1 ≤ b.1))
  constructor
  · rw [Identity.record, canonicalJson, List.foldl_cons, List.foldl_append,
      show scan .between 123 = .between from rfl, hscan]
    rfl
  · simp only [Identity.record, canonicalJson, List.mem_cons, List.mem_append, List.not_mem_nil,
      or_false, not_or]
    exact ⟨by decide, hmem, by decide⟩

theorem record_ne_nil (a : Identity) : a.record ≠ [] := List.cons_ne_nil _ _

/-- No record begins with another one. -/
theorem record_apart {a b : Identity} (h : a.record <+: b.record) : a.record = b.record := by
  obtain ⟨t, ht⟩ := h
  cases t with
  | nil => rw [← ht, List.append_nil]
  | cons byte t =>
      have hscan := (record_scan b).1
      rw [← ht, List.foldl_append, (record_scan a).1, List.foldl_cons, show scan .closed byte = .beyond from rfl,
        scan_beyond] at hscan
      cases hscan

theorem payload_eq_ending (existing record : Bytes) :
    payload existing record = ending 10 record existing := by
  have hends : tail 10 existing = [] ↔ existing = [] ∨ existing.getLast? = some 10 := tail_eq_nil
  unfold payload ending
  by_cases htail : tail 10 existing = []
  · rw [if_neg (by tauto : ¬ (existing ≠ [] ∧ existing.getLast? ≠ some 10)), if_pos htail]
  · rw [if_pos (by tauto : existing ≠ [] ∧ existing.getLast? ≠ some 10), if_neg htail]

/-! ### What an attempt leaves behind -/

/-- The queue says of the alert with a record that it is delivered. -/
def Delivered (queue : List Job) (record : Bytes) : Prop :=
  ∃ job ∈ queue, ∃ alert ∈ job.alerts, alert.status = .delivered ∧ alert.record = record

section Laws

variable (valid : Job → Alert → Bool) (readsBack : Bytes → Bool) (sha256 : Bytes → Text) (logName : Text)

/-- A log that attempts have gone on with. -/
structure Grown (before after : Bytes) : Prop where
  lines : lines 10 before <+: lines 10 after
  copies : ∀ a : Identity, readsBack a.record = true →
    copies 10 a.record after ≤ max 1 (copies 10 a.record before)

/-- A state that attempts have come to from another. -/
structure Kept (s t : State) : Prop where
  grown : Grown readsBack s.log t.log
  delivered : ∀ record, Delivered t.queue record → record ∈ lines 10 t.log ∨ Delivered s.queue record

/-- The log has the record as a line, and the strict reader takes it back. -/
def Holds (record : Bytes) (s : State) : Prop := record ∈ lines 10 s.log ∧ readsBack record = true

variable {valid readsBack sha256 logName} {s t u : State} {a : Attempt}

theorem Grown.refl (log : Bytes) : Grown readsBack log log where
  lines := List.prefix_rfl
  copies _ _ := le_max_right _ _

theorem Grown.trans {log log' log'' : Bytes} (h : Grown readsBack log log')
    (h' : Grown readsBack log' log'') : Grown readsBack log log'' where
  lines := h.lines.trans h'.lines
  copies a ha := by
    have := h.copies a ha
    have := h'.copies a ha
    omega

theorem Kept.refl (s : State) : Kept readsBack s s where
  grown := Grown.refl s.log
  delivered _ h := .inr h

theorem Kept.trans (h : Kept readsBack s t) (h' : Kept readsBack t u) : Kept readsBack s u where
  grown := h.grown.trans h'.grown
  delivered record hu := by
    rcases h'.delivered record hu with hline | ht
    · exact .inl hline
    · exact (h.delivered record ht).imp_left (fun hline => h'.grown.lines.subset hline)

theorem hasExactRecord_iff {log record : Bytes} :
    alertLogHasExactRecord readsBack log record = true ↔
      record ∈ lines 10 log ∧ readsBack record = true := by
  simp [alertLogHasExactRecord, List.any_eq_true]

/-- However much of its payload has been written, a log has only grown. -/
theorem grown_payload {log : Bytes} {alert : Identity} (n : ℕ)
    (hnew : alertLogHasExactRecord readsBack log alert.record = false) :
    Grown readsBack log (log ++ (payload log alert.record).take n) where
  lines := lines_prefix log _
  copies other hother := by
    rw [payload_eq_ending]
    refine copies_ending_take (record_scan alert).2 (record_ne_nil other) ?_ record_apart
    intro hself hline
    have hexact := hasExactRecord_iff.mpr ⟨hline, hself ▸ hother⟩
    rw [hnew] at hexact
    cases hexact

/-! ### The parts of an attempt -/

/-- The log has grown, and the queue is the one it was. -/
def Appending (readsBack : Bytes → Bool) (s t : State) : Prop :=
  t.queue = s.queue ∧ Grown readsBack s.log t.log

theorem Appending.kept (h : Appending readsBack s t) : Kept readsBack s t where
  grown := h.2
  delivered _ ht := .inr (h.1 ▸ ht)

/-- What is written behind `done` is the rest, or a part of it. -/
theorem writeAllDescriptor_triple {whole : Bytes} (sizes : List ℕ) (done rest : Bytes)
    (hwhole : whole = done ++ rest) :
    Triple (fun t => ∃ n, t = ⟨s.log ++ whole.take n, s.queue⟩)
      (fun t => t = ⟨s.log ++ done, s.queue⟩) (writeAllDescriptor sizes rest)
      (fun _ t => t = ⟨s.log ++ whole, s.queue⟩) := by
  have hpart : ∀ {done rest : Bytes}, whole = done ++ rest → ∀ t : State,
      t = ⟨s.log ++ done, s.queue⟩ → ∃ n, t = ⟨s.log ++ whole.take n, s.queue⟩ := by
    rintro done rest rfl t rfl
    exact ⟨done.length, by rw [List.take_left]⟩
  induction sizes generalizing done rest with
  | nil =>
      cases rest with
      | nil =>
          rw [List.append_nil] at hwhole
          subst hwhole
          exact .pure (fun _ h => h)
      | cons b rest => exact .throw (hpart hwhole)
  | cons n sizes ih =>
      cases rest with
      | nil =>
          rw [List.append_nil] at hwhole
          subst hwhole
          exact .pure (fun _ h => h)
      | cons b rest =>
          unfold writeAllDescriptor
          split
          · exact .throw (hpart hwhole)
          · refine .bind (Q := fun _ t => t = ⟨s.log ++ (done ++ (b :: rest).take n), s.queue⟩)
              (.write (hpart hwhole) ?_) (fun _ => ih _ _ ?_)
            · rintro t rfl
              rw [← List.append_assoc]
            · rw [List.append_assoc, List.take_append_drop]
              exact hwhole

theorem verifyLockedLog_triple {I P : State → Prop} {record : Bytes} (stable : Bool)
    (hI : ∀ t, P t → I t) :
    Triple I P (verifyLockedLog readsBack stable record) (fun _ t => P t ∧ Holds readsBack record t) := by
  refine .observe_bind hI (fun _ _ => ?_)
  refine .bind (Q := fun r t => r = t ∧ P t) (.get (fun t ht => ⟨rfl, ht⟩)) (fun r => ?_)
  split
  · exact .throw (fun t ht => hI t ht.2)
  · split
    · next hexact =>
        refine .pure ?_
        rintro t ⟨rfl, ht⟩
        exact ⟨ht, hasExactRecord_iff.mp hexact⟩
    · exact .throw (fun t ht => hI t ht.2)

theorem appendRecord_triple (alert : Identity) :
    Triple (Appending readsBack s) (fun t => t = s) (appendRecord readsBack a alert.record)
      (fun _ => Appending readsBack s) := by
  have hstart : ∀ t, t = s → Appending readsBack s t := by
    rintro t rfl
    exact ⟨rfl, Grown.refl _⟩
  refine .observe_bind hstart (fun _ _ => ?_)
  refine .bind (Q := fun r t => r = t ∧ t = s) (.get (fun t ht => ⟨rfl, ht⟩)) (fun r => ?_)
  split
  · exact .throw (fun t ht => hstart t ht.2)
  split
  · exact .throw (fun t ht => hstart t ht.2)
  split
  · exact .observe_bind (fun t ht => hstart t ht.2) (fun _ _ => .pure (fun t ht => hstart t ht.2))
  split
  · exact .throw (fun t ht => hstart t ht.2)
  next hnew _ =>
    by_cases hr : r = s
    · subst hr
      have hgrown : ∀ n, Grown readsBack r.log (r.log ++ (payload r.log alert.record).take n) :=
        fun n => grown_payload n (Bool.eq_false_iff.mpr hnew)
      have hwritten : ∀ t : State, (∃ n, t = ⟨r.log ++ (payload r.log alert.record).take n, r.queue⟩) →
          Appending readsBack r t := by
        rintro t ⟨n, rfl⟩
        exact ⟨rfl, hgrown n⟩
      have hall : ∀ t : State, t = ⟨r.log ++ payload r.log alert.record, r.queue⟩ →
          Appending readsBack r t := by
        rintro t rfl
        exact hwritten _ ⟨(payload r.log alert.record).length, by rw [List.take_length]⟩
      refine .bind (Q := fun _ t => t = ⟨r.log ++ payload r.log alert.record, r.queue⟩) ?_ (fun _ => ?_)
      · refine ((writeAllDescriptor_triple a.writes [] _ rfl).mono hwritten).weaken ?_ (fun _ _ h => h)
        rintro t ⟨rfl, -⟩
        rw [List.append_nil]
      · exact .observe_bind hall (fun _ _ => .pure hall)
    · intro t n ht
      exact absurd (ht.1.trans ht.2) hr

/-! ### The queue that is written -/

theorem migrate_delivered {alert : Alert} (h : alert.migrate.status = .delivered) :
    alert.migrate = alert := by
  by_cases hproof : alert.deliveryProof ≠ none
  · rw [Alert.migrate, if_pos hproof]
  · exfalso
    rw [Alert.migrate, if_neg hproof] at h
    by_cases hstatus : alert.status = .delivered
    · rw [if_pos hstatus] at h
      cases h
    · rw [if_neg hstatus] at h
      exact hstatus h

/-- What is delivered of a job that an attempt is handed was so in the queue. -/
theorem delivered_of_opened {job : Job} {alert : Alert} (hjob : job ∈ a.opened s.queue)
    (halert : alert ∈ job.alerts) (hdone : alert.status = .delivered) :
    Delivered s.queue alert.record := by
  obtain ⟨original, horiginal, rfl⟩ := List.mem_map.mp (List.mem_filter.mp hjob).1
  have hbefore : ∃ before ∈ (a.withAlert original).alerts, before.migrate = alert := by
    simp only [Job.alerts, Job.migrate, List.mem_append, Option.mem_toList,
      Option.map_eq_some_iff] at halert ⊢
    rcases halert with ⟨before, hbefore, h⟩ | ⟨before, hbefore, h⟩
    · exact ⟨before, .inl hbefore, h⟩
    · exact ⟨before, .inr hbefore, h⟩
  obtain ⟨before, hmem, rfl⟩ := hbefore
  have hsame := migrate_delivered hdone
  rw [hsame] at hdone ⊢
  refine ⟨original, horiginal, before, ?_, hdone, rfl⟩
  unfold Attempt.withAlert at hmem
  split at hmem
  · next identity =>
      split at hmem
      · exact hmem
      · simp only [Job.alerts, List.mem_append, Option.mem_toList,
          Option.some.injEq] at hmem ⊢
        rcases hmem with hmem | rfl
        · exact .inl hmem
        · cases hdone
  · exact hmem

theorem mem_modifyFirst {α : Type} {p : α → Bool} {f : α → α} {l : List α} {x : α}
    (h : x ∈ modifyFirst p f l) : x ∈ l ∨ ∃ y ∈ l, x = f y := by
  induction l with
  | nil => exact .inl h
  | cons y l ih =>
      unfold modifyFirst at h
      split at h
      · rcases List.mem_cons.mp h with rfl | h
        · exact .inr ⟨y, List.mem_cons_self, rfl⟩
        · exact .inl (List.mem_cons_of_mem y h)
      · rcases List.mem_cons.mp h with rfl | h
        · exact .inl List.mem_cons_self
        · rcases ih h with h | ⟨z, hz, h⟩
          · exact .inl (List.mem_cons_of_mem y h)
          · exact .inr ⟨z, List.mem_cons_of_mem y hz, h⟩

/-- The alert of a job that passes its validation. -/
theorem validated_eq {job : Job} {alert : Alert} (h : validatedJobTerminalAlert valid job = .ok alert) :
    (if job.disposed then job.terminalAlert else job.actionAlert) = some alert := by
  unfold validatedJobTerminalAlert at h
  split at h
  · next found hfound =>
      split at h
      · rw [hfound, Except.ok.inj h]
      · cases h
  · cases h

theorem validated_setAlert {job : Job} {alert final : Alert}
    (h : validatedJobTerminalAlert valid (job.setAlert alert) = .ok final) : final = alert := by
  have hfinal := validated_eq h
  unfold Job.setAlert at hfinal
  cases hdisposed : job.disposed
  · simp only [hdisposed] at hfinal
    exact (Option.some.inj hfinal).symm
  · simp only [hdisposed] at hfinal
    exact (Option.some.inj hfinal).symm

/-- The alert of the job that is written is the delivered one. -/
theorem validated_delivered {job : Job} {current final : Alert}
    (h : validatedJobTerminalAlert valid job = .ok current)
    (hfinal : validatedJobTerminalAlert valid (job.delivered sha256 logName a current) = .ok final) :
    final.record = current.record ∧ final.status = .delivered := by
  unfold Job.delivered at hfinal
  split at hfinal
  · rw [validated_setAlert hfinal]
    exact ⟨rfl, rfl⟩
  · next hstatus =>
      obtain rfl := Except.ok.inj (h.symm.trans hfinal)
      refine ⟨rfl, ?_⟩
      cases hcurrent : current.status
      · exact absurd hcurrent hstatus
      · rfl

theorem mem_alerts_setAlert {job : Job} {alert other : Alert}
    (h : other ∈ (job.setAlert alert).alerts) : other ∈ job.alerts ∨ other = alert := by
  unfold Job.setAlert at h
  split at h <;> simp only [Job.alerts, List.mem_append, Option.mem_toList,
    Option.some.injEq] at h ⊢ <;> tauto

/-- The queue that an attempt writes says of no alert but its own that it is delivered, if the queue
before did not. -/
theorem delivered_of_written {job : Job} {current : Alert} {record : Bytes}
    (hjob : job ∈ a.opened s.queue)
    (h : Delivered (modifyFirst (fun job => decide (job.jobId = a.jobId))
      (fun _ => job.delivered sha256 logName a current) (a.opened s.queue)) record) :
    Delivered s.queue record ∨ record = current.record := by
  obtain ⟨written, hwritten, alert, halert, hdone, rfl⟩ := h
  rcases mem_modifyFirst hwritten with hold | ⟨-, -, rfl⟩
  · exact .inl (delivered_of_opened hold halert hdone)
  · unfold Job.delivered at halert
    split at halert
    · rcases mem_alerts_setAlert halert with halert | rfl
      · exact .inl (delivered_of_opened hjob halert hdone)
      · exact .inr rfl
    · exact .inl (delivered_of_opened hjob halert hdone)

/-! ### Whole attempts -/

/-- The commit leaves a queue behind that says delivered of what is a line of the log. -/
theorem commit_triple {queue : List Job} {record : Bytes}
    (hqueue : ∀ other, Delivered queue other → Delivered s.queue other ∨ other = record) :
    Triple (Kept readsBack s) (fun t => Appending readsBack s t ∧ Holds readsBack record t)
      (commit a s.queue queue (verifyLockedLog readsBack (a.stable 1) record)
        (verifyLockedLog readsBack (a.stable 2) record))
      (fun _ => Kept readsBack s) := by
  have hkept : ∀ t, (Appending readsBack s t ∧ Holds readsBack record t) → Kept readsBack s t :=
    fun t ht => ht.1.kept
  have hwritten : ∀ t, (t.queue = queue ∧ Grown readsBack s.log t.log ∧ Holds readsBack record t) →
      Kept readsBack s t := by
    rintro t ⟨rfl, hgrown, hholds⟩
    refine ⟨hgrown, fun other hother => ?_⟩
    rcases hqueue other hother with hbefore | rfl
    · exact .inr hbefore
    · exact .inl hholds.1
  unfold commit
  split
  · refine .bind (verifyLockedLog_triple _ hkept) (fun _ => ?_)
    refine (verifyLockedLog_triple _ fun t ht => hkept t ht.1).weaken (fun _ h => h) ?_
    exact fun _ t ht => hkept t ht.1.1
  · refine .bind (verifyLockedLog_triple _ hkept) (fun _ => ?_)
    refine .bind (Q := fun _ t => t.queue = queue ∧ Grown readsBack s.log t.log ∧
      Holds readsBack record t) ?_ (fun _ => ?_)
    · refine .observe_bind (fun t ht => hkept t ht.1) (fun _ _ => .write (fun t ht => hkept t ht.1) ?_)
      rintro t ⟨⟨⟨-, hgrown⟩, hholds⟩, -⟩
      have hnext : (fun u : State => u.queue = queue ∧ Grown readsBack s.log u.log ∧
          Holds readsBack record u) { t with queue := queue } := ⟨rfl, hgrown, hholds⟩
      cases a.replaced
      · exact hwritten _ hnext
      · exact hnext
    · refine .onThrow (J := fun t => t.queue = queue ∧ Grown readsBack s.log t.log ∧
        Holds readsBack record t) ?_ hwritten ?_
      · refine ((verifyLockedLog_triple _ (fun _ h => h)).weaken (fun _ h => h) ?_)
        exact fun _ t ht => hwritten t ht.1
      · refine .observe_bind hwritten (fun _ _ => .write hwritten ?_)
        rintro t ⟨-, hgrown, hholds⟩
        have hback : Kept readsBack s { t with queue := s.queue } :=
          Appending.kept ⟨rfl, hgrown⟩
        cases a.restored
        · exact hback
        · exact hback

/-- What an attempt has come to when it succeeds. -/
def Success (readsBack : Bytes → Bool) (s : State) (r : Result) (t : State) : Prop :=
  Kept readsBack s t ∧ Holds readsBack r.record t ∧ r.record = r.alert.record ∧
    r.alert.status = .delivered

variable (valid readsBack sha256 logName) in
theorem reconcile_triple (a : Attempt) (s : State) :
    Triple (Kept readsBack s) (fun t => t = s)
      (reconcileRunnerTerminalAlert valid readsBack sha256 logName a) (Success readsBack s) := by
  have hstart : ∀ t, t = s → Kept readsBack s t := by
    rintro t rfl
    exact Kept.refl _
  unfold reconcileRunnerTerminalAlert
  split
  · exact .throw hstart
  refine .observe_bind hstart (fun _ _ => ?_)
  refine .bind (Q := fun r t => r = t ∧ t = s) (.get (fun t ht => ⟨rfl, ht⟩)) (fun r => ?_)
  by_cases hr : r = s
  swap
  · intro t n ht
    exact absurd (ht.1.trans ht.2) hr
  subst hr
  refine Triple.weaken (P := fun t => t = r) ?_ (fun t ht => ht.2) (fun _ _ h => h)
  refine .observe_bind hstart (fun job hjob => ?_)
  refine .ofExcept_bind hstart (fun alert halert => ?_)
  refine .bind ((appendRecord_triple alert.toIdentity).mono fun _ h => h.kept) (fun created => ?_)
  refine .bind (verifyLockedLog_triple _ fun _ h => h.kept) (fun _ => ?_)
  refine .ofExcept_bind (fun _ h => h.1.kept) (fun current hcurrent => ?_)
  refine .observe_bind (fun _ h => h.1.kept) (fun _ _ => ?_)
  obtain rfl := Except.ok.inj (halert.symm.trans hcurrent)
  refine .bind (commit_triple fun other hother =>
    delivered_of_written (List.mem_of_find?_eq_some hjob) hother) (fun _ => ?_)
  refine .bind (verifyLockedLog_triple _ fun _ h => h) (fun _ => ?_)
  refine .ofExcept_bind (fun _ h => h.1) (fun final hfinal => .pure ?_)
  obtain ⟨hrecord, hstatus⟩ := validated_delivered halert hfinal
  exact fun t ht => ⟨ht.1, ht.2, hrecord.symm, hstatus⟩

variable (valid readsBack sha256 logName) in
theorem left_kept (a : Attempt) (s : State) :
    Kept readsBack s (a.left valid readsBack sha256 logName s) :=
  ((reconcile_triple valid readsBack sha256 logName a s).weaken (fun _ h => h) (fun _ _ h => h.1)).after rfl a.granted

variable (valid readsBack sha256 logName) in
theorem run_kept (attempts : List Attempt) (s : State) :
    Kept readsBack s (run valid readsBack sha256 logName attempts s) := by
  induction attempts generalizing s with
  | nil => exact Kept.refl s
  | cons a attempts ih => exact (left_kept valid readsBack sha256 logName a s).trans (ih _)

/-- What holds behind an attempt that succeeds. -/
theorem result_success {r : Result} (h : a.result valid readsBack sha256 logName s = .ok r) :
    Success readsBack s r (a.left valid readsBack sha256 logName s) := by
  have htriple := reconcile_triple valid readsBack sha256 logName a s s a.granted rfl
  unfold Attempt.result at h
  unfold Attempt.left Pass.after
  rcases hrun : reconcileRunnerTerminalAlert valid readsBack sha256 logName a (s, a.granted) with
    ⟨e | r', t, n⟩
  · rw [hrun] at h
    cases h
  · rw [hrun] at h htriple
    obtain rfl := Except.ok.inj h
    exact htriple

variable (valid readsBack sha256 logName) in
/-- What a sequence of attempts keeps.  Behind an attempt that succeeded its record is a line, and one
only if the log that the attempts began with had it once at most, its tail counted. -/
structure AlertLaws (start : State) (attempts : List Attempt) : Prop where
  linesKept : lines 10 start.log <+: lines 10 (run valid readsBack sha256 logName attempts start).log
  once : ∀ earlier a later r, attempts = earlier ++ a :: later →
    a.result valid readsBack sha256 logName (run valid readsBack sha256 logName earlier start) = .ok r →
    r.record = r.alert.record ∧ r.alert.status = .delivered ∧
      r.record ∈ lines 10 (run valid readsBack sha256 logName attempts start).log ∧
      (lines 10 (run valid readsBack sha256 logName attempts start).log).count r.record ≤
        max 1 (copies 10 r.record start.log) ∧
      (copies 10 r.record start.log ≤ 1 →
        (lines 10 (run valid readsBack sha256 logName attempts start).log).count r.record = 1)
  delivered : ∀ record,
    Delivered (run valid readsBack sha256 logName attempts start).queue record →
    record ∈ lines 10 (run valid readsBack sha256 logName attempts start).log ∨
      Delivered start.queue record ∧ record ∉ lines 10 start.log

/-- Whatever a log holds and wherever attempts end, its lines stay, an alert is delivered as one line,
and the queue says so of lines only. -/
theorem alertLaws (start : State) (attempts : List Attempt) :
    AlertLaws valid readsBack sha256 logName start attempts where
  linesKept := (run_kept valid readsBack sha256 logName attempts start).grown.lines
  once := by
    rintro earlier a later r rfl hresult
    have hbefore := run_kept valid readsBack sha256 logName earlier start
    obtain ⟨hkept, ⟨hline, hreads⟩, hrecord, hstatus⟩ := result_success hresult
    have hlater := run_kept valid readsBack sha256 logName later
      (a.left valid readsBack sha256 logName (run valid readsBack sha256 logName earlier start))
    have hrun : run valid readsBack sha256 logName (earlier ++ a :: later) start =
        run valid readsBack sha256 logName later
          (a.left valid readsBack sha256 logName (run valid readsBack sha256 logName earlier start)) := by
      simp only [run, List.foldl_append, List.foldl_cons]
    rw [hrun]
    have hmem := hlater.grown.lines.subset hline
    have hpos := List.count_pos_iff.mpr hmem
    have hcopies := ((hbefore.trans hkept).trans hlater).grown.copies r.alert.toIdentity
      (by rw [← hrecord]; exact hreads)
    rw [← hrecord] at hcopies
    have hcount := le_trans count_le_copies hcopies
    exact ⟨hrecord, hstatus, hmem, hcount, fun hstart => by omega⟩
  delivered record hrecord := by
    have hkept := run_kept valid readsBack sha256 logName attempts start
    by_cases hline : record ∈ lines 10 start.log
    · exact .inl (hkept.grown.lines.subset hline)
    · exact (hkept.delivered record hrecord).imp_right (fun h => ⟨h, hline⟩)

end Laws

/-! ### A log that holds a record twice

Two jobs whose verifier could not run.  Attempts meet nothing that stops them. -/

namespace Sample

def hash (n : ℕ) : Text :=
  text "sha256:" ++ (List.range 64).map (fun i => (hexDigit (n / 16 ^ (63 - i) % 16)).toNat)

def identity : Identity where
  subject := .disposition (hash 0x19754ba3154681059f5cc87f2fbec51bc723fafed444dd985ec74196b59083b3)
  jobId := text "job-1"
  message := text "LOCAL quarantined job-1: job_run_error"
  createdAtUtc := text "2026-01-01T00:00:00Z"
  alertId := hash 0x390341050ea541982a71c6b00bce0c19f9e29cdbaa03a0ddff20f17d93242ad9

def second : Identity where
  subject := .disposition (hash 0xdcf51e74dba6e73cf5e071e14437aac841d8857465690694e9b03442c7066c5c)
  jobId := text "job-2"
  message := text "LOCAL quarantined job-2: job_run_error"
  createdAtUtc := text "2026-01-01T00:00:00Z"
  alertId := hash 0xa6870fe844668dc2bc6adf3e334e44c9f9278e546b3415df0c5556a31b63ca69

def queue : List Job :=
  [{ jobId := text "job-1", disposed := true, terminalAlert := some { toIdentity := identity } },
    { jobId := text "job-2", disposed := true, terminalAlert := some { toIdentity := second } }]

def attempt (jobId : Text) : Attempt where
  jobId := jobId
  queueOpens := true
  missing _ := none
  archived _ := false
  logOpens := true
  logDevice := 66
  logInode := 1042
  writes := [337]
  synced := true
  stable _ := true
  deliveredAtUtc := text "2026-01-01T00:05:00Z"
  encodes := true
  replaced := true
  restores := true
  restored := true
  granted := 10

/-- The digests of the two records. -/
def sha256 (record : Bytes) : Text :=
  if record = identity.record then
    hash 0x5993d2bf8f73c436786fbaeae549b55913234ca6655e100aec7a80ae18a0a8fc
  else hash 0x6a9d58b234d4f3973ffc67bb10628484e7fc5d17fa2753b50fdd3a12b21e2a6b

def result (a : Attempt) (s : State) : Option Bytes :=
  (a.result (fun _ _ => true) (fun _ => true) sha256 (text "alerts.jsonl") s).toOption.map Result.record

def ends (attempts : List Attempt) (log : Bytes) : Bytes :=
  (run (fun _ _ => true) (fun _ => true) sha256 (text "alerts.jsonl") attempts ⟨log, queue⟩).log

def twice : Bytes := identity.record ++ [10] ++ identity.record ++ [10]

/-- The record as a line, and again as a tail. -/
def beside : Bytes := identity.record ++ [10] ++ identity.record

/-- A log that has the record twice keeps both lines; one whose tail is the record as well comes to have
two when an attempt for another alert ends its tail. -/
theorem record_not_once :
    result (attempt (text "job-1")) ⟨twice, queue⟩ = some identity.record ∧
      (lines 10 (ends [attempt (text "job-1")] twice)).count identity.record = 2 ∧
      result (attempt (text "job-1")) ⟨beside, queue⟩ = some identity.record ∧
      (lines 10 (ends [attempt (text "job-1"), attempt (text "job-2")] beside)).count
        identity.record = 2 := by
  decide +kernel

end Sample

end P42Prizes.AlertLog
