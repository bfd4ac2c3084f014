import P42Prizes.Keyed
import P42Prizes.Reverting

/-! # The spending envelope of the challenger

The operator may spend a little ETH on challenges every day.  A file holds, for every UTC day, what
is reserved for challenges in preparation and what was spent on finalized ones; each operation reads
the file under a lock, changes it and writes it back, or throws and leaves it as it was.

The file is read into plain objects, whose property lookups also find the inherited names of
`Object.prototype`, and the reader refuses files with certain keys.  Days are numbered from the epoch;
their ISO dates are ordered alike.  The records of the runner's health, which have rules and
signatures of their own, are left out: whether they admit a reservation is part of its input. -/

namespace P42Prizes.Agent

open Reverting

/-! ### Limits -/

/-- The names that every plain object inherits. -/
def objectPrototypeNames : List String :=
  ["__proto__", "constructor", "hasOwnProperty", "isPrototypeOf", "propertyIsEnumerable",
    "toLocaleString", "toString", "valueOf", "__defineGetter__", "__defineSetter__",
    "__lookupGetter__", "__lookupSetter__"]

/-- The value of `Number(raw)`. -/
inductive JsNumber where
  | nan
  | infinity (negative : Bool)
  | finite (q : ℚ)
deriving DecidableEq

namespace JsNumber

/-- `value <= q` -/
def le : JsNumber → ℚ → Bool
  | nan, _ => false
  | infinity negative, _ => negative
  | finite value, q => decide (value ≤ q)

/-- `value > q` -/
def gt : JsNumber → ℚ → Bool
  | nan, _ => false
  | infinity negative, _ => !negative
  | finite value, q => decide (q < value)

end JsNumber

inductive EnvelopeError where
  | limitOverrideForbidden | provisioningInvalid | unknownLimit | mayOnlyTighten
  | identityRequired | healthNotGreen | openEvidenceInvalid | openChallengeCap
  | perChallengeCap | highWaterRejected | alreadyPending | perProblemDayCap | globalDayCap
  | receiptRequired | noDurableReservation | forbiddenObjectKey | operationFailed
deriving DecidableEq, Repr

structure ChallengeLimits where
  perChallengeWei : ℤ
  perProblemDayWei : ℤ
  globalDayWei : ℤ
  maxCanonicalOpen : JsNumber
  maxPendingProvisioned : JsNumber

/-- `DEFAULTS`, which a provisioning must repeat. -/
def defaultLimits : ChallengeLimits where
  perChallengeWei := 5 * 10 ^ 16
  perProblemDayWei := 10 ^ 17
  globalDayWei := 3 * 10 ^ 17
  maxCanonicalOpen := .finite 3
  maxPendingProvisioned := .finite 1

/-- An entry of `tightenedLimits`, already converted to the type of its limit. -/
inductive TightenedLimit where
  | perChallengeWei (value : ℤ)
  | perProblemDayWei (value : ℤ)
  | globalDayWei (value : ℤ)
  | maxCanonicalOpen (value : JsNumber)
  | maxPendingProvisioned (value : JsNumber)
  | other (key : String) (value : JsNumber)

/-- `value <= 0 || value > base[key]` -/
def requireTighter (value base : ℤ) : Except EnvelopeError Unit :=
  revertIf (value ≤ 0 ∨ value > base) .mayOnlyTighten

def requireTighterNumber (value : JsNumber) (base : ℚ) : Except EnvelopeError Unit :=
  revertIf (value.le 0 = true ∨ value.gt base = true) .mayOnlyTighten

/-- A turn of the loop of `limitsFromProvisioning`. -/
def ChallengeLimits.tighten (limits : ChallengeLimits) :
    TightenedLimit → Except EnvelopeError ChallengeLimits
  | .perChallengeWei value => do
      requireTighter value defaultLimits.perChallengeWei
      pure { limits with perChallengeWei := value }
  | .perProblemDayWei value => do
      requireTighter value defaultLimits.perProblemDayWei
      pure { limits with perProblemDayWei := value }
  | .globalDayWei value => do
      requireTighter value defaultLimits.globalDayWei
      pure { limits with globalDayWei := value }
  | .maxCanonicalOpen value => do
      requireTighterNumber value 3
      pure { limits with maxCanonicalOpen := value }
  | .maxPendingProvisioned value => do
      requireTighterNumber value 1
      pure { limits with maxPendingProvisioned := value }
  | .other key value => do
      revertIf (key ∉ objectPrototypeNames) .unknownLimit
      -- an inherited property is no number and bounds nothing
      revertIf (value.le 0 = true) .mayOnlyTighten
      pure limits

def ChallengeLimits.tightenAll : List TightenedLimit → ChallengeLimits →
    Except EnvelopeError ChallengeLimits
  | [], limits => pure limits
  | entry :: entries, limits => do
      let limits ← limits.tighten entry
      tightenAll entries limits

/-- `limitsFromProvisioning`; a provisioning that is accepted carries the default limits. -/
def limitsFromProvisioning (provisioned : Bool) (tightened : List TightenedLimit) :
    Except EnvelopeError ChallengeLimits := do
  revertIf (provisioned = false) .provisioningInvalid
  defaultLimits.tightenAll tightened

/-! ### The file -/

inductive ActionIntent where
  | reserved
  | journalDurable (journalPath signedTransactionHash : String)
deriving DecidableEq, Repr

structure FinalizedReceipt where
  transactionHash : String
  blockNumber : ℕ
  blockHash : String
deriving DecidableEq, Repr

/-- A reservation or, with its receipt, a spend; the key it is stored under is its `id`. -/
structure Row where
  id : String
  problemId : String
  amountWei : ℕ
  actionIntent : ActionIntent := .reserved
  receipt : Option FinalizedReceipt := none
deriving DecidableEq, Repr

structure Bucket where
  reservations : List Row := []
  spends : List Row := []
deriving DecidableEq, Repr

structure Envelope where
  days : List (ℕ × Bucket) := []
deriving DecidableEq, Repr

/-- `FORBIDDEN_KEYS` of the reader. -/
def forbiddenKeys : List String := ["__proto__", "prototype", "constructor"]

/-- `rows?.[id]` is truthy. -/
def has (rows : List Row) (id : String) : Bool :=
  rows.any (fun row => row.id = id) || objectPrototypeNames.contains id

/-- `rows[row.id] = row`; an assignment to `__proto__` stores nothing. -/
def put (row : Row) (rows : List Row) : List Row :=
  if row.id = "__proto__" then rows else rows.filter (fun other => other.id ≠ row.id) ++ [row]

/-- `delete rows[id]` -/
def erase (id : String) (rows : List Row) : List Row := rows.filter (fun row => row.id ≠ id)

/-- `rows[id].action_intent = intent` -/
def mark (id : String) (intent : ActionIntent) (rows : List Row) : List Row :=
  rows.map (fun row => if row.id = id then { row with actionIntent := intent } else row)

namespace Bucket

variable (b : Bucket)

def rows : List Row := b.reservations ++ b.spends

def total : ℕ := (b.rows.map Row.amountWei).sum

def totalOf (problemId : String) : ℕ :=
  ((b.rows.filter (fun row => row.problemId = problemId)).map Row.amountWei).sum

/-- The reservation `row` of `id` becomes a spend. -/
def commit (id : String) (row : Row) (receipt : FinalizedReceipt) : Bucket where
  reservations := erase id b.reservations
  spends := put { row with receipt := some receipt } b.spends

end Bucket

namespace Envelope

variable (s : Envelope)

def rows : List Row := s.days.flatMap (fun entry => entry.2.rows)

def pending : List Row := s.days.flatMap (fun entry => entry.2.reservations)

/-- `readState` -/
def read : Except EnvelopeError Envelope := do
  revertIf (∃ row ∈ s.rows, row.id ∈ forbiddenKeys) .forbiddenObjectKey
  pure s

/-- `atomicWrite`, which sorts the keys. -/
def write : Envelope := ⟨s.days.insertionSort (fun x y => x.1 ≤ y.1)⟩

/-- `dayBucket` -/
def bucket (day : ℕ) : Bucket := Keyed.lookup {} day s.days

def setBucket (day : ℕ) (b : Bucket) : Envelope :=
  if s.days.any (fun entry => entry.1 = day) then
    ⟨s.days.map (fun entry => if entry.1 = day then (day, b) else entry)⟩
  else ⟨s.days ++ [(day, b)]⟩

end Envelope

/-! ### The operations -/

structure ReserveInput where
  id : String
  problemId : String
  amountWei : ℤ
  limitsOverride : Bool := false
  provisioned : Bool := true
  tightened : List TightenedLimit := []
  healthy : Bool := true
  admitted : Bool := true
  openChallenges : Option ℕ := some 0

inductive Report where
  | reserved (day : ℕ)
  | alreadyReserved (day : ℕ)
  | committed (idempotent : Bool)
  | released (released : Bool)
  | performed
deriving DecidableEq, Repr

namespace Envelope

/-- The part of `reserveChallengeSpend` under the lock. -/
def reserveLocked (day : ℕ) (input : ReserveInput) (limits : ChallengeLimits) (s : Envelope) :
    Except EnvelopeError (Report × Envelope) := do
  revertIf (input.admitted = false) .highWaterRejected
  match s.days.find? (fun entry => has entry.2.reservations input.id || has entry.2.spends input.id) with
  | some entry => pure (.alreadyReserved entry.1, s.write)
  | none =>
      revertIf (limits.maxPendingProvisioned.le s.pending.length = true) .alreadyPending
      let b := s.bucket day
      revertIf (b.totalOf input.problemId + input.amountWei > limits.perProblemDayWei)
        .perProblemDayCap
      revertIf (b.total + input.amountWei > limits.globalDayWei) .globalDayCap
      let row : Row := ⟨input.id, input.problemId, input.amountWei.toNat, .reserved, none⟩
      pure (.reserved day,
        (s.setBucket day { b with reservations := put row b.reservations }).write)

def reserveChallengeSpend (day : ℕ) (input : ReserveInput) (s : Envelope) :
    Except EnvelopeError (Report × Envelope) := do
  revertIf (input.limitsOverride = true) .limitOverrideForbidden
  let limits ← limitsFromProvisioning input.provisioned input.tightened
  revertIf (input.id = "" ∨ input.problemId = "") .identityRequired
  revertIf (input.healthy = false) .healthNotGreen
  match input.openChallenges with
  | none => .error .openEvidenceInvalid
  | some openChallenges =>
      revertIf (limits.maxCanonicalOpen.le openChallenges = true) .openChallengeCap
      revertIf (input.amountWei ≤ 0 ∨ input.amountWei > limits.perChallengeWei) .perChallengeCap
      let s ← s.read
      s.reserveLocked day input limits

/-- The loop of `finalizeChallengeSpend`. -/
def finalizeDays (id : String) (receipt : FinalizedReceipt) :
    List (ℕ × Bucket) → Except EnvelopeError (Bool × List (ℕ × Bucket))
  | [] => .error .noDurableReservation
  | (day, b) :: days =>
      if has b.spends id then pure (true, (day, b) :: days)
      else match b.reservations.find? (fun row => row.id = id) with
        | some row => pure (false, (day, b.commit id row receipt) :: days)
        | none => do
            let (idempotent, days) ← finalizeDays id receipt days
            pure (idempotent, (day, b) :: days)

/-- `finalizeChallengeSpend`; without a receipt the evidence is missing or not canonical. -/
def finalizeChallengeSpend (id : String) (receipt : Option FinalizedReceipt) (s : Envelope) :
    Except EnvelopeError (Report × Envelope) :=
  match receipt with
  | none => .error .receiptRequired
  | some receipt => do
      let s ← s.read
      let (idempotent, days) ← finalizeDays id receipt s.days
      pure (.committed idempotent, write ⟨days⟩)

/-- `releaseChallengeReservation`; `delete` is true whether it has deleted something or not, so the
loop ends in its first turn. -/
def releaseChallengeReservation (id : String) (s : Envelope) :
    Except EnvelopeError (Report × Envelope) := do
  let s ← s.read
  match s.days with
  | [] => pure (.released false, s.write)
  | (day, b) :: days =>
      pure (.released true, write ⟨(day, { b with reservations := erase id b.reservations }) :: days⟩)

/-- The loop of `markJournalDurable`; an inherited name is marked in the first bucket, outside of
the file. -/
def markDays (id : String) (intent : ActionIntent) :
    List (ℕ × Bucket) → Except EnvelopeError (List (ℕ × Bucket))
  | [] => .error .noDurableReservation
  | (day, b) :: days =>
      if has b.reservations id then
        pure ((day, { b with reservations := mark id intent b.reservations }) :: days)
      else do
        let days ← markDays id intent days
        pure ((day, b) :: days)

end Envelope

/-- What the operation of an action intent does: it fails before it has signed anything, it marks
its journal as durable and then goes on or fails, or it returns without marking. -/
inductive IntentOutcome where
  | fails
  | marks (journalPath signedTransactionHash : String) (thenFails : Bool)
  | returns

namespace Envelope

/-- The `catch` of `runChallengeActionIntent` before the journal is durable. -/
def abandonIntent (id : String) (s : Envelope) : Except EnvelopeError Report × Envelope :=
  match s.releaseChallengeReservation id with
  | .ok (_, s') => (.error .operationFailed, s')
  | .error error => (.error error, s)

def runChallengeActionIntent (id : String) (outcome : IntentOutcome) (s : Envelope) :
    Except EnvelopeError Report × Envelope :=
  match s.read with
  | .error error => (.error error, s)
  | .ok s =>
      match outcome with
      | .fails => s.abandonIntent id
      | .returns => (.ok .performed, s)
      | .marks journalPath signedTransactionHash thenFails =>
          match markDays id (.journalDurable journalPath signedTransactionHash) s.days with
          | .error _ => s.abandonIntent id
          | .ok days =>
              (if thenFails then .error .operationFailed else .ok .performed, write ⟨days⟩)

end Envelope

inductive EnvelopeOp where
  | reserve (day : ℕ) (input : ReserveInput)
  | finalize (id : String) (receipt : Option FinalizedReceipt)
  | release (id : String)
  | intent (id : String) (outcome : IntentOutcome)

/-- An operation that throws leaves the file as it was. -/
def settle (s : Envelope) : Except EnvelopeError (Report × Envelope) →
    Except EnvelopeError Report × Envelope
  | .ok (report, s') => (.ok report, s')
  | .error error => (.error error, s)

/-- The report of an operation and the file after it. -/
def EnvelopeOp.run (s : Envelope) : EnvelopeOp → Except EnvelopeError Report × Envelope
  | reserve day input => settle s (s.reserveChallengeSpend day input)
  | finalize id receipt => settle s (s.finalizeChallengeSpend id receipt)
  | release id => settle s (s.releaseChallengeReservation id)
  | intent id outcome => s.runChallengeActionIntent id outcome

end P42Prizes.Agent
