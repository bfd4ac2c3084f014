import P42Prizes.Reverting
import P42Prizes.Systems
import P42Prizes.WalletNonce

/-! # Idempotent requests of the portal

A mutating request of the portal may carry an idempotency key.  It begins by reserving the key of its
route for a lease; its operation then runs in the same update that completes the record of the key; a
request that fails gives its reservation back.  Later requests with the key are answered from the record.

Every update of the portal is atomic: it reads the state, drops what has expired, changes it, drops again
what has expired by then, and writes it or leaves it as it was.  Between updates anything may happen.  The
rest of the state (commits, submissions, events) is a type `σ`, and responses are a type `ρ`; `Store` is
what the store does to the rest.  Times are milliseconds.  A body stands for its canonical text. -/

namespace P42Prizes.Portal

open Reverting
open Transition
open WalletNonce (modifyFirst)

/-! ### Records -/

inductive RecordState where
  | pending | completed
deriving DecidableEq, Repr

structure IdempotencyRecord (ρ : Type) where
  key : String
  route : String
  requestHash : String
  state : RecordState
  status : Option ℕ := none
  response : Option ρ := none
  createdAt : ℕ
  reservationId : Option String := none
  leaseExpiresAt : Option ℕ := none

structure Reservation where
  key : String
  route : String
  requestHash : String
  reservationId : String
deriving DecidableEq, Repr

structure Snapshot (σ ρ : Type) where
  idempotency : List (IdempotencyRecord ρ)
  rest : σ

/-- What is noted in the event chain of the portal. -/
inductive PortalEvent where
  | conflict (key route requestHash originalRequestHash : String)
  | replayed (key route requestHash : String) (status : ℕ)
  | stored (key route requestHash : String) (status : ℕ)

/-- The settings of the portal and what it does to the rest of its state; an update whose state is over
the size limit is refused. -/
structure Store (σ ρ : Type) where
  idempotencyLeaseMs : ℕ
  idempotencyRetentionMs : ℕ
  maxIdempotency : ℕ
  maintainRest : ℕ → σ → σ
  appendPortalEvent : PortalEvent → σ → σ
  fits : Snapshot σ ρ → Bool
  sha256 : List UInt8 → String

inductive PortalError where
  | capacityReached | statusMissing | reservationLost | stateTooLarge | operationFailed (message : String)
deriving DecidableEq, Repr

section Updates

variable {σ ρ α : Type} (store : Store σ ρ)

/-- `requestHash`, of a body by its canonical text. -/
def requestHash (body : List UInt8) : String := "sha256:" ++ store.sha256 body

/-- What `maintainPortalState` keeps of the idempotency records. -/
def retained (now : ℕ) (record : IdempotencyRecord ρ) : Bool :=
  match record.state with
  | .pending => match record.leaseExpiresAt with
    | some expires => now < expires
    | none => false
  | .completed => now ≤ record.createdAt + store.idempotencyRetentionMs

def maintainPortalState (now : ℕ) (s : Snapshot σ ρ) : Snapshot σ ρ where
  idempotency := s.idempotency.filter (retained store now)
  rest := store.maintainRest now s.rest

/-- `updatePortalStateShared`; the clock is read before and behind the change. -/
def updatePortalState (before behind : ℕ)
    (mutator : Snapshot σ ρ → Except PortalError (α × Snapshot σ ρ)) (s : Snapshot σ ρ) :
    Except PortalError (α × Snapshot σ ρ) := do
  let (a, s') ← mutator (maintainPortalState store before s)
  let s'' := maintainPortalState store behind s'
  revertIf (store.fits s'' = false) .stateTooLarge
  pure (a, s'')

def isOf (route key : String) (record : IdempotencyRecord ρ) : Bool :=
  record.route = route && record.key = key

inductive ReservationOutcome (ρ : Type) where
  | reserved
  | replay (response : Option ρ) (status : ℕ)
  | conflict (originalRequestHash : String)
  | pending (retryAfterSeconds : ℕ)

/-- A pending record whose lease is over is taken over. -/
def renew (reservationId : String) (now : ℕ) (record : IdempotencyRecord ρ) : IdempotencyRecord ρ :=
  { record with
    reservationId := some reservationId
    leaseExpiresAt := some (now + store.idempotencyLeaseMs)
    createdAt := now }

/-- The record of an operation that has been done. -/
def settle (status : ℕ) (response : ρ) (record : IdempotencyRecord ρ) : IdempotencyRecord ρ :=
  { record with
    state := .completed
    status := some status
    response := some response
    reservationId := none
    leaseExpiresAt := none }

/-- The change of `beginIdempotentRequest`; `now` is the clock before the update. -/
def beginIdempotentRequest (route key hash reservationId : String) (now : ℕ) (s : Snapshot σ ρ) :
    Except PortalError (ReservationOutcome ρ × Snapshot σ ρ) :=
  match s.idempotency.find? (isOf route key) with
  | none => do
      revertIf (store.maxIdempotency ≤ s.idempotency.length) .capacityReached
      pure (.reserved, { s with
        idempotency := s.idempotency ++ [{
          key := key
          route := route
          requestHash := hash
          state := .pending
          createdAt := now
          reservationId := some reservationId
          leaseExpiresAt := some (now + store.idempotencyLeaseMs) }] })
  | some existing =>
      if existing.requestHash ≠ hash then
        .ok (.conflict existing.requestHash, { s with
          rest := store.appendPortalEvent (.conflict key route hash existing.requestHash) s.rest })
      else match existing.state with
        | .completed => match existing.status with
          | none => .error .statusMissing
          | some status => .ok (.replay existing.response status, { s with
              rest := store.appendPortalEvent (.replayed key route hash status) s.rest })
        | .pending => match existing.leaseExpiresAt.filter (fun lease => now < lease) with
          | some lease => .ok (.pending (max 1 ((lease - now + 999) / 1000)), s)
          | none => .ok (.reserved, { s with
              idempotency := modifyFirst (isOf route key) (renew store reservationId now) s.idempotency })

/-- An operation changes the rest of the state and answers, or throws. -/
abbrev Operation (σ ρ : Type) : Type := σ → Except PortalError (ρ × σ)

/-- What has been committed: the response, its status, and when the record was created. -/
structure Committed (ρ : Type) where
  response : ρ
  status : ℕ
  createdAt : ℕ

/-- The change of `completeIdempotentOperation`, with a reservation. -/
def completeIdempotentOperation (reservation : Reservation) (status : ρ → ℕ) (operation : Operation σ ρ)
    (s : Snapshot σ ρ) : Except PortalError (Committed ρ × Snapshot σ ρ) :=
  match s.idempotency.find? (isOf reservation.route reservation.key) with
  | none => .error .reservationLost
  | some existing =>
      if existing.state ≠ .pending ∨ existing.requestHash ≠ reservation.requestHash ∨
          existing.reservationId ≠ some reservation.reservationId then .error .reservationLost
      else do
        let (response, rest) ← operation s.rest
        pure (⟨response, status response, existing.createdAt⟩,
          { idempotency := modifyFirst (isOf reservation.route reservation.key)
              (settle (status response) response) s.idempotency
            rest := store.appendPortalEvent
              (.stored reservation.key reservation.route reservation.requestHash (status response)) rest })

/-- The change of `releaseIdempotencyReservation`. -/
def releaseIdempotencyReservation (reservation : Reservation) (s : Snapshot σ ρ) :
    Except PortalError (Unit × Snapshot σ ρ) :=
  .ok ((), { s with idempotency := s.idempotency.eraseP (fun record =>
    isOf reservation.route reservation.key record && record.state = .pending &&
      record.reservationId = some reservation.reservationId) })

end Updates

/-! ### The portal at work -/

/-- An update that was committed. -/
inductive Update (ρ : Type) where
  | began (route key : String) (body : List UInt8) (reservationId : String) (now before : ℕ)
      (outcome : ReservationOutcome ρ)
  | committed (reservation : Reservation) (before behind : ℕ) (result : Committed ρ)
  | released (reservation : Reservation)
  | other

/-- The state of the portal, the clock and the updates so far, the last one first. -/
structure World (σ ρ : Type) where
  snapshot : Snapshot σ ρ
  clock : ℕ
  updates : List (Update ρ)

/-- An attempt at an update, with the clock before and behind it.  A request draws its reservation id and
reads the clock before it waits for its update. -/
inductive Attempt (σ ρ : Type) where
  | start (route key : String) (body : List UInt8) (reservationId : String) (now before behind : ℕ)
  | complete (reservation : Reservation) (status : ρ → ℕ) (operation : Operation σ ρ)
      (before behind : ℕ)
  | release (reservation : Reservation) (before behind : ℕ)
  | other (operation : Operation σ Unit) (before behind : ℕ)

namespace Update

variable {ρ : Type}

/-- The reservation id that an update has drawn or was given. -/
def reservationId : Update ρ → Option String
  | began _ _ _ id _ _ _ => some id
  | committed reservation _ _ _ => some reservation.reservationId
  | released reservation => some reservation.reservationId
  | other => none

end Update

section Worlds

variable {σ ρ : Type} (store : Store σ ρ)

/-- The clock does not go back. -/
def World.forward (w : World σ ρ) (before behind : ℕ) : Prop := w.clock ≤ before ∧ before ≤ behind

instance (w : World σ ρ) (before behind : ℕ) : Decidable (w.forward before behind) :=
  inferInstanceAs (Decidable (_ ∧ _))

/-- The world behind an update; one that fails changes nothing. -/
def World.after (w : World σ ρ) {α : Type} (behind : ℕ) (note : α → Update ρ)
    (result : Except PortalError (α × Snapshot σ ρ)) : World σ ρ :=
  match result with
  | .ok (a, s) => { snapshot := s, clock := behind, updates := note a :: w.updates }
  | .error _ => { w with clock := behind }

/-- One attempt; the clock goes on and reservation ids are fresh. -/
def step (w : World σ ρ) : Attempt σ ρ → Option (World σ ρ)
  | .start route key body id now before behind =>
      if w.forward before behind ∧ some id ∉ w.updates.map Update.reservationId then
        some (w.after behind (.began route key body id now before)
          (updatePortalState store before behind
            (beginIdempotentRequest store route key (requestHash store body) id now) w.snapshot))
      else none
  | .complete reservation status operation before behind =>
      if w.forward before behind then
        some (w.after behind (.committed reservation before behind)
          (updatePortalState store before behind
            (completeIdempotentOperation store reservation status operation) w.snapshot))
      else none
  | .release reservation before behind =>
      if w.forward before behind then
        some (w.after behind (fun _ => .released reservation)
          (updatePortalState store before behind (releaseIdempotencyReservation reservation) w.snapshot))
      else none
  | .other operation before behind =>
      if w.forward before behind then
        some (w.after behind (fun _ => .other)
          (updatePortalState store before behind (fun s => do
            let (a, rest) ← operation s.rest
            pure (a, { s with rest := rest })) w.snapshot))
      else none

/-- A portal without records, whatever else it holds. -/
def system : System (World σ ρ) (Attempt σ ρ) where
  init w := w.snapshot.idempotency = [] ∧ w.updates = []
  step := step store

end Worlds

end P42Prizes.Portal
