import P42Prizes.Passes

/-! # The dispatcher of resolver reruns

Signers publish requests for reruns in a spool.  A pass of the dispatcher goes through the spool and
hands each board at most one request: it writes `request.json` of the board, the slot of the board that
names the request, and the journal of the request, and starts the unit of the board, which reads
`request.json` and publishes results.  Each file is written to a temporary file that carries the process
id and then renamed, and the dispatcher may be cut off before any such write.

The spool holds authentic requests, so what is refused of forged ones is left out; the bytes of a request
stand for the request, since they are canonical.  Files are taken from their paths: `request.json` and the
slot from the registry problem id of the board, a journal from the hash of its request.  What a pass finds
outside of its files, the clock, the results and the state of the unit, it finds as it comes to a request:
that is a `Visit`. -/

namespace P42Prizes.Rerun

open Passes

/-! ### Files -/

structure Board where
  registryProblemId : ℕ
  boardId : String
deriving DecidableEq, Repr

/-- What the dispatcher reads of a request; `digest` is that of its bytes. -/
structure Request where
  requestHash : ℕ
  packetHash : ℕ
  orchestratorNonce : ℕ
  boardId : String
  expiresAtUtc : ℕ
  digest : ℕ
deriving DecidableEq, Repr

/-- The name of a request in the spool, whose two parts have a fixed number of digits. -/
def Request.sourceName (r : Request) : ℕ × ℕ := (r.packetHash, r.orchestratorNonce)

inductive DispatchStatus where
  | rotating | dispatching | dispatched | completed | terminalExpired
deriving DecidableEq, Repr

namespace DispatchStatus

def live : DispatchStatus → Bool
  | rotating | dispatching | dispatched => true
  | completed | terminalExpired => false

end DispatchStatus

/-- `p42-resolver-rerun-dispatch/v1` -/
structure Journal where
  status : DispatchStatus
  requestHash : ℕ
  requestDigest : ℕ
  sourceName : ℕ × ℕ
  boardId : String
  unit : String
deriving DecidableEq, Repr

/-- `p42-resolver-rerun-slot/v1` -/
structure Slot where
  registryProblemId : ℕ
  requestHash : ℕ
  requestDigest : ℕ
  unit : String
deriving DecidableEq, Repr

structure Files where
  requests : ℕ → Option Request
  slots : ℕ → Option Slot
  journals : ℕ → Option Journal

inductive Path where
  | request (registryProblemId : ℕ)
  | slot (registryProblemId : ℕ)
  | journal (requestHash : ℕ)
deriving DecidableEq, Repr

/-- What others see of a pass: a unit is started, or `request.json` is put in place, beside the files as
they are at that moment. -/
inductive Event where
  | resetFailed (registryProblemId : ℕ)
  | started (registryProblemId : ℕ) (files : Files) (checkedAt : ℕ)
  | installed (registryProblemId : ℕ) (files : Files) (request : Request) (active : Bool)

structure State where
  files : Files
  temporaries : List (Path × ℕ)
  events : List Event

def initial : State where
  files := { requests := fun _ => none, slots := fun _ => none, journals := fun _ => none }
  temporaries := []
  events := []

def unitOf (registryProblemId : ℕ) : String :=
  "p42-resolver-rerun@" ++ toString registryProblemId ++ ".service"

def journalFor (registryProblemId : ℕ) (r : Request) (status : DispatchStatus) : Journal where
  status := status
  requestHash := r.requestHash
  requestDigest := r.digest
  sourceName := r.sourceName
  boardId := r.boardId
  unit := unitOf registryProblemId

def slotFor (registryProblemId : ℕ) (r : Request) : Slot where
  registryProblemId := registryProblemId
  requestHash := r.requestHash
  requestDigest := r.digest
  unit := unitOf registryProblemId

namespace Files

def setRequest (f : Files) (id : ℕ) (r : Request) : Files :=
  { f with requests := fun i => if i = id then some r else f.requests i }

def setSlot (f : Files) (id : ℕ) (v : Slot) : Files :=
  { f with slots := fun i => if i = id then some v else f.slots i }

def setJournal (f : Files) (h : ℕ) (j : Journal) : Files :=
  { f with journals := fun i => if i = h then some j else f.journals i }

end Files

/-! ### A pass -/

inductive ActiveState where
  | active | activating | inactive | failed | deactivating
deriving DecidableEq, Repr

/-- The unit is taken to be at work. -/
def ActiveState.busy : ActiveState → Bool
  | active | activating => true
  | inactive | failed | deactivating => false

/-- What a pass finds as it comes to a request: the clock, whether the results are there, what the system
manager says of the unit, and whether the unit is at work when `request.json` is put in place. -/
structure Visit where
  now : ℕ
  ready : Bool
  state : ActiveState
  activeAtInstall : Bool

/-- A run of the program: its process id, the requests that it lists, what it finds, and the number of
writes before it is cut off. -/
structure Round where
  pid : ℕ
  spool : List Request
  visit : Request → Visit
  granted : ℕ

inductive DispatchError where
  | boardNotMapped | bindingConflict | activeUnmatched | installMismatch | priorNotTerminal
  | unboundRequest | temporaryExists
deriving DecidableEq, Repr

abbrev Dispatching (α : Type) : Type := Pass State DispatchError α

/-- `durableReplace`: a temporary file of this process and its renaming. -/
def durableReplace (pid : ℕ) (path : Path) (f : State → State) : Dispatching Unit := do
  let s ← Pass.get
  if (path, pid) ∈ s.temporaries then Pass.throw .temporaryExists
  else do
    Pass.write (fun s => (.ok (), { s with temporaries := (path, pid) :: s.temporaries }))
    Pass.write (fun s => (.ok (), f { s with temporaries := s.temporaries.filter (· ≠ (path, pid)) }))

def writeJournal (pid id : ℕ) (r : Request) (status : DispatchStatus) : Dispatching Unit :=
  durableReplace pid (.journal r.requestHash)
    (fun s => { s with files := s.files.setJournal r.requestHash (journalFor id r status) })

def writeSlot (pid id : ℕ) (r : Request) : Dispatching Unit :=
  durableReplace pid (.slot id) (fun s => { s with files := s.files.setSlot id (slotFor id r) })

/-- `installExactRequest` -/
def installExactRequest (pid id : ℕ) (r : Request) (allowReplace active : Bool) : Dispatching Unit := do
  let s ← Pass.get
  if s.files.requests id = some r then pure ()
  else if s.files.requests id ≠ none ∧ allowReplace = false then Pass.throw .installMismatch
  else durableReplace pid (.request id) (fun s =>
    { s with
      files := s.files.setRequest id r
      events := s.events ++ [.installed id s.files r active] })

def emit (e : State → Event) : Dispatching Unit :=
  Pass.write (fun s => (.ok (), { s with events := s.events ++ [e s] }))

section Passing

variable (map : List Board) (p : Round)

/-- The request takes the slot of its board, whose last request has come to an end. -/
def rotate (id : ℕ) (r : Request) (allowReplace : Bool) : Dispatching Unit := do
  writeJournal p.pid id r .rotating
  installExactRequest p.pid id r allowReplace (p.visit r).activeAtInstall
  writeSlot p.pid id r

/-- `request.json` and the slot come to be those of the request. -/
def prepare (id : ℕ) (r : Request) : Dispatching Unit := do
  let s ← Pass.get
  match s.files.slots id with
  | some slot =>
      if slot.requestHash = r.requestHash then
        installExactRequest p.pid id r false (p.visit r).activeAtInstall
      else
        match s.files.journals slot.requestHash with
        | some prior =>
            if prior.status.live then Pass.throw .priorNotTerminal else rotate p id r true
        | none => Pass.throw .priorNotTerminal
  | none =>
      if s.files.requests id ≠ none ∧ s.files.requests id ≠ some r then Pass.throw .unboundRequest
      else rotate p id r false

/-- A unit that has failed is reset before it is started. -/
def reset (id : ℕ) (r : Request) : Dispatching Unit :=
  if (p.visit r).state = .failed then emit (fun _ => .resetFailed id) else pure ()

/-- The unit is started on the request. -/
def dispatch (id : ℕ) (r : Request) : Dispatching Unit := do
  prepare p id r
  writeJournal p.pid id r .dispatching
  reset p id r
  emit (fun s => .started id s.files (p.visit r).now)
  writeJournal p.pid id r .dispatched

/-- What a pass does with a request of a board that it has not yet found busy; whether the board is busy
then, and the journal that is reported. -/
def visitRequest (id : ℕ) (r : Request) : Dispatching (Bool × Journal) := do
  let s ← Pass.get
  let journal := s.files.journals r.requestHash
  let slot := s.files.slots id
  if ∃ j ∈ journal, j.requestHash ≠ r.requestHash ∨ j.unit ≠ unitOf id ∨ j.sourceName ≠ r.sourceName ∨
      j.boardId ≠ r.boardId then Pass.throw .bindingConflict
  else if journal.map Journal.status = some .completed then
    pure (false, journal.getD (journalFor id r .completed))
  else if (p.visit r).ready then do
    writeJournal p.pid id r .completed
    pure (false, journalFor id r .completed)
  else if (p.visit r).state.busy then
    if slot.map Slot.requestHash = some r.requestHash ∧
        (journal.map Journal.status = some .dispatching ∨ journal.map Journal.status = some .dispatched)
    then do
      installExactRequest p.pid id r false (p.visit r).activeAtInstall
      writeJournal p.pid id r .dispatched
      pure (true, journalFor id r .dispatched)
    else Pass.throw .activeUnmatched
  else if r.expiresAtUtc ≤ (p.visit r).now then do
    writeJournal p.pid id r .terminalExpired
    pure (false, journalFor id r .terminalExpired)
  else do
    dispatch p id r
    pure (true, journalFor id r .dispatched)

/-- The board of a request in the dispatch map. -/
def home (r : Request) : Option ℕ :=
  (map.find? (fun board => board.boardId = r.boardId)).map Board.registryProblemId

/-- The requests in turn; `busy` are the boards that are done with. -/
def visitAll : List Request → List ℕ → Dispatching (List Journal)
  | [], _ => pure []
  | r :: rest, busy => do
      let id ← Pass.observe .boardNotMapped (home map r)
      if id ∈ busy then visitAll rest busy
      else do
        let (taken, journal) ← visitRequest p id r
        let reports ← visitAll rest (if taken then id :: busy else busy)
        pure (journal :: reports)

/-- Requests under way come before the others. -/
def priority (f : Files) (r : Request) : ℕ :=
  match f.journals r.requestHash with
  | some j => if j.status.live then 0 else 1
  | none => 1

/-- The order in which a pass takes two requests. -/
def precedes (f : Files) (r r' : Request) : Prop :=
  priority f r < priority f r' ∨
    priority f r = priority f r' ∧ toLex r.sourceName ≤ toLex r'.sourceName

instance (f : Files) : DecidableRel (precedes f) := fun r r' =>
  inferInstanceAs (Decidable (priority f r < priority f r' ∨
    priority f r = priority f r' ∧ toLex r.sourceName ≤ toLex r'.sourceName))

/-- `dispatchResolverReruns` -/
def dispatchResolverReruns : Dispatching (List Journal) := do
  let s ← Pass.get
  visitAll map p (p.spool.insertionSort (precedes s.files)) []

/-- The state that a run of the program leaves behind. -/
def Round.left (s : State) : State := (dispatchResolverReruns map p).after s p.granted

end Passing

end P42Prizes.Rerun
