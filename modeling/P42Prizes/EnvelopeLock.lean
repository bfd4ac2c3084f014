import P42Prizes.Systems

/-! # The lock of the spending envelope and of the wallets

Processes of one host exclude each other by a directory: a lock is acquired by renaming a private
directory, which already holds the record of its owner, onto the path of the lock, and it is released
by renaming it away.  A lock whose owner has died is reclaimed under a second directory.  Every access
to the file system is a step of its own, and a process may crash between any two; what a process knows
between them is its `Call`.

Process ids are not used again, and the tokens of owners, 32 random bytes, do not repeat: `issuer` says
which process has drawn a token. -/

namespace P42Prizes.EnvelopeLock

open Transition

/-! ### Files -/

structure Owner where
  pid : ℕ
  token : String
  host : String
  processStartedAt : String
  lockCreatedAt : String
deriving DecidableEq, Repr

/-- What `owner.json` of a directory is: it is created empty and then written. -/
inductive OwnerFile where
  | missing
  | torn
  | whole (owner : Owner)
deriving DecidableEq, Repr

/-- The paths beside the lock, `${lockPath}.reclaim` and so on. -/
inductive Path where
  | lock
  | reclaim
  | acquire (token : String)
  | dead (token : String)
  | release (token : String)
deriving DecidableEq, Repr

inductive FsError where
  | noEntry
  | exists
  | notEmpty
  | torn
deriving DecidableEq, Repr

/-- The directories; a path that is not there is `none`. -/
abbrev Files := Path → Option OwnerFile

namespace Files

variable (files : Files)

def set (path : Path) (dir : Option OwnerFile) : Files := Function.update files path dir

def mkdir (path : Path) : Except FsError Files :=
  match files path with
  | none => .ok (files.set path (some .missing))
  | some _ => .error .exists

/-- `openSync(path, "wx")` of the owner record. -/
def openOwner (path : Path) : Except FsError Files :=
  match files path with
  | none => .error .noEntry
  | some .missing => .ok (files.set path (some .torn))
  | some _ => .error .exists

/-- A directory may be renamed onto an empty one. -/
def rename (source target : Path) : Except FsError Files :=
  match files source with
  | none => .error .noEntry
  | some dir =>
      match files target with
      | none | some .missing => .ok ((files.set target (some dir)).set source none)
      | some _ => .error .notEmpty

/-- `readLockOwner` -/
def readOwner (path : Path) : Except FsError Owner :=
  match files path with
  | none | some .missing => .error .noEntry
  | some .torn => .error .torn
  | some (.whole owner) => .ok owner

/-- The first step of `rmSync(path, { recursive: true })`. -/
def unlinkOwner (path : Path) : Except FsError Files :=
  match files path with
  | none => .error .noEntry
  | some _ => .ok (files.set path (some .missing))

/-- The last step of `rmSync(path, { recursive: true })`. -/
def rmdir (path : Path) : Except FsError Files :=
  match files path with
  | none => .error .noEntry
  | some .missing => .ok (files.set path none)
  | some _ => .error .notEmpty

end Files

/-! ### Processes -/

/-- How `reclaimDeadOwner` ends. -/
inductive Reclaim where
  | threw
  | refused
  | reclaimed
deriving DecidableEq, Repr

/-- Where a process is in `acquireEnvelopeLock`, with the `reclaimDeadOwner` it may be in, or in
`releaseEnvelopeLock`: the next access to the file system. -/
inductive Call where
  | idle
  | acquireLoop
  | stageMkdir (owner : Owner)
  | stageOpen (owner : Owner)
  | stageWrite (owner : Owner)
  | stageRename (owner : Owner)
  | unstageFile (owner : Owner) (error : FsError)
  | unstageDir (owner : Owner) (error : FsError)
  | observe
  | observedAlive (observed : Owner)
  | reclaimMkdir (observed : Owner)
  | reclaimRead (observed : Owner)
  | reclaimAlive (current : Owner)
  | reclaimRename (current : Owner)
  | reclaimMoved (current : Owner)
  | reclaimExists (current : Owner)
  | reclaimRestore (current : Owner)
  | reclaimUnlink (current : Owner)
  | reclaimRmdir (current : Owner)
  | reclaimFinally (outcome : Reclaim)
  | releaseRead (owner : Owner)
  | releaseRename (owner : Owner)
  | releaseMoved (owner : Owner)
  | releaseExists (owner : Owner)
  | releaseRestore (owner : Owner)
  | releaseUnlink (owner : Owner)
  | releaseRmdir (owner : Owner)
deriving DecidableEq, Repr

/-- How the last call of a process has ended. -/
inductive Ended where
  | acquired (owner : Owner)
  | acquireThrew
  | released
  | releaseThrew
deriving DecidableEq, Repr

/-- `held` is the owner record of the lock that the process has acquired and not yet moved away. -/
structure Process where
  alive : Bool := true
  call : Call := .idle
  held : Option Owner := none
  ended : Option Ended := none

structure World where
  files : Files
  processes : ℕ → Process
  issuer : String → Option ℕ

/-- What a step takes from outside: the token and the times of a new owner record, and whether the
timeout has passed. -/
structure Draw where
  token : String
  processStartedAt : String := ""
  lockCreatedAt : String := ""
  timedOut : Bool := false

namespace World

variable (w : World) (p : ℕ)

def setProcess (process : Process) : World :=
  { w with processes := Function.update w.processes p process }

/-- The process goes on with `call`. -/
def goto (call : Call) : World := w.setProcess p { w.processes p with call := call }

/-- The call of the process ends. -/
def finish (ended : Ended) : World :=
  w.setProcess p { w.processes p with call := .idle, ended := some ended }

def withFiles (files : Files) : World := { w with files := files }

/-- `ownerIsDeadOnThisHost` -/
def ownerIsDeadOnThisHost (hostname : String) (owner : Owner) : Bool :=
  owner.host = hostname && !(w.processes owner.pid).alive

/-- The lock is not to be had now: after the timeout this is an error. -/
def retry (draw : Draw) : World :=
  if draw.timedOut then w.finish p .acquireThrew else w.goto p .acquireLoop

/-- The `catch` of `acquireEnvelopeLock`, with its `rmSync` of what was staged. -/
def unstage (owner : Owner) (error : FsError) : World := w.goto p (.unstageFile owner error)

end World

/-- `canonicalJson(current) !== canonicalJson(observed)`, and for a release `token`, `pid` and `host`. -/
def Owner.sameHolder (current owner : Owner) : Bool :=
  current.token = owner.token && current.pid = owner.pid && current.host = owner.host

namespace World

/-- The next step of `acquireEnvelopeLock`. -/
def acquireStep (hostname : String) (w : World) (p : ℕ) (draw : Draw) : Call → Option World
  | .acquireLoop =>
      if w.files .reclaim ≠ none then some (w.retry p draw)
      else if w.issuer draw.token ≠ none then none
      else
        let owner : Owner := ⟨p, draw.token, hostname, draw.processStartedAt, draw.lockCreatedAt⟩
        some ({ w with issuer := Function.update w.issuer draw.token (some p) }.goto p
          (.stageMkdir owner))
  | .stageMkdir owner =>
      match w.files.mkdir (.acquire owner.token) with
      | .ok files => some ((w.withFiles files).goto p (.stageOpen owner))
      | .error error => some (w.unstage p owner error)
  | .stageOpen owner =>
      match w.files.openOwner (.acquire owner.token) with
      | .ok files => some ((w.withFiles files).goto p (.stageWrite owner))
      | .error error => some (w.unstage p owner error)
  | .stageWrite owner =>
      some ((w.withFiles (w.files.set (.acquire owner.token) (some (.whole owner)))).goto p
        (.stageRename owner))
  | .stageRename owner =>
      match w.files.rename (.acquire owner.token) .lock with
      | .ok files => some ((w.withFiles files).setProcess p
          { w.processes p with call := .idle, held := some owner, ended := some (.acquired owner) })
      | .error error => some (w.unstage p owner error)
  | .unstageFile owner error =>
      match w.files.unlinkOwner (.acquire owner.token) with
      | .ok files => some ((w.withFiles files).goto p (.unstageDir owner error))
      | .error _ => some (w.goto p (.unstageDir owner error))
  | .unstageDir owner error =>
      -- `force` forgives that there is nothing to remove
      let w' := match w.files.rmdir (.acquire owner.token) with
        | .ok files => w.withFiles files
        | .error _ => w
      if error = .exists ∨ error = .notEmpty then some (w'.goto p .observe)
      else some (w'.finish p .acquireThrew)
  | .observe =>
      match w.files.readOwner .lock with
      | .ok observed => some (w.goto p (.observedAlive observed))
      | .error .noEntry => some (w.goto p .acquireLoop)
      | .error _ => some (w.finish p .acquireThrew)
  | .observedAlive observed =>
      if w.ownerIsDeadOnThisHost hostname observed then some (w.goto p (.reclaimMkdir observed))
      else some (w.retry p draw)
  | _ => none

/-- The next step of `reclaimDeadOwner`. -/
def reclaimStep (hostname : String) (w : World) (p : ℕ) (draw : Draw) : Call → Option World
  | .reclaimMkdir observed =>
      match w.files.mkdir .reclaim with
      | .ok files => some ((w.withFiles files).goto p (.reclaimRead observed))
      | .error _ => some (w.retry p draw)
  | .reclaimRead observed =>
      match w.files.readOwner .lock with
      | .ok current =>
          if current = observed then some (w.goto p (.reclaimAlive current))
          else some (w.goto p (.reclaimFinally .refused))
      | .error _ => some (w.goto p (.reclaimFinally .threw))
  | .reclaimAlive current =>
      if w.ownerIsDeadOnThisHost hostname current then some (w.goto p (.reclaimRename current))
      else some (w.goto p (.reclaimFinally .refused))
  | .reclaimRename current =>
      match w.files.rename .lock (.dead current.token) with
      | .ok files => some ((w.withFiles files).goto p (.reclaimMoved current))
      | .error _ => some (w.goto p (.reclaimFinally .threw))
  | .reclaimMoved current =>
      match w.files.readOwner (.dead current.token) with
      | .ok moved =>
          if moved.token = current.token then some (w.goto p (.reclaimUnlink current))
          else some (w.goto p (.reclaimExists current))
      | .error _ => some (w.goto p (.reclaimFinally .threw))
  | .reclaimExists current =>
      if w.files .lock = none then some (w.goto p (.reclaimRestore current))
      else some (w.goto p (.reclaimFinally .threw))
  | .reclaimRestore current =>
      match w.files.rename (.dead current.token) .lock with
      | .ok files => some ((w.withFiles files).goto p (.reclaimFinally .threw))
      | .error _ => some (w.goto p (.reclaimFinally .threw))
  | .reclaimUnlink current =>
      match w.files.unlinkOwner (.dead current.token) with
      | .ok files => some ((w.withFiles files).goto p (.reclaimRmdir current))
      | .error _ => some (w.goto p (.reclaimFinally .threw))
  | .reclaimRmdir current =>
      match w.files.rmdir (.dead current.token) with
      | .ok files => some ((w.withFiles files).goto p (.reclaimFinally .reclaimed))
      | .error _ => some (w.goto p (.reclaimFinally .threw))
  | .reclaimFinally outcome =>
      let w' := match w.files.rmdir .reclaim with
        | .ok files => w.withFiles files
        | .error _ => w
      match outcome with
      | .threw => some (w'.finish p .acquireThrew)
      | .refused => some (w'.retry p draw)
      | .reclaimed => some (w'.goto p .acquireLoop)
  | _ => none

/-- The next step of `releaseEnvelopeLock`. -/
def releaseStep (w : World) (p : ℕ) : Call → Option World
  | .releaseRead owner =>
      match w.files.readOwner .lock with
      | .ok current =>
          if current.sameHolder owner then some (w.goto p (.releaseRename owner))
          else some (w.finish p .releaseThrew)
      | .error _ => some (w.finish p .releaseThrew)
  | .releaseRename owner =>
      match w.files.rename .lock (.release owner.token) with
      | .ok files => some ((w.withFiles files).setProcess p
          { w.processes p with call := .releaseMoved owner, held := none })
      | .error _ => some (w.finish p .releaseThrew)
  | .releaseMoved owner =>
      match w.files.readOwner (.release owner.token) with
      | .ok moved =>
          if moved.sameHolder owner then some (w.goto p (.releaseUnlink owner))
          else some (w.goto p (.releaseExists owner))
      | .error _ => some (w.finish p .releaseThrew)
  | .releaseExists owner =>
      if w.files .lock = none then some (w.goto p (.releaseRestore owner))
      else some (w.finish p .releaseThrew)
  | .releaseRestore owner =>
      match w.files.rename (.release owner.token) .lock with
      | .ok files => some ((w.withFiles files).finish p .releaseThrew)
      | .error _ => some (w.finish p .releaseThrew)
  | .releaseUnlink owner =>
      match w.files.unlinkOwner (.release owner.token) with
      | .ok files => some ((w.withFiles files).goto p (.releaseRmdir owner))
      | .error _ => some (w.finish p .releaseThrew)
  | .releaseRmdir owner =>
      match w.files.rmdir (.release owner.token) with
      | .ok files => some ((w.withFiles files).finish p .released)
      | .error _ => some (w.finish p .releaseThrew)
  | _ => none

/-- The next step of the call of `p`. -/
def callStep (hostname : String) (w : World) (p : ℕ) (draw : Draw) : Option World :=
  let call := (w.processes p).call
  (w.acquireStep hostname p draw call).or
    ((w.reclaimStep hostname p draw call).or (w.releaseStep p call))

end World

/-- A call begins, goes on by one step, or its process crashes. -/
inductive LockAction where
  | acquire (p : ℕ)
  | release (p : ℕ) (owner : Owner)
  | run (p : ℕ) (draw : Draw)
  | crash (p : ℕ)

def LockAction.pid : LockAction → ℕ
  | acquire p | release p _ | run p _ | crash p => p

/-- The processes of one host.  A process releases with an owner record of its own. -/
def lockSystem (hostname : String) : System World LockAction where
  init w := w = ⟨fun _ => none, fun _ => {}, fun _ => none⟩
  step w action :=
    if (w.processes action.pid).alive then
      match action with
      | .acquire p => if (w.processes p).call = .idle then some (w.goto p .acquireLoop) else none
      | .release p owner =>
          if (w.processes p).call = .idle ∧ owner.pid = p then some (w.goto p (.releaseRead owner))
          else none
      | .run p draw => w.callStep hostname p draw
      | .crash p => some (w.setProcess p { w.processes p with alive := false, call := .idle })
    else none

end P42Prizes.EnvelopeLock
