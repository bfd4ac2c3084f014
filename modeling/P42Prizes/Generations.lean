import P42Prizes.JsonText
import P42Prizes.Passes
import P42Prizes.Reverting
import P42Prizes.Systems

/-! # The generations of the checkpoint

The indexer publishes every checkpoint as a generation: a directory that holds the checkpoint, the archive
it was made from and a record that binds both to the generation before it.  `current.json` points at the
generation that is accepted.  A publisher holds a lock, is given the directory of a candidate, its stage,
and may stop before any write.

The publisher synchronises what it writes; a synchronisation changes no file, and is not modelled.  The
value of a JSON file stands for the file, and an entry of a directory that nothing reads is left out. -/

namespace P42Prizes.Generations

open JsonText Passes Reverting
export JsonText (Bytes ascii)

/-! ### Files -/

/-- The name of an entry of a directory. -/
structure Name where
  text : Bytes
  ne_nil : text ≠ []
  no_null : 0 ∉ text
  no_slash : 47 ∉ text

instance : DecidableEq Name := fun name name' =>
  decidable_of_iff (name.text = name'.text) (by cases name; cases name'; simp)

/-- What is at a path of an archive.  The entries of a directory are in the order of their names. -/
inductive Entry where
  | file (bytes : Bytes)
  | directory (entries : List (Name × Entry))
  | symbolicLink (toDirectory : Bool)
  | unsupported

def Entry.isDirectory : Entry → Bool
  | .directory _ => true
  | _ => false

/-- What `statSync` says, which follows a link. -/
def Entry.leadsToDirectory : Entry → Bool
  | .directory _ => true
  | .symbolicLink toDirectory => toDirectory
  | _ => false

inductive GenerationSchema where
  | v2 | v3
deriving DecidableEq, Repr

/-- `generation.json` -/
structure Metadata where
  schemaVersion : GenerationSchema
  generationId : Bytes
  archiveSha256 : Bytes
  checkpointSha256 : Bytes
  previousGenerationId : Option Bytes
deriving DecidableEq

inductive Condition where
  | corrupt | missing
deriving DecidableEq, Repr

def Condition.text : Condition → Bytes
  | corrupt => ascii "corrupt"
  | missing => ascii "missing"

/-- `recovery.json` -/
structure Recovery where
  acceptedGenerationId : Bytes
  condition : Condition
  previousGenerationId : Option Bytes
  replacedStorageId : Bytes
deriving DecidableEq

/-- The directory of a generation or of a candidate; a file that does not have the form it is read in
is absent. -/
structure Directory where
  checkpoint : Option Json := none
  archive : Option Entry := none
  generation : Option Metadata := none
  recovery : Option Recovery := none

inductive PointerSchema where
  | v1 | v2 | v3
deriving DecidableEq, Repr

/-- `current.json`; the first version has no storage id, and only the last one names a predecessor. -/
structure Pointer where
  schemaVersion : PointerSchema
  generationId : Bytes
  storageId : Option Bytes
  previousGenerationId : Option (Option Bytes)
  checkpointPath : Bytes
  archivePath : Bytes
deriving DecidableEq

/-- The publication root, and the stage of the publisher. -/
structure Root where
  current : Option Pointer := none
  generations : Bytes → Option Directory := fun _ => none
  quarantine : Bytes → Option Directory := fun _ => none
  stage : Option Directory := none

/-! ### Errors -/

inductive GenerationError where
  | unreadable | notObject | unsupportedSchema | rejectedByValidator | incompleteReconstruction
  | schemaChanged | bindingChanged | rangeRegression | conflictingHash | nonDeterministic
  | archiveAbsent | archiveMismatch | symbolicLink | unsupportedEntry
  | invalidPointer | unboundHeight | unboundPredecessor | invalidMetadata | invalidRecovery
  | legacyUnrepairable | recoveryMismatch | checkpointMismatch
  | mismatchedTypes | mismatchedBytes | mismatchedFiles | missingPath | occupiedPath
deriving DecidableEq, Repr

/-! ### Texts -/

def digit (c : Char) : UInt8 := UInt8.ofNat c.toNat

def decimal (n : ℕ) : Bytes := (Nat.toDigits 10 n).map digit

/-- `String(n).padStart(16, "0")` -/
def padded (n : ℕ) : Bytes := List.replicate (16 - (decimal n).length) 48 ++ decimal n

def isDigit (b : UInt8) : Bool := 48 ≤ b && b ≤ 57
def isLowerHex (b : UInt8) : Bool := isDigit b || (97 ≤ b && b ≤ 102)

/-- `Number(text)` of digits -/
def number (text : Bytes) : ℕ :=
  Nat.ofDigitChars 10 (text.map (fun b => Char.ofNat b.toNat)) 0

/-- `/^\d{16}-[0-9a-f]{64}$/` -/
def isGenerationId (text : Bytes) : Bool :=
  text.length = 81 && (text.take 16).all isDigit && (text.drop 16).head? = some 45 &&
    (text.drop 17).all isLowerHex

/-- A text that is its own `basename`. -/
def isBasename (text : Bytes) : Bool := !text.contains 47

/-- `text.includes("-recovery-")` -/
def isRecovery (text : Bytes) : Bool := text.tails.any (fun tail => (ascii "-recovery-").isPrefixOf tail)

def optional : Option Bytes → Json
  | none => .null
  | some text => .string text

def checkpointPath (storageId : Bytes) : Bytes :=
  ascii "generations/" ++ storageId ++ ascii "/checkpoint.json"

def archivePath (storageId : Bytes) : Bytes := ascii "generations/" ++ storageId ++ ascii "/archive"

/-! ### Checkpoints -/

/-- The field of `checkpoint.range`. -/
def rangeField (key : String) (checkpoint : Json) : Option Json :=
  (checkpoint.member (ascii "range")).bind (Json.member (ascii key))

/-- A number that is written with digits only. -/
def natural : Json → Option ℕ
  | .number n => if n.text.all isDigit then some (number n.text) else none
  | _ => none

/-- `checkpoint.range.toBlock` of a checkpoint that the validator accepts -/
def toBlock (checkpoint : Json) : ℕ := ((rangeField "toBlock" checkpoint).bind natural).getD 0

def lower (b : UInt8) : UInt8 := if 65 ≤ b && b ≤ 90 then b + 32 else b

/-- `checkpoint.range.toBlockHash.toLowerCase()` -/
def toBlockHash (checkpoint : Json) : Option Bytes :=
  match rangeField "toBlockHash" checkpoint with
  | some (.string text) => some (text.map lower)
  | _ => none

/-- `stableStringify` of a field -/
def fieldText (key : String) (checkpoint : Json) : Option Bytes :=
  (checkpoint.member (ascii key)).map Json.stringify

def checkpointSchemas : List Bytes :=
  [ascii "p42-prizes/indexer-checkpoint/v2", ascii "p42-prizes/indexer-checkpoint/v3",
    ascii "p42-prizes/indexer-checkpoint/v4"]

inductive DecisionKind where
  | advance | unchanged
deriving DecidableEq, Repr

structure Decision where
  decision : DecisionKind
  priorBlock : Option ℕ
  nextBlock : ℕ
deriving DecidableEq, Repr

/-- `monotonicCheckpointDecision` -/
def monotonicCheckpointDecision (candidate : Json) :
    Option Json → Except GenerationError Decision
  | none => pure ⟨.advance, none, toBlock candidate⟩
  | some current => do
      revertIf (fieldText "schema" candidate ≠ fieldText "schema" current) .schemaChanged
      revertIf (fieldText "manifestBinding" candidate ≠ fieldText "manifestBinding" current)
        .bindingChanged
      revertIf (toBlock candidate < toBlock current) .rangeRegression
      if toBlock candidate = toBlock current then do
        revertIf (toBlockHash candidate ≠ toBlockHash current) .conflictingHash
        revertIf (candidate.stringify ≠ current.stringify) .nonDeterministic
        pure ⟨.unchanged, some (toBlock current), toBlock candidate⟩
      else pure ⟨.advance, some (toBlock current), toBlock candidate⟩

/-! ### The tree of an archive -/

/-- The path of an entry of the directory at `relative`. -/
def joined (relative : Bytes) (name : Name) : Bytes :=
  if relative = [] then name.text else relative ++ 47 :: name.text

mutual

/-- What is hashed of an entry and of all that is below it. -/
def visit (relative : Bytes) : Entry → Except GenerationError Bytes
  | .symbolicLink _ => .error .symbolicLink
  | .unsupported => .error .unsupportedEntry
  | .file bytes =>
      pure (ascii "file" ++ 0 :: (relative ++ 0 :: (decimal bytes.length ++ 0 :: bytes)))
  | .directory entries => do
      let below ← visitAll relative entries
      pure (ascii "directory" ++ 0 :: (relative ++ 0 :: below))

def visitAll (relative : Bytes) : List (Name × Entry) → Except GenerationError Bytes
  | [] => pure []
  | (name, entry) :: rest => do
      let first ← visit (joined relative name) entry
      let others ← visitAll relative rest
      pure (first ++ others)

end

mutual

/-- `assertMatchingGenerationTrees` -/
def assertMatchingGenerationTrees : Entry → Entry → Except GenerationError Unit
  | .file left, .file right => if left = right then pure () else .error .mismatchedBytes
  | .directory left, .directory right => do
      revertIf (left.map Prod.fst ≠ right.map Prod.fst) .mismatchedFiles
      assertMatchingEntries left right
  | .unsupported, .unsupported => .error .unsupportedEntry
  | _, _ => .error .mismatchedTypes

def assertMatchingEntries : List (Name × Entry) → List (Name × Entry) → Except GenerationError Unit
  | (_, left) :: lefts, (_, right) :: rights => do
      assertMatchingGenerationTrees left right
      assertMatchingEntries lefts rights
  | _, _ => pure ()

end

/-! ### The service -/

/-- What the publisher is given: the hash, the validator of checkpoints, and the text that a file with a
value has when its bytes are canonical. -/
structure Service where
  sha256 : Bytes → Bytes
  validator : Json → Bool
  canonicalJson : Json → Bytes

/-- The publication as the pointer describes it. -/
structure Accepted where
  schemaVersion : PointerSchema
  generationId : Bytes
  storageId : Bytes
  previousGenerationId : Option Bytes
deriving DecidableEq

/-- `readCurrentGeneration`: a generation that is validated, or one that is damaged. -/
inductive Current where
  | validated (pointer : Accepted) (checkpoint : Json) (metadata : Metadata)
  | damaged (pointer : Accepted) (acceptedHeight : ℕ)

def Current.pointer : Current → Accepted
  | validated pointer _ _ => pointer
  | damaged pointer _ => pointer

structure Published where
  decision : Decision
  checkpoint : Json
  generationId : Bytes
  storageId : Bytes

namespace Service

variable (svc : Service)

/-- `validatePublicationCheckpoint` of a file that was read -/
def validatePublicationCheckpoint (checkpoint : Option Json) : Except GenerationError Json :=
  match checkpoint with
  | none => .error .unreadable
  | some (.object members) => do
      let checkpoint := Json.object members
      revertIf (∀ schema ∈ checkpointSchemas, fieldText "schema" checkpoint ≠ some (quote schema))
        .unsupportedSchema
      revertIf (svc.validator checkpoint = false) .rejectedByValidator
      let reconstruction := checkpoint.member (ascii "reconstruction")
      revertIf (reconstruction.bind (fieldText "complete") ≠ some (ascii "true") ∨
        reconstruction.bind (fieldText "ok") ≠ some (ascii "true")) .incompleteReconstruction
      pure checkpoint
  | some _ => .error .notObject

/-- `archiveTreeDigest` -/
def archiveTreeDigest (archive : Option Entry) : Except GenerationError Bytes :=
  match archive with
  | none => .error .missingPath
  | some entry => do
      let bytes ← visit [] entry
      pure (svc.sha256 bytes)

/-- What is hashed for the id of a generation. -/
def identityText (checkpoint : Json) (archiveSha256 : Bytes) (previousGenerationId : Option Bytes) :
    Bytes :=
  Json.stringify (.object (.ofList [(ascii "archive_sha256", .string archiveSha256),
    (ascii "checkpoint", checkpoint),
    (ascii "previous_generation_id", optional previousGenerationId)]))

/-- `generationId` -/
def generationId (checkpoint : Json) (archiveSha256 : Bytes) (previousGenerationId : Option Bytes) :
    Bytes :=
  padded (toBlock checkpoint) ++ 45 ::
    svc.sha256 (identityText checkpoint archiveSha256 previousGenerationId)

/-- The id that earlier versions gave. -/
def legacyGenerationId (checkpoint : Json) (archiveSha256 : Bytes) : Bytes :=
  padded (toBlock checkpoint) ++ 45 :: svc.sha256 (checkpoint.stringify ++ 0 :: archiveSha256)

/-- What is hashed of a recovery. -/
def recoveryText (recovery : Recovery) : Bytes :=
  Json.stringify (.object (.ofList
    [(ascii "accepted_generation_id", .string recovery.acceptedGenerationId),
      (ascii "condition", .string recovery.condition.text),
      (ascii "previous_generation_id", optional recovery.previousGenerationId),
      (ascii "replaced_storage_id", .string recovery.replacedStorageId),
      (ascii "schema_version", .string (ascii "p42-indexer-generation-recovery/v1"))]))

/-- The directory that a recovery of the generation `id` is stored in. -/
def recoveryStorageId (id : Bytes) (recovery : Recovery) : Bytes :=
  id ++ ascii "-recovery-" ++ svc.sha256 (recoveryText recovery)

def checkpointSha256 (checkpoint : Json) : Bytes := svc.sha256 (svc.canonicalJson checkpoint ++ [10])

/-- `validateGenerationDirectory` -/
def validateGenerationDirectory (directory : Directory) (id storageId : Bytes) (legacy : Bool) :
    Except GenerationError (Json × Metadata) :=
  match directory.generation with
  | none => .error .unreadable
  | some metadata => do
      let checkpoint ← svc.validatePublicationCheckpoint directory.checkpoint
      let archiveSha256 ← svc.archiveTreeDigest directory.archive
      revertIf (metadata.schemaVersion ≠ (if legacy then .v2 else .v3) ∨
        metadata.generationId ≠ id ∨
        (∃ previous ∈ metadata.previousGenerationId, isBasename previous = false) ∨
        metadata.checkpointSha256 ≠ svc.checkpointSha256 checkpoint ∨
        metadata.archiveSha256 ≠ archiveSha256 ∨
        (if legacy then svc.legacyGenerationId checkpoint archiveSha256
          else svc.generationId checkpoint archiveSha256 metadata.previousGenerationId) ≠ id ∨
        directory.archive.any Entry.isDirectory = false) .invalidMetadata
      if storageId = id then pure (checkpoint, metadata)
      else match directory.recovery with
        | none => .error .unreadable
        | some recovery => do
            revertIf (recovery.acceptedGenerationId ≠ id ∨
              recovery.previousGenerationId ≠ metadata.previousGenerationId ∨
              isBasename recovery.replacedStorageId = false ∨
              storageId ≠ svc.recoveryStorageId id recovery) .invalidRecovery
            pure (checkpoint, metadata)

/-- `readCurrentGeneration` -/
def readCurrentGeneration (root : Root) : Except GenerationError (Option Current) :=
  match root.current with
  | none => pure none
  | some current => do
      let storageId := current.storageId.getD current.generationId
      let legacy := decide (current.schemaVersion ≠ .v3)
      revertIf (current.storageId.isNone ≠ decide (current.schemaVersion = .v1) ∨
        current.previousGenerationId.isSome ≠ decide (current.schemaVersion = .v3) ∨
        (∃ previous ∈ current.previousGenerationId.join, isBasename previous = false) ∨
        isBasename current.generationId = false ∨ isBasename storageId = false ∨
        current.checkpointPath ≠ checkpointPath storageId ∨
        current.archivePath ≠ archivePath storageId) .invalidPointer
      revertIf (isGenerationId current.generationId = false) .unboundHeight
      let pointer (previous : Option Bytes) : Accepted :=
        ⟨current.schemaVersion, current.generationId, storageId, previous⟩
      let validated : Except GenerationError Current := do
        let directory ← match root.generations storageId with
          | none => .error .missingPath
          | some directory => .ok directory
        let (checkpoint, metadata) ←
          svc.validateGenerationDirectory directory current.generationId storageId legacy
        revertIf (legacy = false ∧ some metadata.previousGenerationId ≠ current.previousGenerationId)
          .unboundPredecessor
        revertIf (current.generationId.take 17 ≠ padded (toBlock checkpoint) ++ [45]) .unboundHeight
        pure (.validated (pointer metadata.previousGenerationId) checkpoint metadata)
      match validated with
      | .ok read => pure (some read)
      | .error _ => pure (some (.damaged (pointer current.previousGenerationId.join)
          (number (current.generationId.take 16))))

/-- What is decided of a candidate: the decision, the candidate, the digest of its archive and the id of
its generation. -/
structure Plan where
  decision : Decision
  candidate : Json
  archiveSha256 : Bytes
  id : Bytes

/-- The decision of `publishGenerationSync`; when it fails the candidate is put in quarantine. -/
def decideGeneration (current : Option Current) (stage : Directory) : Except GenerationError Plan := do
  let candidate ← svc.validatePublicationCheckpoint stage.checkpoint
  revertIf (stage.archive.any Entry.leadsToDirectory = false) .archiveAbsent
  let archiveSha256 ← svc.archiveTreeDigest stage.archive
  match current with
  | some (.damaged pointer acceptedHeight) => do
      revertIf (pointer.schemaVersion ≠ .v3) .legacyUnrepairable
      let id := svc.generationId candidate archiveSha256 pointer.previousGenerationId
      revertIf (toBlock candidate ≠ acceptedHeight ∨ id ≠ pointer.generationId) .recoveryMismatch
      pure ⟨⟨.unchanged, some acceptedHeight, toBlock candidate⟩, candidate, archiveSha256, id⟩
  | some (.validated pointer checkpoint metadata) => do
      let decision ← monotonicCheckpointDecision candidate (some checkpoint)
      let previousGenerationId := match decision.decision with
        | .unchanged => metadata.previousGenerationId
        | .advance => some pointer.generationId
      let id := svc.generationId candidate archiveSha256 previousGenerationId
      revertIf (decision.decision = .unchanged ∧ id ≠ pointer.generationId) .archiveMismatch
      pure ⟨decision, candidate, archiveSha256, id⟩
  | none => do
      let decision ← monotonicCheckpointDecision candidate none
      pure ⟨decision, candidate, archiveSha256, svc.generationId candidate archiveSha256 none⟩

/-! ### Writes -/

abbrev Publication := Pass Root GenerationError

/-- A file is written in the stage. -/
def writeStage (f : Directory → Directory) : Publication Unit :=
  Pass.write (fun root =>
    match root.stage with
    | none => (.error .missingPath, root)
    | some stage => (.ok (), { root with stage := some (f stage) }))

/-- A stage that is removed in part is like one that another publisher left. -/
def removeStage : Publication Unit := Pass.write (fun root => (.ok (), { root with stage := none }))

/-- The stage is renamed to a generation. -/
def renameStage (storageId : Bytes) : Publication Unit :=
  Pass.write (fun root =>
    match root.stage with
    | none => (.error .missingPath, root)
    | some stage => (.ok (), { root with
        generations := Function.update root.generations storageId (some stage)
        stage := none }))

/-- `quarantineStage`; the reason that is written into the stage is not modelled. -/
def quarantineStage (rejected : Bytes) : Publication Unit := do
  writeStage id
  Pass.write (fun root =>
    if (root.quarantine rejected).isSome then (.error .occupiedPath, root)
    else (.ok (), { root with
      quarantine := Function.update root.quarantine rejected root.stage
      stage := none }))

/-- Where a generation is put that `acceptedStorageId` replaces. -/
def replacedPath (replacedStorageId acceptedStorageId : Bytes) : Bytes :=
  ascii "replaced-generation-" ++ svc.sha256 (Json.stringify (.object (.ofList
    [(ascii "accepted", .string acceptedStorageId), (ascii "replaced", .string replacedStorageId)])))

/-- `quarantineReplacedGeneration` -/
def quarantineReplacedGeneration (acceptedStorageId : Bytes) : Publication Unit :=
  if isRecovery acceptedStorageId = false then pure ()
  else do
    let root ← Pass.get
    let recovery ← Pass.observe .unreadable
      ((root.generations acceptedStorageId).bind Directory.recovery)
    let quarantined := svc.replacedPath recovery.replacedStorageId acceptedStorageId
    if (root.generations recovery.replacedStorageId).isNone ∨ (root.quarantine quarantined).isSome then
      pure ()
    else Pass.write (fun root => (.ok (), { root with
      generations := Function.update root.generations recovery.replacedStorageId none
      quarantine := Function.update root.quarantine quarantined
        (root.generations recovery.replacedStorageId) }))

def writePointer (pointer : Pointer) : Publication Unit :=
  Pass.write (fun root => (.ok (), { root with current := some pointer }))

/-! ### Publication -/

/-- The generation at a destination is the one that is regenerated in the stage. -/
def matchDestination (directory : Directory) (stage : Directory) (plan : Plan) (storageId : Bytes) :
    Except GenerationError Unit := do
  let (checkpoint, _) ← svc.validateGenerationDirectory directory plan.id storageId false
  revertIf (checkpoint.stringify ≠ plan.candidate.stringify) .checkpointMismatch
  match directory.archive, stage.archive with
  | some left, some right => assertMatchingGenerationTrees left right
  | _, _ => .error .missingPath

/-- The recovery of a damaged generation. -/
def recoveryOf (root : Root) (plan : Plan) : Option Current → Option Recovery
  | some (.damaged pointer _) => some
      { acceptedGenerationId := plan.id
        condition := if (root.generations pointer.storageId).isSome then .corrupt else .missing
        previousGenerationId := pointer.previousGenerationId
        replacedStorageId := pointer.storageId }
  | _ => none

/-- The directory that a candidate is published in. -/
def storageIdOf (plan : Plan) (current : Option Current) (recovery : Option Recovery) : Bytes :=
  match recovery, current with
  | some recovery, _ => svc.recoveryStorageId plan.id recovery
  | none, some current =>
      if plan.decision.decision = .unchanged then current.pointer.storageId else plan.id
  | none, none => plan.id

/-- The predecessor that a publication names. -/
def predecessorOf (plan : Plan) (current : Option Current) : Option Bytes :=
  current.bind (fun current =>
    if plan.decision.decision = .unchanged then current.pointer.previousGenerationId
    else some current.pointer.generationId)

def metadataOf (plan : Plan) (current : Option Current) : Metadata where
  schemaVersion := .v3
  generationId := plan.id
  archiveSha256 := plan.archiveSha256
  checkpointSha256 := svc.checkpointSha256 plan.candidate
  previousGenerationId := predecessorOf plan current

def pointerOf (plan : Plan) (current : Option Current) (storageId : Bytes) : Pointer where
  schemaVersion := .v3
  generationId := plan.id
  storageId := some storageId
  previousGenerationId := some (predecessorOf plan current)
  checkpointPath := checkpointPath storageId
  archivePath := archivePath storageId

def isExactRetry (plan : Plan) : Option Current → Bool
  | some (.validated _ _ _) => plan.decision.decision = .unchanged
  | _ => false

def writeRecovery : Option Recovery → Publication Unit
  | none => pure ()
  | some recovery => writeStage (fun stage => { stage with recovery := some recovery })

/-- The candidate is the generation that is accepted. -/
def confirm (root : Root) (stage : Directory) (plan : Plan) (storageId : Bytes) : Publication Unit := do
  let directory ← Pass.observe .missingPath (root.generations storageId)
  Pass.ofExcept (svc.matchDestination directory stage plan storageId)
  removeStage
  svc.quarantineReplacedGeneration storageId

/-- The stage is moved to where its generation is stored, if it is not there already. -/
def placeStage (root : Root) (stage : Directory) (plan : Plan) (storageId : Bytes) : Publication Unit :=
  match root.generations storageId with
  | some directory => do
      Pass.ofExcept (svc.matchDestination directory stage plan storageId)
      removeStage
  | none => renameStage storageId

/-- The candidate becomes the generation that is accepted. -/
def accept (root : Root) (stage : Directory) (plan : Plan) (current : Option Current)
    (storageId : Bytes) : Publication Unit := do
  svc.placeStage root stage plan storageId
  writePointer (pointerOf plan current storageId)
  match current with
  | some (.damaged pointer _) =>
      if pointer.storageId ≠ storageId then svc.quarantineReplacedGeneration storageId else pure ()
  | _ => pure ()

/-- The publication of a candidate that is not rejected. -/
def publishPlan (plan : Plan) (current : Option Current) : Publication Published := do
  let root ← Pass.get
  let recovery := recoveryOf root plan current
  let storageId := svc.storageIdOf plan current recovery
  writeRecovery recovery
  writeStage (fun stage => { stage with generation := some (svc.metadataOf plan current) })
  let root ← Pass.get
  let stage ← Pass.observe .missingPath root.stage
  let _ ← Pass.ofExcept (svc.validateGenerationDirectory stage plan.id
    (if isExactRetry plan current then plan.id else storageId) false)
  (if isExactRetry plan current then svc.confirm root stage plan storageId
    else svc.accept root stage plan current storageId)
  pure ⟨plan.decision, plan.candidate, plan.id, storageId⟩

/-- `publishGenerationSync`, by a publisher that holds its lock -/
def publishGenerationSync (rejected : Bytes) : Publication Published := do
  let root ← Pass.get
  let current ← Pass.ofExcept (svc.readCurrentGeneration root)
  match svc.decideGeneration current (root.stage.getD {}) with
  | .error error => do
      quarantineStage rejected
      Pass.throw error
  | .ok plan => svc.publishPlan plan current

end Service

/-! ### Runs -/

inductive Act where
  /-- A publisher is given a candidate, and stops after so many writes. -/
  | publish (stage : Directory) (rejected : Bytes) (writes : ℕ)
  /-- Somebody else changes the directory of the accepted generation. -/
  | damage (directory : Option Directory)

namespace Service

variable (svc : Service)

def publish (root : Root) (stage : Directory) (rejected : Bytes) : ℕ →
    Except (Stop GenerationError) Published × Root × ℕ :=
  fun writes => svc.publishGenerationSync rejected ({ root with stage := some stage }, writes)

def step (root : Root) : Act → Option Root
  | .publish stage rejected writes => some (svc.publish root stage rejected writes).2.1
  | .damage directory =>
      root.current.map (fun pointer => { root with
        generations := Function.update root.generations
          (pointer.storageId.getD pointer.generationId) directory })

def publications : Transition.System Root Act where
  init root := root = {}
  step := svc.step

end Service

end P42Prizes.Generations
