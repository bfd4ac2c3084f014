import P42Prizes.GenerationTexts

/-! # One chain of generations

Every generation that is accepted is bound by its id to a checkpoint, an archive and a predecessor.  A
publication that is not rejected writes to its stage, moves it to where the generation is stored, writes
the pointer, and puts away the generation it replaces; so whatever write it stops before, the pointer
names a generation that is validated, or one that somebody else has damaged, and the next publication of
the same bytes finds what is left to do. -/

namespace P42Prizes.Generations

open JsonText Passes Reverting Transition

/-! ### What is validated -/

section Validation

variable {svc : Service} {S : Set Bytes} {directory : Directory} {id storageId : Bytes}
  {checkpoint : Json} {metadata : Metadata}

theorem validatePublicationCheckpoint_eq_ok {file : Option Json}
    (h : svc.validatePublicationCheckpoint file = .ok checkpoint) :
    file = some checkpoint ∧ svc.validator checkpoint = true := by
  unfold Service.validatePublicationCheckpoint at h
  split at h
  · cases h
  · simp only [bind_eq_ok, revertIf_eq_ok, pure_eq_ok] at h
    obtain ⟨-, -, -, hvalid, -, -, rfl⟩ := h
    exact ⟨rfl, by simpa using hvalid⟩
  · cases h

theorem archiveTreeDigest_eq_ok {archive : Option Entry} {digest : Bytes}
    (h : svc.archiveTreeDigest archive = .ok digest) :
    ∃ entry stream, archive = some entry ∧ visit [] entry = .ok stream ∧ digest = svc.sha256 stream := by
  cases archive with
  | none => cases h
  | some entry =>
      obtain ⟨stream, hstream, hdigest⟩ := bind_eq_ok.mp h
      exact ⟨entry, stream, rfl, hstream, (pure_eq_ok.mp hdigest).symm⟩

/-- What `validateGenerationDirectory` asks of a directory. -/
structure Directory.Validated (svc : Service) (directory : Directory) (id storageId : Bytes)
    (checkpoint : Json) (metadata : Metadata) : Prop where
  generation : directory.generation = some metadata
  file : svc.validatePublicationCheckpoint directory.checkpoint = .ok checkpoint
  digest : svc.archiveTreeDigest directory.archive = .ok metadata.archiveSha256
  archive : directory.archive.any Entry.isDirectory = true
  schema : metadata.schemaVersion = .v3
  generationId : metadata.generationId = id
  previous : ∀ previous ∈ metadata.previousGenerationId, isBasename previous = true
  checkpointSha256 : metadata.checkpointSha256 = svc.checkpointSha256 checkpoint
  identity : id = svc.generationId checkpoint metadata.archiveSha256 metadata.previousGenerationId
  recovery : storageId = id ∨ ∃ recovery, directory.recovery = some recovery ∧
    recovery.acceptedGenerationId = id ∧ recovery.previousGenerationId = metadata.previousGenerationId ∧
      isBasename recovery.replacedStorageId = true ∧ storageId = svc.recoveryStorageId id recovery

theorem validateGenerationDirectory_eq_ok :
    svc.validateGenerationDirectory directory id storageId false = .ok (checkpoint, metadata) ↔
      directory.Validated svc id storageId checkpoint metadata := by
  unfold Service.validateGenerationDirectory
  constructor
  · intro h
    split at h
    · cases h
    rename_i metadata' hgeneration
    obtain ⟨checkpoint', hcheckpoint, h⟩ := bind_eq_ok.mp h
    obtain ⟨digest, hdigest, h⟩ := bind_eq_ok.mp h
    obtain ⟨_, hchecks, h⟩ := bind_eq_ok.mp h
    rw [revertIf_eq_ok] at hchecks
    simp only [not_or, not_not, not_exists, not_and, Bool.not_eq_false, if_neg Bool.false_ne_true] at hchecks
    obtain ⟨hschema, hid, hprevious, hsha, harchive, hidentity, hdirectory⟩ := hchecks
    have hrest : (checkpoint', metadata') = (checkpoint, metadata) ∧
        (storageId = id ∨ ∃ recovery, directory.recovery = some recovery ∧
          recovery.acceptedGenerationId = id ∧
            recovery.previousGenerationId = metadata'.previousGenerationId ∧
              isBasename recovery.replacedStorageId = true ∧
                storageId = svc.recoveryStorageId id recovery) := by
      split at h
      · rename_i hsame
        exact ⟨pure_eq_ok.mp h, .inl hsame⟩
      · split at h
        · cases h
        rename_i recovery hrecovery
        obtain ⟨_, hchecks, h⟩ := bind_eq_ok.mp h
        rw [revertIf_eq_ok] at hchecks
        simp only [not_or, not_not, Bool.not_eq_false] at hchecks
        exact ⟨pure_eq_ok.mp h, .inr ⟨recovery, hrecovery, hchecks⟩⟩
    obtain ⟨heq, hrecovery⟩ := hrest
    cases heq
    subst harchive
    exact ⟨hgeneration, hcheckpoint, hdigest, hdirectory, hschema, hid, hprevious, hsha, hidentity.symm,
      hrecovery⟩
  · intro h
    simp only [h.generation, h.file, h.digest, bind, Except.bind]
    rw [revertIf, if_neg]
    · rcases h.recovery with hsame | ⟨recovery, hrecovery, haccepted, hprevious, hbase, hstorage⟩
      · simp only [if_pos hsame]
        rfl
      · by_cases hsame : storageId = id
        · simp only [if_pos hsame]
          rfl
        · simp only [if_neg hsame, hrecovery]
          rw [revertIf, if_neg]
          · rfl
          · simp only [not_or, not_not, Bool.not_eq_false]
            exact ⟨haccepted, hprevious, hbase, hstorage⟩
    · simp only [not_or, not_not, not_exists, not_and, Bool.not_eq_false, if_neg Bool.false_ne_true]
      exact ⟨h.schema, h.generationId, h.previous, h.checkpointSha256, trivial, h.identity.symm, h.archive⟩

/-- What a generation holds, and the generation before it. -/
structure Content where
  checkpoint : Json
  archive : Entry
  previous : Option Bytes

/-- The id is that of the content, and what was hashed for it is in `S`. -/
structure Content.Bound (svc : Service) (S : Set Bytes) (x : Content) (id : Bytes) : Prop where
  valid : svc.validatePublicationCheckpoint (some x.checkpoint) = .ok x.checkpoint
  isDirectory : x.archive.isDirectory = true
  hashed : ∃ stream ∈ S, visit [] x.archive = .ok stream ∧
    Service.identityText x.checkpoint (svc.sha256 stream) x.previous ∈ S ∧
      id = svc.generationId x.checkpoint (svc.sha256 stream) x.previous

theorem Content.Bound.block (hsvc : svc.Lawful) {x : Content} (h : x.Bound svc S id) :
    toBlock x.checkpoint < 10 ^ 16 := hsvc.toBlock_lt (validatePublicationCheckpoint_eq_ok h.valid).2

theorem Content.Bound.height (hsvc : svc.Lawful) {x : Content} (h : x.Bound svc S id) :
    number (id.take 16) = toBlock x.checkpoint := by
  obtain ⟨stream, -, -, -, rfl⟩ := h.hashed
  exact height_generationId (h.block hsvc)

theorem Content.Bound.length (hsvc : svc.Lawful) {x : Content} (h : x.Bound svc S id) :
    id.length = 81 := by
  obtain ⟨stream, -, -, -, rfl⟩ := h.hashed
  exact length_generationId hsvc (h.block hsvc)

/-- Without a collision an id is bound to one content. -/
theorem Content.Bound.unique (hsvc : svc.Lawful) (hS : Set.InjOn svc.sha256 S) {x y : Content}
    (hx : x.Bound svc S id) (hy : y.Bound svc S id) : x = y := by
  obtain ⟨stream, hmem, hvisit, hidentity, heq⟩ := hx.hashed
  obtain ⟨stream', hmem', hvisit', hidentity', heq'⟩ := hy.hashed
  have hids := heq.symm.trans heq'
  rw [Service.generationId, Service.generationId] at hids
  obtain ⟨-, hdigests⟩ := List.append_inj hids
    ((padded_length (hx.block hsvc)).trans (padded_length (hy.block hsvc)).symm)
  obtain ⟨hcheckpoint, hdigest, hprevious⟩ :=
    identityText_inj (hS hidentity hidentity' (List.cons.inj hdigests).2)
  have hstream : stream = stream' := hS hmem hmem' hdigest
  subst hstream
  have harchive := archive_eq hvisit hvisit'
  cases x
  cases y
  cases hcheckpoint
  cases hprevious
  cases harchive
  rfl

/-- What is hashed of a directory, where it is validated as a generation stored in `storageId`. -/
def Directory.HashedAt (svc : Service) (S : Set Bytes) (storageId : Bytes) (directory : Directory) : Prop :=
  ∀ id checkpoint metadata, directory.Validated svc id storageId checkpoint metadata →
    (∀ archive ∈ directory.archive, ∀ stream, visit [] archive = .ok stream → stream ∈ S) ∧
      Service.identityText checkpoint metadata.archiveSha256 metadata.previousGenerationId ∈ S ∧
        (storageId ≠ id → ∀ recovery ∈ directory.recovery, Service.recoveryText recovery ∈ S)

theorem Directory.Validated.bound (h : directory.Validated svc id storageId checkpoint metadata)
    (hhashed : directory.HashedAt svc S storageId) :
    ∃ archive, directory.archive = some archive ∧
      Content.Bound svc S ⟨checkpoint, archive, metadata.previousGenerationId⟩ id := by
  obtain ⟨hstream, hidentity, -⟩ := hhashed _ _ _ h
  obtain ⟨archive, stream, harchive, hvisit, hdigest⟩ := archiveTreeDigest_eq_ok h.digest
  obtain ⟨hfile, -⟩ := validatePublicationCheckpoint_eq_ok h.file
  refine ⟨archive, harchive, ?_, ?_, stream, hstream archive harchive stream hvisit, hvisit, ?_, ?_⟩
  · rw [← hfile]
    exact h.file
  · have hdirectory := h.archive
    rwa [harchive, Option.any_some] at hdirectory
  · rw [← hdigest]
    exact hidentity
  · rw [← hdigest]
    exact h.identity

end Validation

/-! ### What the pointer names -/

/-- The pointer names the generation with a content and the directory it is stored in. -/
structure Pointer.Names (svc : Service) (S : Set Bytes) (q : Pointer) (storageId : Bytes) (x : Content) :
    Prop where
  schema : q.schemaVersion = .v3
  storage : q.storageId = some storageId
  previous : q.previousGenerationId = some x.previous
  basename : ∀ previous ∈ x.previous, isBasename previous = true
  checkpointPath : q.checkpointPath = Generations.checkpointPath storageId
  archivePath : q.archivePath = Generations.archivePath storageId
  bound : x.Bound svc S q.generationId
  /-- A recovery is not stored where the generation is that it replaces. -/
  stored : storageId = q.generationId ∨ ∃ recovery, storageId = svc.recoveryStorageId q.generationId recovery ∧
    Service.recoveryText recovery ∈ S ∧ recovery.replacedStorageId ≠ storageId

/-- The generation that a pointer names is there, and validated. -/
def Root.Intact (svc : Service) (root : Root) (id storageId : Bytes) : Prop :=
  ∃ directory checkpoint metadata, root.generations storageId = some directory ∧
    directory.Validated svc id storageId checkpoint metadata

section Reading

variable {svc : Service} {S : Set Bytes} {root : Root} {q : Pointer} {storageId : Bytes} {x : Content}
  {directory : Directory} {metadata : Metadata}

theorem Content.Bound.basename (hsvc : svc.Lawful) {id : Bytes} (h : x.Bound svc S id) :
    isBasename id = true := by
  obtain ⟨stream, -, -, -, rfl⟩ := h.hashed
  exact isBasename_generationId hsvc

theorem Content.Bound.form (hsvc : svc.Lawful) {id : Bytes} (h : x.Bound svc S id) :
    isGenerationId id = true := by
  have hblock := h.block hsvc
  obtain ⟨stream, -, -, -, rfl⟩ := h.hashed
  exact isGenerationId_generationId hsvc hblock

theorem Content.Bound.take (hsvc : svc.Lawful) {id : Bytes} (h : x.Bound svc S id) :
    id.take 17 = padded (toBlock x.checkpoint) ++ [45] := by
  have hlength := padded_length (h.block hsvc)
  obtain ⟨stream, -, -, -, rfl⟩ := h.hashed
  rw [Service.generationId, List.take_append, hlength, List.take_of_length_le (by omega)]
  rfl

theorem Pointer.Names.storage_basename (hsvc : svc.Lawful) (h : q.Names svc S storageId x) :
    isBasename storageId = true := by
  rcases h.stored with rfl | ⟨recovery, rfl, -⟩
  · exact h.bound.basename hsvc
  · exact isBasename_recoveryStorageId hsvc (h.bound.basename hsvc)

/-- The directory that a pointer names begins with the height of its generation. -/
theorem Pointer.Names.height (hsvc : svc.Lawful) (h : q.Names svc S storageId x) :
    number (storageId.take 16) = toBlock x.checkpoint := by
  rw [← h.bound.height hsvc]
  rcases h.stored with rfl | ⟨recovery, rfl, -⟩
  · rfl
  · rw [take_recoveryStorageId (h.bound.length hsvc)]

/-- What the pointer checks before the directory is read. -/
theorem Pointer.Names.read (hsvc : svc.Lawful) (hq : root.current = some q)
    (h : q.Names svc S storageId x) :
    svc.readCurrentGeneration root =
      let pointer (previous : Option Bytes) : Accepted := ⟨.v3, q.generationId, storageId, previous⟩
      let validated : Except GenerationError Current := do
        let directory ← match root.generations storageId with
          | none => .error .missingPath
          | some directory => .ok directory
        let (checkpoint, metadata) ←
          svc.validateGenerationDirectory directory q.generationId storageId false
        revertIf (some metadata.previousGenerationId ≠ some x.previous) .unboundPredecessor
        revertIf (q.generationId.take 17 ≠ padded (toBlock checkpoint) ++ [45]) .unboundHeight
        pure (.validated (pointer metadata.previousGenerationId) checkpoint metadata)
      match validated with
      | .ok read => pure (some read)
      | .error _ => pure (some (.damaged (pointer x.previous) (toBlock x.checkpoint))) := by
  have hid := h.bound.basename hsvc
  have hbase := h.storage_basename hsvc
  have hheight := h.bound.height hsvc
  have hprevious : ¬ ∃ previous ∈ x.previous, isBasename previous = false := by
    rintro ⟨previous, hmem, hfalse⟩
    rw [h.basename previous hmem] at hfalse
    cases hfalse
  unfold Service.readCurrentGeneration
  rw [hq]
  simp only [h.schema, h.storage, h.previous, h.checkpointPath, h.archivePath, hid, hbase, hheight,
    h.bound.form hsvc, Option.getD_some, Option.join_some, Option.isNone_some,
    Option.isSome_some, ne_eq, not_true_eq_false, decide_false, decide_true, hprevious, reduceCtorEq,
    or_false, revertIf, if_false, true_and, Bool.true_eq_false]
  rfl

/-- The pointer reads as it was written, as long as its generation is intact. -/
theorem Pointer.Names.read_validated (hsvc : svc.Lawful) (hq : root.current = some q)
    (h : q.Names svc S storageId x) (hdirectory : root.generations storageId = some directory)
    (hvalid : directory.Validated svc q.generationId storageId x.checkpoint metadata)
    (hprevious : metadata.previousGenerationId = x.previous) :
    svc.readCurrentGeneration root = .ok (some
      (.validated ⟨.v3, q.generationId, storageId, x.previous⟩ x.checkpoint metadata)) := by
  rw [h.read hsvc hq]
  simp only [hdirectory, validateGenerationDirectory_eq_ok.mpr hvalid, hprevious, h.bound.take hsvc,
    ne_eq, not_true_eq_false, revertIf, if_false, bind, Except.bind, pure, Except.pure]

theorem Pointer.Names.read_damaged (hsvc : svc.Lawful) (hq : root.current = some q)
    (h : q.Names svc S storageId x) (hdamaged : ¬ root.Intact svc q.generationId storageId) :
    svc.readCurrentGeneration root = .ok (some
      (.damaged ⟨.v3, q.generationId, storageId, x.previous⟩ (toBlock x.checkpoint))) := by
  rw [h.read hsvc hq]
  cases hdirectory : root.generations storageId with
  | none => simp only [bind, Except.bind, pure, Except.pure]
  | some directory =>
      cases hvalid : svc.validateGenerationDirectory directory q.generationId storageId false with
      | error e => simp only [hvalid, bind, Except.bind, pure, Except.pure]
      | ok pair =>
          exact absurd ⟨directory, _, _, hdirectory, validateGenerationDirectory_eq_ok.mp hvalid⟩ hdamaged

/-- A generation that is validated where the pointer names it has the content that was accepted. -/
theorem Pointer.Names.content (hsvc : svc.Lawful) (hS : Set.InjOn svc.sha256 S)
    (h : q.Names svc S storageId x) (hhashed : directory.HashedAt svc S storageId) {checkpoint : Json}
    (hvalid : directory.Validated svc q.generationId storageId checkpoint metadata) :
    checkpoint = x.checkpoint ∧ directory.archive = some x.archive ∧
      metadata.previousGenerationId = x.previous := by
  obtain ⟨archive, harchive, hbound⟩ := hvalid.bound hhashed
  have hunique := hbound.unique hsvc hS h.bound
  rw [← hunique]
  exact ⟨rfl, harchive, rfl⟩

end Reading

/-! ### What is decided of a candidate -/

open Service (Plan predecessorOf recoveryOf isExactRetry pointerOf)

/-- What is read when the pointer names a content. -/
inductive Current.Reads (svc : Service) (S : Set Bytes) (root : Root) : Option Current → Prop
  | none (hq : root.current = none) : Reads svc S root none
  | validated {q : Pointer} {storageId : Bytes} {x : Content} {directory : Directory}
      {metadata : Metadata} (hq : root.current = some q) (names : q.Names svc S storageId x)
      (hdirectory : root.generations storageId = some directory)
      (valid : directory.Validated svc q.generationId storageId x.checkpoint metadata)
      (archive : directory.archive = some x.archive) (previous : metadata.previousGenerationId = x.previous) :
      Reads svc S root (some
        (.validated ⟨.v3, q.generationId, storageId, x.previous⟩ x.checkpoint metadata))
  | damaged {q : Pointer} {storageId : Bytes} {x : Content} (hq : root.current = some q)
      (names : q.Names svc S storageId x) (damaged : ¬ root.Intact svc q.generationId storageId) :
      Reads svc S root (some
        (.damaged ⟨.v3, q.generationId, storageId, x.previous⟩ (toBlock x.checkpoint)))

/-- A plan is made of the stage, and fits the generation that is accepted. -/
structure Decided (svc : Service) (current : Option Current) (stage : Directory) (plan : Plan) : Prop where
  file : svc.validatePublicationCheckpoint stage.checkpoint = .ok plan.candidate
  digest : svc.archiveTreeDigest stage.archive = .ok plan.archiveSha256
  archive : stage.archive.any Entry.isDirectory = true
  identity : plan.id = svc.generationId plan.candidate plan.archiveSha256 (predecessorOf plan current)
  /-- Nothing is accepted, or the candidate is accepted, or is of a later block. -/
  decision : match current with
    | none => plan.decision.decision = .advance
    | some (.damaged pointer height) => plan.decision.decision = .unchanged ∧
        toBlock plan.candidate = height ∧ plan.id = pointer.generationId
    | some (.validated pointer checkpoint _) =>
        plan.decision.decision = .unchanged ∧ plan.candidate = checkpoint ∧ plan.id = pointer.generationId ∨
          plan.decision.decision = .advance ∧ toBlock checkpoint < toBlock plan.candidate

section Deciding

variable {svc : Service} {S : Set Bytes} {root : Root} {current : Option Current} {stage stage' : Directory}
  {plan : Plan}

theorem monotonicCheckpointDecision_eq_ok {candidate checkpoint : Json} {decision : Decision}
    (h : monotonicCheckpointDecision candidate (some checkpoint) = .ok decision) :
    decision.decision = .unchanged ∧ candidate = checkpoint ∨
      decision.decision = .advance ∧ toBlock checkpoint < toBlock candidate := by
  simp only [monotonicCheckpointDecision, bind_eq_ok, revertIf_eq_ok] at h
  obtain ⟨-, -, -, -, -, hregression, h⟩ := h
  split at h
  · obtain ⟨-, -, h⟩ := bind_eq_ok.mp h
    obtain ⟨_, hsame, h⟩ := bind_eq_ok.mp h
    obtain rfl := pure_eq_ok.mp h
    rw [revertIf_eq_ok, not_not] at hsame
    exact .inl ⟨rfl, Json.stringify_injective hsame⟩
  · rename_i hblock
    obtain rfl := pure_eq_ok.mp h
    exact .inr ⟨rfl, by omega⟩

theorem monotonicCheckpointDecision_self (checkpoint : Json) :
    monotonicCheckpointDecision checkpoint (some checkpoint) =
      .ok ⟨.unchanged, some (toBlock checkpoint), toBlock checkpoint⟩ := by
  simp only [monotonicCheckpointDecision, ne_eq, not_true_eq_false, lt_irrefl, revertIf, if_false, if_true]
  rfl

/-- What is hashed of an archive is a file or a directory. -/
theorem isDirectory_of_leads {archive : Option Entry} {digest : Bytes}
    (hleads : archive.any Entry.leadsToDirectory = true) (hdigest : svc.archiveTreeDigest archive = .ok digest) :
    archive.any Entry.isDirectory = true := by
  obtain ⟨entry, stream, rfl, hvisit, -⟩ := archiveTreeDigest_eq_ok hdigest
  cases entry with
  | directory entries => rfl
  | file bytes => cases hleads
  | symbolicLink toDirectory => cases hvisit
  | unsupported => cases hleads

theorem decideGeneration_eq_ok (hcurrent : Current.Reads svc S root current)
    (h : svc.decideGeneration current stage = .ok plan) : Decided svc current stage plan := by
  unfold Service.decideGeneration at h
  obtain ⟨candidate, hcandidate, h⟩ := bind_eq_ok.mp h
  obtain ⟨_, hleads, h⟩ := bind_eq_ok.mp h
  obtain ⟨digest, hdigest, h⟩ := bind_eq_ok.mp h
  rw [revertIf_eq_ok, Bool.not_eq_false] at hleads
  have harchive := isDirectory_of_leads hleads hdigest
  cases hcurrent with
  | none hq =>
      obtain ⟨decision, hdecision, h⟩ := bind_eq_ok.mp h
      cases hdecision
      obtain rfl := pure_eq_ok.mp h
      exact ⟨hcandidate, hdigest, harchive, rfl, rfl⟩
  | validated hq names hdirectory valid _ hprevious =>
      obtain ⟨decision, hdecision, h⟩ := bind_eq_ok.mp h
      obtain ⟨_, hid, h⟩ := bind_eq_ok.mp h
      obtain rfl := pure_eq_ok.mp h
      rw [revertIf_eq_ok, not_and, not_not] at hid
      rcases monotonicCheckpointDecision_eq_ok hdecision with ⟨hkind, hsame⟩ | ⟨hkind, hlater⟩
      · refine ⟨hcandidate, hdigest, harchive, ?_, .inl ⟨hkind, hsame, hid hkind⟩⟩
        simp only [predecessorOf, Option.bind_some, hkind, if_true, Current.pointer, hprevious]
      · refine ⟨hcandidate, hdigest, harchive, ?_, .inr ⟨hkind, hlater⟩⟩
        simp only [predecessorOf, Option.bind_some, hkind, if_neg (show DecisionKind.advance ≠ .unchanged
          from fun h => by cases h), Current.pointer]
  | damaged hq names hdamaged =>
      obtain ⟨_, -, h⟩ := bind_eq_ok.mp h
      obtain ⟨_, hmatch, h⟩ := bind_eq_ok.mp h
      obtain rfl := pure_eq_ok.mp h
      rw [revertIf_eq_ok, not_or, not_not, not_not] at hmatch
      refine ⟨hcandidate, hdigest, harchive, ?_, rfl, hmatch.1, hmatch.2⟩
      simp only [predecessorOf, Option.bind_some, if_true, Current.pointer]

theorem decideGeneration_congr (hcheckpoint : stage.checkpoint = stage'.checkpoint)
    (harchive : stage.archive = stage'.archive) :
    svc.decideGeneration current stage = svc.decideGeneration current stage' := by
  unfold Service.decideGeneration
  rw [hcheckpoint, harchive]

/-- The stage, when all is written in it. -/
def finished (svc : Service) (root : Root) (current : Option Current) (plan : Plan) (stage : Directory) :
    Directory :=
  { stage with
    generation := some (svc.metadataOf plan current)
    recovery := (recoveryOf root plan current).or stage.recovery }

/-- Where the generation of a plan is stored. -/
abbrev target (svc : Service) (root : Root) (current : Option Current) (plan : Plan) : Bytes :=
  svc.storageIdOf plan current (recoveryOf root plan current)

theorem predecessor_basename (hsvc : svc.Lawful) (hcurrent : Current.Reads svc S root current) :
    ∀ previous ∈ predecessorOf plan current, isBasename previous = true := by
  intro previous hmem
  cases hcurrent with
  | none hq => cases hmem
  | validated hq names hdirectory valid harchive hprevious =>
      simp only [predecessorOf, Option.bind_some, Option.mem_def, Current.pointer] at hmem
      split at hmem
      · exact names.basename previous hmem
      · obtain rfl := Option.some.inj hmem
        exact names.bound.basename hsvc
  | damaged hq names hdamaged =>
      simp only [predecessorOf, Option.bind_some, Option.mem_def, Current.pointer] at hmem
      split at hmem
      · exact names.basename previous hmem
      · obtain rfl := Option.some.inj hmem
        exact names.bound.basename hsvc

/-- What is written in the stage is validated, as what it is checked as and where it is stored. -/
theorem finished_validated (hsvc : svc.Lawful) (hcurrent : Current.Reads svc S root current)
    (h : Decided svc current stage plan) (storageId : Bytes)
    (hstorage : storageId = plan.id ∨ isExactRetry plan current = false ∧ storageId = target svc root current plan) :
    (finished svc root current plan stage).Validated svc plan.id storageId plan.candidate
      (svc.metadataOf plan current) where
  generation := rfl
  file := h.file
  digest := h.digest
  archive := h.archive
  schema := rfl
  generationId := rfl
  previous := predecessor_basename hsvc hcurrent
  checkpointSha256 := rfl
  identity := h.identity
  recovery := by
    rcases hstorage with rfl | ⟨hretry, rfl⟩
    · exact .inl rfl
    cases hcurrent with
    | none hq => exact .inl rfl
    | validated hq names hdirectory valid harchive hprevious =>
        left
        have hkind : plan.decision.decision ≠ .unchanged := by simpa [isExactRetry] using hretry
        simp only [target, recoveryOf, Service.storageIdOf, if_neg hkind]
    | damaged hq names hdamaged =>
        right
        obtain ⟨hkind, -, -⟩ := h.decision
        refine ⟨_, rfl, rfl, ?_, names.storage_basename hsvc, rfl⟩
        simp only [Service.metadataOf, predecessorOf, Option.bind_some, hkind, if_true, Current.pointer]

end Deciding

/-! ### What a publication writes -/

/-- What is accepted is as it was. -/
structure Root.Same (root s : Root) : Prop where
  current : s.current = root.current
  generations : s.generations = root.generations

/-- The generation that the one in `storageId` replaces is put away, or not. -/
inductive Cleared (storageId : Bytes) (root : Root) : Root → Prop
  | same {s : Root} (same : root.Same s) : Cleared storageId root s
  | moved {s : Root} {directory : Directory} {recovery : Recovery} (hrecovery : isRecovery storageId = true)
      (hdirectory : root.generations storageId = some directory)
      (hreplaced : directory.recovery = some recovery) (current : s.current = root.current)
      (generations : s.generations = Function.update root.generations recovery.replacedStorageId none) :
      Cleared storageId root s

/-- A directory that the generation of a plan may be stored as: the stage, or one that matches it. -/
def Fitting (svc : Service) (root : Root) (current : Option Current) (plan : Plan) (stage : Directory)
    (directory : Directory) : Prop :=
  match root.generations (target svc root current plan) with
  | none => directory = finished svc root current plan stage
  | some found => directory = found ∧
      svc.matchDestination found stage plan (target svc root current plan) = .ok ()

/-- The roots that a publication of a plan stands in before a write, or in the end. -/
inductive Visited (svc : Service) (root : Root) (current : Option Current) (plan : Plan)
    (stage : Directory) : Root → Prop
  | kept {s : Root} (same : root.Same s) : Visited svc root current plan stage s
  | confirmed {s : Root} (hretry : isExactRetry plan current = true)
      (hcleared : Cleared (target svc root current plan) root s) : Visited svc root current plan stage s
  | placed {s : Root} {directory : Directory} (hretry : isExactRetry plan current = false)
      (hfit : Fitting svc root current plan stage directory)
      (hcurrent : s.current = root.current)
      (hgenerations : s.generations =
        Function.update root.generations (target svc root current plan) (some directory)) :
      Visited svc root current plan stage s
  | accepted {s s' : Root} {directory : Directory} (hretry : isExactRetry plan current = false)
      (hfit : Fitting svc root current plan stage directory)
      (hcurrent : s'.current = some (pointerOf plan current (target svc root current plan)))
      (hgenerations : s'.generations =
        Function.update root.generations (target svc root current plan) (some directory))
      (hcleared : Cleared (target svc root current plan) s' s) : Visited svc root current plan stage s

/-- How a publication of a plan ends that is not stopped. -/
def Ended (svc : Service) (root : Root) (current : Option Current) (plan : Plan) (stage : Directory)
    (t : Root) : Prop :=
  if isExactRetry plan current then Cleared (target svc root current plan) root t
  else ∃ s directory, Fitting svc root current plan stage directory ∧
    s.current = some (pointerOf plan current (target svc root current plan)) ∧
      s.generations = Function.update root.generations (target svc root current plan) (some directory) ∧
        Cleared (target svc root current plan) s t

/-- What is stored where the generation of a plan belongs does not stand in its way. -/
def Fits (svc : Service) (root : Root) (current : Option Current) (plan : Plan) (stage : Directory) : Prop :=
  (isExactRetry plan current = true → root.generations (target svc root current plan) ≠ none) ∧
    ∀ directory, root.generations (target svc root current plan) = some directory →
      svc.matchDestination directory stage plan (target svc root current plan) = .ok ()

section Tracing

variable {svc : Service} {root : Root} {current : Option Current} {plan : Plan} {stage : Directory}
  {storageId : Bytes}

theorem writeStage_traces {f : Directory → Directory} (h : root.stage = some stage) :
    Traces (Service.writeStage f) root [root] (.ok ()) { root with stage := some (f stage) } := by
  have hwrite := Traces.write (ε := GenerationError) (s := root) (g := fun root =>
    match root.stage with
    | none => (.error .missingPath, root)
    | some stage => (.ok (), { root with stage := some (f stage) }))
  rwa [h] at hwrite

theorem renameStage_traces (h : root.stage = some stage) :
    Traces (Service.renameStage storageId) root [root] (.ok ())
      { root with
        generations := Function.update root.generations storageId (some stage)
        stage := none } := by
  have hwrite := Traces.write (ε := GenerationError) (s := root) (g := fun root =>
    match root.stage with
    | none => (.error .missingPath, root)
    | some stage => (.ok (), { root with
        generations := Function.update root.generations storageId (some stage)
        stage := none }))
  rwa [h] at hwrite

variable (svc root) in
/-- The generation that is replaced is put away. -/
theorem quarantine_traces (hrecovery : isRecovery storageId = true →
      ∃ recovery, (root.generations storageId).bind Directory.recovery = some recovery) :
    ∃ xs t, Traces (svc.quarantineReplacedGeneration storageId) root xs (.ok ()) t ∧
      (∀ s ∈ xs, s = root) ∧ Cleared storageId root t := by
  unfold Service.quarantineReplacedGeneration
  by_cases hkind : isRecovery storageId = false
  · rw [if_pos hkind]
    exact ⟨[], root, Traces.pure, fun s hs => absurd hs List.not_mem_nil, .same ⟨rfl, rfl⟩⟩
  rw [if_neg hkind]
  rw [Bool.not_eq_false] at hkind
  obtain ⟨recovery, hfound⟩ := hrecovery hkind
  obtain ⟨directory, hdirectory, hreplaced⟩ := Option.bind_eq_some_iff.mp hfound
  by_cases hthere : (root.generations recovery.replacedStorageId).isNone ∨
      (root.quarantine (svc.replacedPath recovery.replacedStorageId storageId)).isSome
  · refine ⟨[], root, Traces.get_bind (Traces.observe_bind hfound ?_), ?_, .same ⟨rfl, rfl⟩⟩
    · rw [if_pos hthere]
      exact Traces.pure
    · exact fun s hs => absurd hs List.not_mem_nil
  · let moved : Root := { root with
      generations := Function.update root.generations recovery.replacedStorageId none
      quarantine := Function.update root.quarantine
        (svc.replacedPath recovery.replacedStorageId storageId)
        (root.generations recovery.replacedStorageId) }
    refine ⟨[root], moved, Traces.get_bind (Traces.observe_bind hfound ?_), ?_,
      .moved hkind hdirectory hreplaced rfl rfl⟩
    · rw [if_neg hthere]
      exact Traces.write
    · exact fun s hs => List.mem_singleton.mp hs

/-- What `accept` does last: a generation that was damaged is put away, unless it is stored in place. -/
def Service.putAway (svc : Service) (storageId : Bytes) : Option Current → Service.Publication Unit
  | some (.damaged pointer _) =>
      if pointer.storageId ≠ storageId then svc.quarantineReplacedGeneration storageId else pure ()
  | _ => pure ()

variable (svc root) in
theorem putAway_traces (current : Option Current) (hrecovery : isRecovery storageId = true →
      ∃ recovery, (root.generations storageId).bind Directory.recovery = some recovery) :
    ∃ xs t, Traces (svc.putAway storageId current) root xs (.ok ()) t ∧
      (∀ s ∈ xs, s = root) ∧ Cleared storageId root t := by
  have hnone : ∃ xs t, Traces (pure () : Service.Publication Unit) root xs (.ok ()) t ∧
      (∀ s ∈ xs, s = root) ∧ Cleared storageId root t :=
    ⟨[], root, Traces.pure, fun s hs => absurd hs List.not_mem_nil, .same ⟨rfl, rfl⟩⟩
  unfold Service.putAway
  split
  · split
    · exact quarantine_traces svc root hrecovery
    · exact hnone
  · exact hnone

theorem matchDestination_congr {directory other : Directory} (h : other.archive = stage.archive) :
    svc.matchDestination directory other plan storageId =
      svc.matchDestination directory stage plan storageId := by
  unfold Service.matchDestination
  rw [h]

/-- The stage is moved, or a directory is found that matches it. -/
theorem placeStage_traces (hstage : root.stage = some stage)
    (hfits : ∀ directory, root.generations storageId = some directory →
      svc.matchDestination directory stage plan storageId = .ok ()) :
    ∃ t, Traces (svc.placeStage root stage plan storageId) root [root] (.ok ()) t ∧
      t.current = root.current ∧ t.generations = Function.update root.generations storageId
        (some ((root.generations storageId).getD stage)) := by
  unfold Service.placeStage
  cases hfound : root.generations storageId with
  | none =>
      exact ⟨_, renameStage_traces hstage, rfl, rfl⟩
  | some directory =>
      refine ⟨{ root with stage := none }, ?_, rfl, ?_⟩
      · change Traces (Pass.ofExcept (svc.matchDestination directory stage plan storageId) >>=
          fun _ => Service.removeStage) _ _ _ _
        exact Traces.ofExcept_bind (hfits directory hfound) Traces.write
      · exact (Function.update_eq_self_iff.mpr hfound.symm).symm

/-- A candidate that is not rejected is written down in its stage. -/
theorem writeRecovery_traces (recovery : Option Recovery) (hstage : root.stage = some stage) :
    ∃ xs, Traces (Service.writeRecovery recovery) root xs (.ok ())
        { root with stage := some { stage with recovery := recovery.or stage.recovery } } ∧
      ∀ s ∈ xs, s = root := by
  cases recovery with
  | none =>
      refine ⟨[], ?_, fun s hs => absurd hs List.not_mem_nil⟩
      have hroot : ({ root with stage := some { stage with recovery := stage.recovery } } : Root) = root := by
        rw [← hstage]
      rw [Option.none_or, hroot]
      exact Traces.pure
  | some recovery => exact ⟨[root], writeStage_traces hstage, fun s hs => List.mem_singleton.mp hs⟩

/-- The publication of a plan is what it does with the stage once that is written. -/
theorem publishPlan_traces {out : Except GenerationError Unit} {ys : List Root} {t : Root}
    (hstage : root.stage = some stage)
    (hvalid : (finished svc root current plan stage).Validated svc plan.id
      (if isExactRetry plan current then plan.id else target svc root current plan) plan.candidate
      (svc.metadataOf plan current))
    (hrest : let written := { root with stage := some (finished svc root current plan stage) }
      Traces (if isExactRetry plan current then
          svc.confirm written (finished svc root current plan stage) plan (target svc root current plan)
        else svc.accept written (finished svc root current plan stage) plan current
          (target svc root current plan)) written ys out t) :
    ∃ xs, Traces (svc.publishPlan plan current) root (xs ++ ys)
        (out.map (fun _ => ⟨plan.decision, plan.candidate, plan.id, target svc root current plan⟩)) t ∧
      ∀ s ∈ xs, root.Same s := by
  obtain ⟨xs, hrecovery, hxs⟩ := writeRecovery_traces (recoveryOf root plan current) hstage
  let recovered : Root := { root with
    stage := some { stage with recovery := (recoveryOf root plan current).or stage.recovery } }
  have hmetadata : Traces (Service.writeStage (fun stage =>
      { stage with generation := some (svc.metadataOf plan current) })) recovered [recovered] (.ok ())
      { root with stage := some (finished svc root current plan stage) } := by
    have hrecovered : recovered.stage =
        some { stage with recovery := (recoveryOf root plan current).or stage.recovery } := rfl
    exact writeStage_traces hrecovered
  refine ⟨xs ++ [recovered], ?_, ?_⟩
  · rw [List.append_assoc]
    unfold Service.publishPlan
    refine Traces.get_bind (Traces.bind hrecovery (Traces.bind hmetadata ?_))
    refine Traces.get_bind (Traces.observe_bind rfl ?_)
    refine Traces.ofExcept_bind (validateGenerationDirectory_eq_ok.mpr hvalid) ?_
    cases out with
    | error e => exact Traces.bind_error hrest
    | ok u =>
        rw [← List.append_nil ys]
        exact Traces.bind hrest Traces.pure
  · intro s hs
    rcases List.mem_append.mp hs with hs | hs
    · rw [hxs s hs]
      exact ⟨rfl, rfl⟩
    · rw [List.mem_singleton.mp hs]
      exact ⟨rfl, rfl⟩

theorem matchDestination_eq_ok {directory : Directory}
    (h : svc.matchDestination directory stage plan storageId = .ok ()) :
    ∃ metadata, directory.Validated svc plan.id storageId plan.candidate metadata := by
  obtain ⟨⟨checkpoint, metadata⟩, hvalid, h⟩ := bind_eq_ok.mp h
  obtain ⟨_, hsame, -⟩ := bind_eq_ok.mp h
  rw [revertIf_eq_ok, not_not] at hsame
  rw [validateGenerationDirectory_eq_ok] at hvalid
  rw [Json.stringify_injective hsame] at hvalid
  exact ⟨metadata, hvalid⟩

/-- The directory of a candidate that goes on is validated where it is stored. -/
theorem Fitting.validated {S : Set Bytes} {directory : Directory} (hsvc : svc.Lawful)
    (hcurrent : Current.Reads svc S root current) (hplan : Decided svc current stage plan)
    (hretry : isExactRetry plan current = true → root.generations (target svc root current plan) ≠ none)
    (h : Fitting svc root current plan stage directory) :
    ∃ metadata, directory.Validated svc plan.id (target svc root current plan) plan.candidate metadata := by
  unfold Fitting at h
  split at h
  · rename_i hnone
    rw [h]
    refine ⟨_, finished_validated hsvc hcurrent hplan _ (.inr ⟨?_, rfl⟩)⟩
    by_contra hexact
    exact hretry (by simpa using hexact) hnone
  · obtain ⟨rfl, hmatch⟩ := h
    exact matchDestination_eq_ok hmatch

theorem Fitting.recovery {S : Set Bytes} {directory : Directory} (hsvc : svc.Lawful)
    (hcurrent : Current.Reads svc S root current) (hplan : Decided svc current stage plan)
    (hretry : isExactRetry plan current = true → root.generations (target svc root current plan) ≠ none)
    (h : Fitting svc root current plan stage directory)
    (hrecovery : isRecovery (target svc root current plan) = true) :
    ∃ recovery, directory.recovery = some recovery ∧
      target svc root current plan = svc.recoveryStorageId plan.id recovery := by
  obtain ⟨metadata, hvalid⟩ := h.validated hsvc hcurrent hplan hretry
  rcases hvalid.recovery with hsame | ⟨recovery, hfound, -, -, -, htarget⟩
  · rw [hsame, hplan.identity, isRecovery_generationId hsvc] at hrecovery
    cases hrecovery
  · exact ⟨recovery, hfound, htarget⟩

theorem fitting_getD (hfits : Fits svc root current plan stage) :
    Fitting svc root current plan stage
      ((root.generations (target svc root current plan)).getD (finished svc root current plan stage)) := by
  unfold Fitting
  split
  · rename_i hnone
    rw [hnone]
    rfl
  · rename_i found hfound
    rw [hfound]
    exact ⟨rfl, hfits.2 found hfound⟩

theorem isExactRetry_eq_false (h : isExactRetry plan current = false) :
    ∀ pointer checkpoint metadata, current = some (.validated pointer checkpoint metadata) →
      plan.decision.decision ≠ .unchanged := by
  rintro pointer checkpoint metadata rfl
  simpa [isExactRetry] using h

/-- A candidate that fits is published, unless the publisher is stopped. -/
theorem publishPlan_fits {S : Set Bytes} (hsvc : svc.Lawful) (hstage : root.stage = some stage)
    (hcurrent : Current.Reads svc S root current) (hplan : Decided svc current stage plan)
    (hfits : Fits svc root current plan stage) :
    ∃ xs t, Traces (svc.publishPlan plan current) root xs
        (.ok ⟨plan.decision, plan.candidate, plan.id, target svc root current plan⟩) t ∧
      (∀ s ∈ xs, Visited svc root current plan stage s) ∧ Ended svc root current plan stage t := by
  let written : Root := { root with stage := some (finished svc root current plan stage) }
  have hfit := fitting_getD hfits
  have hrecovery : isRecovery (target svc root current plan) = true → ∃ recovery,
      ((root.generations (target svc root current plan)).getD
        (finished svc root current plan stage)).recovery = some recovery := fun hkind => by
    obtain ⟨recovery, hfound, -⟩ := hfit.recovery hsvc hcurrent hplan hfits.1 hkind
    exact ⟨recovery, hfound⟩
  by_cases hexact : isExactRetry plan current = true
  · obtain ⟨directory, hfound⟩ := Option.ne_none_iff_exists'.mp (hfits.1 hexact)
    rw [hfound, Option.getD_some] at hrecovery
    let removed : Root := { written with stage := none }
    have hremoved : isRecovery (target svc root current plan) = true → ∃ recovery,
        (removed.generations (target svc root current plan)).bind Directory.recovery = some recovery := by
      intro hkind
      obtain ⟨recovery, hrecovery⟩ := hrecovery hkind
      exact ⟨recovery, by rw [← hrecovery]; exact congrArg (Option.bind · Directory.recovery) hfound⟩
    obtain ⟨zs, t, hquarantine, hzs, hcleared⟩ := quarantine_traces svc removed hremoved
    have hmatch : svc.matchDestination directory (finished svc root current plan stage) plan
        (target svc root current plan) = .ok () := by
      rw [matchDestination_congr (show (finished svc root current plan stage).archive = stage.archive from rfl)]
      exact hfits.2 directory hfound
    have hconfirm : Traces (svc.confirm written (finished svc root current plan stage) plan
        (target svc root current plan)) written ([written] ++ zs) (.ok ()) t :=
      Traces.observe_bind hfound (Traces.ofExcept_bind hmatch (Traces.bind Traces.write hquarantine))
    have hvalid : (finished svc root current plan stage).Validated svc plan.id
        (if isExactRetry plan current then plan.id else target svc root current plan) plan.candidate
        (svc.metadataOf plan current) := by
      rw [if_pos hexact]
      exact finished_validated hsvc hcurrent hplan _ (.inl rfl)
    obtain ⟨xs, hpublish, hxs⟩ := publishPlan_traces hstage hvalid (by
      simp only [if_pos hexact]
      exact hconfirm)
    refine ⟨_, t, hpublish, ?_, ?_⟩
    · intro s hs
      rcases List.mem_append.mp hs with hs | hs
      · exact .kept (hxs s hs)
      rcases List.mem_append.mp hs with hs | hs
      · rw [List.mem_singleton.mp hs]
        exact .kept ⟨rfl, rfl⟩
      · rw [hzs s hs]
        exact .kept ⟨rfl, rfl⟩
    · rw [Ended, if_pos hexact]
      cases hcleared with
      | same hsame => exact .same ⟨hsame.current, hsame.generations⟩
      | moved hkind hdirectory hreplaced hcurrent hgenerations =>
          exact .moved hkind hdirectory hreplaced hcurrent hgenerations
  · rw [Bool.not_eq_true] at hexact
    let directory := (root.generations (target svc root current plan)).getD
      (finished svc root current plan stage)
    have hmatch : ∀ found, written.generations (target svc root current plan) = some found →
        svc.matchDestination found (finished svc root current plan stage) plan
          (target svc root current plan) = .ok () := by
      intro found hfound
      rw [matchDestination_congr (show (finished svc root current plan stage).archive = stage.archive from rfl)]
      exact hfits.2 found hfound
    obtain ⟨moved, hplace, hmovedCurrent, hmovedGenerations⟩ := placeStage_traces
      (show written.stage = some (finished svc root current plan stage) from rfl) hmatch
    let pointed : Root := { moved with current := some (pointerOf plan current (target svc root current plan)) }
    have hstored : isRecovery (target svc root current plan) = true → ∃ recovery,
        (pointed.generations (target svc root current plan)).bind Directory.recovery = some recovery := by
      intro hkind
      obtain ⟨recovery, hrecovery⟩ := hrecovery hkind
      refine ⟨recovery, ?_⟩
      change (moved.generations _).bind _ = _
      rw [hmovedGenerations, Function.update_self]
      exact hrecovery
    obtain ⟨zs, t, hrest, hzs, hcleared⟩ := putAway_traces svc pointed current hstored
    have haccept : Traces (svc.accept written (finished svc root current plan stage) plan current
        (target svc root current plan)) written ([written] ++ ([moved] ++ zs)) (.ok ()) t :=
      Traces.bind hplace (Traces.bind Traces.write hrest)
    have hvalid : (finished svc root current plan stage).Validated svc plan.id
        (if isExactRetry plan current then plan.id else target svc root current plan) plan.candidate
        (svc.metadataOf plan current) := by
      rw [if_neg (Bool.eq_false_iff.mp hexact)]
      exact finished_validated hsvc hcurrent hplan _ (.inr ⟨hexact, rfl⟩)
    obtain ⟨xs, hpublish, hxs⟩ := publishPlan_traces hstage hvalid (by
      simp only [if_neg (Bool.eq_false_iff.mp hexact)]
      exact haccept)
    refine ⟨_, t, hpublish, ?_, ?_⟩
    · intro s hs
      rcases List.mem_append.mp hs with hs | hs
      · exact .kept (hxs s hs)
      rcases List.mem_append.mp hs with hs | hs
      · rw [List.mem_singleton.mp hs]
        exact .kept ⟨rfl, rfl⟩
      rcases List.mem_append.mp hs with hs | hs
      · rw [List.mem_singleton.mp hs]
        exact .placed hexact hfit hmovedCurrent hmovedGenerations
      · rw [hzs s hs]
        exact .accepted hexact hfit (show pointed.current = _ from rfl) hmovedGenerations (.same ⟨rfl, rfl⟩)
    · rw [Ended, if_neg (Bool.eq_false_iff.mp hexact)]
      exact ⟨pointed, directory, hfit, rfl, hmovedGenerations, hcleared⟩

/-- A candidate that does not fit leaves what is accepted as it is. -/
theorem publishPlan_unfit {S : Set Bytes} (hsvc : svc.Lawful) (hstage : root.stage = some stage)
    (hcurrent : Current.Reads svc S root current) (hplan : Decided svc current stage plan)
    (hfits : ¬ Fits svc root current plan stage) :
    ∃ xs e t, Traces (svc.publishPlan plan current) root xs (.error e) t ∧
      ∀ s ∈ t :: xs, root.Same s := by
  let written : Root := { root with stage := some (finished svc root current plan stage) }
  have hsame : ∀ found, svc.matchDestination found (finished svc root current plan stage) plan
      (target svc root current plan) = svc.matchDestination found stage plan (target svc root current plan) :=
    fun found => matchDestination_congr (show _ = stage.archive from rfl)
  have hstops : ∃ e, Traces (if isExactRetry plan current then
        svc.confirm written (finished svc root current plan stage) plan (target svc root current plan)
      else svc.accept written (finished svc root current plan stage) plan current
        (target svc root current plan)) written [] (.error e) written := by
    cases hfound : root.generations (target svc root current plan) with
    | none =>
        have hexact : isExactRetry plan current = true := by
          by_contra hretry
          refine hfits ⟨fun h => absurd h hretry, fun found h => ?_⟩
          rw [hfound] at h
          cases h
        rw [if_pos hexact]
        exact ⟨_, Traces.observe_bind_error hfound⟩
    | some found =>
        cases hmatch : svc.matchDestination found stage plan (target svc root current plan) with
        | ok u =>
            refine absurd ⟨fun _ => ?_, fun other h => ?_⟩ hfits
            · rw [hfound]
              exact Option.some_ne_none _
            · rw [hfound] at h
              cases h
              exact hmatch
        | error e =>
            have herror := (hsame found).trans hmatch
            refine ⟨e, ?_⟩
            split
            · exact Traces.observe_bind hfound (Traces.ofExcept_bind_error herror)
            · refine Traces.bind_error ?_
              unfold Service.placeStage
              rw [show written.generations (target svc root current plan) = some found from hfound]
              exact Traces.ofExcept_bind_error herror
  obtain ⟨e, hstops⟩ := hstops
  have hvalid : (finished svc root current plan stage).Validated svc plan.id
      (if isExactRetry plan current then plan.id else target svc root current plan) plan.candidate
      (svc.metadataOf plan current) := by
    split
    · exact finished_validated hsvc hcurrent hplan _ (.inl rfl)
    · rename_i hexact
      exact finished_validated hsvc hcurrent hplan _ (.inr ⟨by simpa using hexact, rfl⟩)
  obtain ⟨xs, hpublish, hxs⟩ := publishPlan_traces hstage hvalid hstops
  refine ⟨_, e, written, hpublish, fun s hs => ?_⟩
  rw [List.append_nil] at hs
  rcases List.mem_cons.mp hs with rfl | hs
  · exact ⟨rfl, rfl⟩
  · exact hxs s hs

end Tracing

/-! ### What a publication ends in -/

section Publishing

variable {svc : Service} {S : Set Bytes} {root : Root} {current : Option Current} {stage : Directory}
  {rejected : Bytes} {plan : Plan}

theorem quarantineStage_traces (rejected : Bytes) (hstage : root.stage = some stage) :
    ∃ xs out t, Traces (Service.quarantineStage rejected) root xs out t ∧ ∀ s ∈ t :: xs, root.Same s := by
  let noted : Root := { root with stage := some stage }
  by_cases hoccupied : (noted.quarantine rejected).isSome = true
  · have hwrite := Traces.write (ε := GenerationError) (s := noted) (g := fun root =>
      if (root.quarantine rejected).isSome then (.error .occupiedPath, root)
      else (.ok (), { root with
        quarantine := Function.update root.quarantine rejected root.stage
        stage := none }))
    rw [if_pos hoccupied] at hwrite
    refine ⟨_, _, _, Traces.bind (writeStage_traces hstage) hwrite, fun s hs => ?_⟩
    simp only [List.mem_cons, List.mem_append, List.not_mem_nil, or_false] at hs
    rcases hs with rfl | rfl | rfl <;> exact ⟨rfl, rfl⟩
  · have hwrite := Traces.write (ε := GenerationError) (s := noted) (g := fun root =>
      if (root.quarantine rejected).isSome then (.error .occupiedPath, root)
      else (.ok (), { root with
        quarantine := Function.update root.quarantine rejected root.stage
        stage := none }))
    rw [if_neg hoccupied] at hwrite
    refine ⟨_, _, _, Traces.bind (writeStage_traces hstage) hwrite, fun s hs => ?_⟩
    simp only [List.mem_cons, List.mem_append, List.not_mem_nil, or_false] at hs
    rcases hs with rfl | rfl | rfl <;> exact ⟨rfl, rfl⟩

/-- A candidate is published when it is not rejected and fits. -/
structure Publishable (svc : Service) (root : Root) (current : Option Current) (stage : Directory)
    (plan : Plan) : Prop where
  decided : svc.decideGeneration current stage = .ok plan
  fits : Fits svc root current plan stage

variable (rejected) in
/-- A publication that throws leaves what is accepted as it is. -/
theorem publish_rejected (hsvc : svc.Lawful) (hstage : root.stage = some stage)
    (hread : svc.readCurrentGeneration root = .ok current) (hcurrent : Current.Reads svc S root current)
    (h : ∀ plan, ¬ Publishable svc root current stage plan) :
    ∃ xs e t, Traces (svc.publishGenerationSync rejected) root xs (.error e) t ∧
      ∀ s ∈ t :: xs, root.Same s := by
  have hgetD : root.stage.getD {} = stage := by rw [hstage, Option.getD_some]
  cases hdecide : svc.decideGeneration current stage with
  | error e =>
      obtain ⟨xs, out, t, hquarantine, hsame⟩ := quarantineStage_traces rejected hstage
      cases out with
      | error e' =>
          refine ⟨xs, e', t, Traces.get_bind (Traces.ofExcept_bind hread ?_), hsame⟩
          rw [hgetD, hdecide]
          exact Traces.bind_error hquarantine
      | ok u =>
          refine ⟨xs ++ [], e, t, Traces.get_bind (Traces.ofExcept_bind hread ?_), ?_⟩
          · rw [hgetD, hdecide]
            exact Traces.bind hquarantine Traces.throw
          · rw [List.append_nil]
            exact hsame
  | ok plan =>
      obtain ⟨xs, e, t, hpublish, hsame⟩ := publishPlan_unfit hsvc hstage hcurrent
        (decideGeneration_eq_ok hcurrent hdecide) (fun hfits => h plan ⟨hdecide, hfits⟩)
      refine ⟨xs, e, t, Traces.get_bind (Traces.ofExcept_bind hread ?_), hsame⟩
      rw [hgetD, hdecide]
      exact hpublish

variable (rejected) in
theorem publish_published (hsvc : svc.Lawful) (hstage : root.stage = some stage)
    (hread : svc.readCurrentGeneration root = .ok current) (hcurrent : Current.Reads svc S root current)
    (h : Publishable svc root current stage plan) :
    ∃ xs t, Traces (svc.publishGenerationSync rejected) root xs
        (.ok ⟨plan.decision, plan.candidate, plan.id, target svc root current plan⟩) t ∧
      (∀ s ∈ xs, Visited svc root current plan stage s) ∧ Ended svc root current plan stage t := by
  obtain ⟨xs, t, hpublish, hvisited, hended⟩ := publishPlan_fits hsvc hstage hcurrent
    (decideGeneration_eq_ok hcurrent h.decided) h.fits
  refine ⟨xs, t, Traces.get_bind (Traces.ofExcept_bind hread ?_), hvisited, hended⟩
  rw [hstage, Option.getD_some, h.decided]
  exact hpublish

theorem Ended.visited {t : Root} (h : Ended svc root current plan stage t) :
    Visited svc root current plan stage t := by
  unfold Ended at h
  split at h
  · rename_i hexact
    exact .confirmed hexact h
  · rename_i hexact
    obtain ⟨s, directory, hfit, hs, hgenerations, hcleared⟩ := h
    exact .accepted (by simpa using hexact) hfit hs hgenerations hcleared

variable (rejected) in
/-- Wherever a publication is stopped, it stands in a root of a plan, or what is accepted is as it was. -/
theorem publish_visited (hsvc : svc.Lawful) (hstage : root.stage = some stage)
    (hread : svc.readCurrentGeneration root = .ok current) (hcurrent : Current.Reads svc S root current)
    (n : ℕ) :
    root.Same ((svc.publishGenerationSync rejected).after root n) ∨
      ∃ plan, Publishable svc root current stage plan ∧
        Visited svc root current plan stage ((svc.publishGenerationSync rejected).after root n) := by
  by_cases hplan : ∃ plan, Publishable svc root current stage plan
  · obtain ⟨plan, hplan⟩ := hplan
    obtain ⟨xs, t, htraces, hvisited, hended⟩ := publish_published rejected hsvc hstage hread hcurrent hplan
    refine .inr ⟨plan, hplan, ?_⟩
    rcases htraces.after_mem n with ⟨hmem, -⟩ | ⟨hlast, -⟩
    · exact hvisited _ hmem
    · rw [hlast]
      exact hended.visited
  · obtain ⟨xs, e, t, htraces, hsame⟩ := publish_rejected rejected hsvc hstage hread hcurrent
      (fun plan hpublishable => hplan ⟨plan, hpublishable⟩)
    left
    rcases htraces.after_mem n with ⟨hmem, -⟩ | ⟨hlast, -⟩
    · exact hsame _ (List.mem_cons_of_mem _ hmem)
    · rw [hlast]
      exact hsame t (List.mem_cons_self ..)

end Publishing

/-! ### The generations that were accepted -/

/-- What happens to the generation that is accepted. -/
inductive Event where
  | accepted (pointer : Pointer) (directory : Option Directory)
  | damaged

/-- Where the generation that a pointer names is stored. -/
def Pointer.storage (q : Pointer) : Bytes := q.storageId.getD q.generationId

def record (root : Root) (act : Act) (root' : Root) (log : List Event) : List Event :=
  match act with
  | .damage _ => .damaged :: log
  | .publish _ _ _ =>
      match root'.current with
      | none => log
      | some q =>
          if root.current = some q then log else .accepted q (root'.generations q.storage) :: log

/-- The publications with what has happened, the last first. -/
def publicationHistory (svc : Service) : System (Root × List Event) Act :=
  svc.publications.withHistory [] record

/-- What is hashed in a step is in `S`: for a generation that is published, and for a directory that
somebody else puts in the place of the accepted generation, if it is validated there. -/
def Act.Hashes (svc : Service) (S : Set Bytes) (root : Root) : Act → Prop
  | .publish stage _ _ => ∀ current plan, svc.readCurrentGeneration root = .ok current →
      svc.decideGeneration current stage = .ok plan →
        (∀ archive ∈ stage.archive, ∀ stream, visit [] archive = .ok stream → stream ∈ S) ∧
          Service.identityText plan.candidate plan.archiveSha256 (predecessorOf plan current) ∈ S ∧
            ∀ recovery ∈ recoveryOf root plan current, Service.recoveryText recovery ∈ S
  | .damage directory => ∀ d ∈ directory, ∀ q ∈ root.current, d.HashedAt svc S q.storage

/-- The directory holds the content that the pointer is bound to. -/
structure Holds (svc : Service) (S : Set Bytes) (q : Pointer) (directory : Directory) (x : Content) : Prop where
  names : q.Names svc S q.storage x
  checkpoint : directory.checkpoint = some x.checkpoint
  archive : directory.archive = some x.archive

/-- The pointers that were written, each with what was stored where it points, the last first. -/
def acceptances : List Event → List (Pointer × Option Directory)
  | [] => []
  | .damaged :: log => acceptances log
  | .accepted q directory :: log => (q, directory) :: acceptances log

/-- The generations that were accepted, the last first: each is of a later block than the one before it
and names it, or is the same generation and is stored anew. -/
inductive Chronicle (svc : Service) (S : Set Bytes) : List Event → List (Pointer × Content) → Prop
  | nil : Chronicle svc S [] []
  | damaged {log xs} (h : Chronicle svc S log xs) : Chronicle svc S (.damaged :: log) xs
  | first {log q d x} (h : Chronicle svc S log []) (holds : Holds svc S q d x) (hprevious : x.previous = none)
      (hstorage : q.storage = q.generationId) : Chronicle svc S (.accepted q (some d) :: log) [(q, x)]
  | next {log q d x p y xs} (h : Chronicle svc S log ((p, y) :: xs)) (holds : Holds svc S q d x)
      (hprevious : x.previous = some p.generationId) (hblock : toBlock y.checkpoint < toBlock x.checkpoint)
      (hstorage : q.storage = q.generationId) :
      Chronicle svc S (.accepted q (some d) :: log) ((q, x) :: (p, y) :: xs)
  | again {log q d p y xs recovery} (h : Chronicle svc S log ((p, y) :: xs)) (holds : Holds svc S q d y)
      (hid : q.generationId = p.generationId)
      (hstorage : q.storage = svc.recoveryStorageId q.generationId recovery)
      (hmem : Service.recoveryText recovery ∈ S) (hreplaced : recovery.replacedStorageId = p.storage) :
      Chronicle svc S (.accepted q (some d) :: log) ((q, y) :: (p, y) :: xs)

/-- What was stored when a pointer was written holds the content of the pointer. -/
theorem Chronicle.holds {svc : Service} {S : Set Bytes} {log : List Event} {xs : List (Pointer × Content)}
    (h : Chronicle svc S log xs) :
    List.Forall₂ (fun a y => a.1 = y.1 ∧ ∃ directory, a.2 = some directory ∧ Holds svc S y.1 directory y.2)
      (acceptances log) xs := by
  induction h with
  | nil => exact .nil
  | damaged h ih => exact ih
  | first h holds hprevious hstorage ih => exact .cons ⟨rfl, _, rfl, holds⟩ ih
  | next h holds hprevious hblock hstorage ih => exact .cons ⟨rfl, _, rfl, holds⟩ ih
  | again h holds hid hstorage hmem hreplaced ih => exact .cons ⟨rfl, _, rfl, holds⟩ ih

theorem exists_of_mem {α β : Type} {R : α → β → Prop} {l : List α} {m : List β} (h : List.Forall₂ R l m)
    {b : β} (hb : b ∈ m) : ∃ a ∈ l, R a b := by
  induction h with
  | nil => cases hb
  | cons hab h ih =>
      rcases List.mem_cons.mp hb with rfl | hb
      · exact ⟨_, List.mem_cons_self .., hab⟩
      · obtain ⟨a, ha, hab⟩ := ih hb
        exact ⟨a, List.mem_cons_of_mem _ ha, hab⟩

theorem Chronicle.mem_acceptances {svc : Service} {S : Set Bytes} {log : List Event}
    {xs : List (Pointer × Content)} (h : Chronicle svc S log xs) {y : Pointer × Content} (hy : y ∈ xs) :
    ∃ a ∈ acceptances log, a.1 = y.1 ∧ ∃ directory, a.2 = some directory ∧ Holds svc S y.1 directory y.2 :=
  exists_of_mem h.holds hy

theorem Chronicle.of_acceptance {svc : Service} {S : Set Bytes} {log : List Event}
    {xs : List (Pointer × Content)} (h : Chronicle svc S log xs) {a : Pointer × Option Directory}
    (ha : a ∈ acceptances log) :
    ∃ y ∈ xs, a.1 = y.1 ∧ ∃ directory, a.2 = some directory ∧ Holds svc S y.1 directory y.2 :=
  exists_of_mem h.holds.flip ha

/-- A generation is of a later block than one that was accepted before it, or is the same. -/
def Follows (newer older : Pointer × Content) : Prop :=
  toBlock older.2.checkpoint < toBlock newer.2.checkpoint ∨
    newer.2 = older.2 ∧ newer.1.generationId = older.1.generationId

theorem Follows.le {newer older : Pointer × Content} (h : Follows newer older) :
    toBlock older.2.checkpoint ≤ toBlock newer.2.checkpoint := by
  rcases h with hlater | ⟨hsame, -⟩
  · exact hlater.le
  · rw [hsame]

theorem Follows.trans {a b c : Pointer × Content} (h : Follows a b) (h' : Follows b c) : Follows a c := by
  rcases h with hlater | ⟨hsame, hid⟩
  · exact .inl (h'.le.trans_lt hlater)
  · rcases h' with hlater | ⟨hsame', hid'⟩
    · exact .inl (by rw [hsame]; exact hlater)
    · exact .inr ⟨hsame.trans hsame', hid.trans hid'⟩

theorem Chronicle.follows {svc : Service} {S : Set Bytes} {log : List Event} {xs : List (Pointer × Content)}
    (h : Chronicle svc S log xs) : xs.Pairwise Follows := by
  have hhead : ∀ {a b : Pointer × Content} {rest : List (Pointer × Content)},
      (b :: rest).Pairwise Follows → Follows a b → (a :: b :: rest).Pairwise Follows := by
    intro a b rest hrest hab
    refine List.pairwise_cons.mpr ⟨fun c hc => ?_, hrest⟩
    rcases List.mem_cons.mp hc with rfl | hc
    · exact hab
    · exact hab.trans ((List.pairwise_cons.mp hrest).1 c hc)
  induction h with
  | nil => exact List.Pairwise.nil
  | damaged h ih => exact ih
  | first h holds hprevious hstorage => exact List.pairwise_singleton _ _
  | next h holds hprevious hblock hstorage ih => exact hhead ih (.inl hblock)
  | again h holds hid hstorage hmem hreplaced ih => exact hhead ih (.inr ⟨rfl, hid⟩)

/-! ### Where generations are stored -/

section Storing

variable {svc : Service} {S : Set Bytes} {log : List Event} {xs rest : List (Pointer × Content)}
  {q : Pointer} {x : Content} {y : Pointer × Content} {recovery : Recovery}

theorem Chronicle.names (h : Chronicle svc S log xs) (hy : y ∈ xs) : y.1.Names svc S y.1.storage y.2 := by
  obtain ⟨a, -, -, directory, -, hholds⟩ := h.mem_acceptances hy
  exact hholds.names

/-- A generation is stored under its id, or is the recovery of an older one. -/
theorem Chronicle.origin (h : Chronicle svc S log xs) (hy : y ∈ xs) :
    y.1.storage = y.1.generationId ∨ ∃ recovery, y.1.storage = svc.recoveryStorageId y.1.generationId recovery ∧
      Service.recoveryText recovery ∈ S ∧ ∃ p ∈ xs.tail, recovery.replacedStorageId = p.1.storage := by
  have hlater : ∀ {xs : List (Pointer × Content)} {a : Pointer × Content}
      (_ : y.1.storage = y.1.generationId ∨ ∃ recovery,
        y.1.storage = svc.recoveryStorageId y.1.generationId recovery ∧ Service.recoveryText recovery ∈ S ∧
          ∃ p ∈ xs.tail, recovery.replacedStorageId = p.1.storage),
      y.1.storage = y.1.generationId ∨ ∃ recovery,
        y.1.storage = svc.recoveryStorageId y.1.generationId recovery ∧ Service.recoveryText recovery ∈ S ∧
          ∃ p ∈ (a :: xs).tail, recovery.replacedStorageId = p.1.storage := by
    intro xs a hold
    refine hold.imp_right ?_
    rintro ⟨recovery, hstorage, hmem, p, hp, hreplaced⟩
    exact ⟨recovery, hstorage, hmem, p, List.mem_of_mem_tail hp, hreplaced⟩
  induction h with
  | nil => cases hy
  | damaged h ih => exact ih hy
  | first h holds hprevious hstorage =>
      rw [List.mem_singleton.mp hy]
      exact .inl hstorage
  | next h holds hprevious hblock hstorage ih =>
      rcases List.mem_cons.mp hy with rfl | hy
      · exact .inl hstorage
      · exact hlater (ih hy)
  | again h holds hid hstorage hmem hreplaced ih =>
      rcases List.mem_cons.mp hy with rfl | hy
      · exact .inr ⟨_, hstorage, hmem, _, List.mem_cons_self .., hreplaced⟩
      · exact hlater (ih hy)

/-- The recovery of the accepted generation has not been accepted yet. -/
theorem Chronicle.recovery_new (hsvc : svc.Lawful) (hS : Set.InjOn svc.sha256 S)
    (h : Chronicle svc S log ((q, x) :: rest))
    (hapart : ((q, x) :: rest).Pairwise (fun a b => a.1.storage ≠ b.1.storage))
    (hmem : Service.recoveryText recovery ∈ S) (hreplaced : recovery.replacedStorageId = q.storage)
    (hy : y ∈ (q, x) :: rest) : y.1.storage ≠ svc.recoveryStorageId q.generationId recovery := by
  intro hstorage
  have hnames := h.names hy
  rcases h.origin hy with hid | ⟨recovery', hstorage', hmem', p, hp, hreplaced'⟩
  · have hkind := isRecovery_recoveryStorageId svc q.generationId recovery
    obtain ⟨stream, -, -, -, hgeneration⟩ := hnames.bound.hashed
    rw [← hstorage, hid, hgeneration, isRecovery_generationId hsvc] at hkind
    cases hkind
  · have hlength := (h.names (List.mem_cons_self ..)).bound.length hsvc
    have hid : y.1.generationId = q.generationId :=
      recoveryStorageId_id (hnames.bound.length hsvc) hlength (hstorage'.symm.trans hstorage)
    rw [hid] at hstorage'
    have hsame := recoveryText_inj (hS hmem' hmem (recoveryStorageId_inj (hstorage'.symm.trans hstorage)))
    rw [hsame, hreplaced] at hreplaced'
    exact (List.pairwise_cons.mp hapart).1 p hp hreplaced'

/-- No two generations were accepted in one place. -/
theorem Chronicle.apart (hsvc : svc.Lawful) (hS : Set.InjOn svc.sha256 S) (h : Chronicle svc S log xs) :
    xs.Pairwise (fun a b => a.1.storage ≠ b.1.storage) := by
  induction h with
  | nil => exact List.Pairwise.nil
  | damaged h ih => exact ih
  | first h holds hprevious hstorage => exact List.pairwise_singleton _ _
  | @next log q d x p y xs h holds hprevious hblock hstorage ih =>
      refine List.pairwise_cons.mpr ⟨fun b hb heq => ?_, ih⟩
      have hle : toBlock b.2.checkpoint ≤ toBlock y.checkpoint := by
        rcases List.mem_cons.mp hb with rfl | hb
        · exact le_rfl
        · exact ((List.pairwise_cons.mp h.follows).1 b hb).le
      have hheight := holds.names.height hsvc
      rw [show q.storage = b.1.storage from heq, (h.names hb).height hsvc] at hheight
      omega
  | again h holds hid hstorage hmem hreplaced ih =>
      refine List.pairwise_cons.mpr ⟨fun b hb heq => ?_, ih⟩
      rw [hid] at hstorage
      exact h.recovery_new hsvc hS ih hmem hreplaced hb (heq.symm.trans hstorage)

end Storing

/-- The pointer names the last generation that was accepted, which is intact unless it was damaged since. -/
def Tip (svc : Service) (S : Set Bytes) (root : Root) (log : List Event) : List (Pointer × Content) → Prop
  | [] => root.current = none
  | (q, x) :: _ => root.current = some q ∧ ∃ storageId, q.Names svc S storageId x ∧
      (log.head? ≠ some .damaged → root.Intact svc q.generationId storageId)

/-- What holds of the publication root and what has happened. -/
structure Sound (svc : Service) (S : Set Bytes) (p : Root × List Event) : Prop where
  chronicle : ∃ xs, Chronicle svc S p.2 xs ∧ Tip svc S p.1 p.2 xs
  hashed : ∀ storageId directory, p.1.generations storageId = some directory →
    directory.HashedAt svc S storageId
  /-- What is stored is validated, or was accepted. -/
  stored : ∀ storageId directory, p.1.generations storageId = some directory →
    (∃ id checkpoint metadata, directory.Validated svc id storageId checkpoint metadata) ∨
      ∃ a ∈ acceptances p.2, a.1.storage = storageId

theorem Root.Same.intact {svc : Service} {root root' : Root} {id storageId : Bytes} (h : root.Same root')
    (hintact : root.Intact svc id storageId) : root'.Intact svc id storageId := by
  obtain ⟨directory, checkpoint, metadata, hdirectory, hvalid⟩ := hintact
  exact ⟨directory, checkpoint, metadata, by rw [h.generations, hdirectory], hvalid⟩

namespace Sound

variable {svc : Service} {S : Set Bytes} {root root' : Root} {log : List Event} {current : Option Current}
  {plan : Plan} {stage : Directory}

theorem init : Sound svc S ({}, []) where
  chronicle := ⟨[], .nil, rfl⟩
  hashed _ _ h := by cases h
  stored _ _ h := by cases h

theorem same (h : Sound svc S (root, log)) (hsame : root.Same root') : Sound svc S (root', log) where
  chronicle := by
    obtain ⟨xs, hxs, htip⟩ := h.chronicle
    refine ⟨xs, hxs, ?_⟩
    cases xs with
    | nil => exact hsame.current.trans htip
    | cons head rest =>
        obtain ⟨hcurrent, storageId, hnames, hintact⟩ := htip
        exact ⟨hsame.current.trans hcurrent, storageId, hnames, fun hhead => hsame.intact (hintact hhead)⟩
  hashed storageId directory hdirectory := by
    rw [hsame.generations] at hdirectory
    exact h.hashed storageId directory hdirectory
  stored storageId directory hdirectory := by
    rw [hsame.generations] at hdirectory
    exact h.stored storageId directory hdirectory

/-- What is read of a sound root. -/
theorem reads (hsvc : svc.Lawful) (hS : Set.InjOn svc.sha256 S) (h : Sound svc S (root, log)) :
    ∃ current, svc.readCurrentGeneration root = .ok current ∧ Current.Reads svc S root current := by
  obtain ⟨xs, hxs, htip⟩ := h.chronicle
  cases xs with
  | nil =>
      refine ⟨none, ?_, .none htip⟩
      unfold Service.readCurrentGeneration
      rw [show root.current = none from htip]
      rfl
  | cons head rest =>
      obtain ⟨q, x⟩ := head
      obtain ⟨hcurrent, storageId, hnames, -⟩ := htip
      by_cases hintact : root.Intact svc q.generationId storageId
      · obtain ⟨directory, checkpoint, metadata, hdirectory, hvalid⟩ := hintact
        obtain ⟨rfl, harchive, hprevious⟩ :=
          hnames.content hsvc hS (h.hashed storageId directory hdirectory) hvalid
        exact ⟨_, hnames.read_validated hsvc hcurrent hdirectory hvalid hprevious,
          .validated hcurrent hnames hdirectory hvalid harchive hprevious⟩
      · exact ⟨_, hnames.read_damaged hsvc hcurrent hintact, .damaged hcurrent hnames hintact⟩

/-- What a recovery replaces is stored elsewhere. -/
theorem replaced_ne {q : Pointer} {storageId : Bytes} {x : Content} {recovery : Recovery}
    (hS : Set.InjOn svc.sha256 S) (hsvc : svc.Lawful) (hnames : q.Names svc S storageId x)
    (hstorage : storageId = svc.recoveryStorageId q.generationId recovery)
    (hmem : Service.recoveryText recovery ∈ S) : recovery.replacedStorageId ≠ storageId := by
  rcases hnames.stored with hsame | ⟨recovery', hstorage', hmem', hne⟩
  · have hkind := isRecovery_recoveryStorageId svc q.generationId recovery
    obtain ⟨stream, -, -, -, hid⟩ := hnames.bound.hashed
    rw [← hstorage, hsame, hid, isRecovery_generationId hsvc] at hkind
    cases hkind
  · have hdigests := recoveryStorageId_inj (hstorage.symm.trans hstorage')
    rw [recoveryText_inj (hS hmem hmem' hdigests)]
    exact hne

/-- A root in which one directory is gone, that is not the accepted one. -/
theorem removed {q : Pointer} {x : Content} {xs : List (Pointer × Content)} {storageId gone : Bytes}
    (h : Sound svc S (root, log)) (hxs : Chronicle svc S log ((q, x) :: xs)) (hq : root.current = some q)
    (hnames : q.Names svc S storageId x) (hintact : root.Intact svc q.generationId storageId)
    (hne : gone ≠ storageId) (hcurrent : root'.current = root.current)
    (hgenerations : root'.generations = Function.update root.generations gone none) :
    Sound svc S (root', log) where
  chronicle := by
    refine ⟨_, hxs, hcurrent.trans hq, storageId, hnames, fun _ => ?_⟩
    obtain ⟨directory, checkpoint, metadata, hdirectory, hvalid⟩ := hintact
    refine ⟨directory, checkpoint, metadata, ?_, hvalid⟩
    rw [hgenerations, Function.update_of_ne hne.symm, hdirectory]
  hashed other directory hdirectory := by
    by_cases hother : other = gone
    · rw [hgenerations, hother, Function.update_self] at hdirectory
      cases hdirectory
    · rw [hgenerations, Function.update_of_ne hother] at hdirectory
      exact h.hashed other directory hdirectory
  stored other directory hdirectory := by
    by_cases hother : other = gone
    · rw [hgenerations, hother, Function.update_self] at hdirectory
      cases hdirectory
    · rw [hgenerations, Function.update_of_ne hother] at hdirectory
      exact h.stored other directory hdirectory

/-- A directory that is validated does not replace itself. -/
theorem moved_ne {q : Pointer} {x : Content} {storageId : Bytes} {directory : Directory} {checkpoint : Json}
    {metadata : Metadata} {recovery : Recovery} (hsvc : svc.Lawful) (hS : Set.InjOn svc.sha256 S)
    (hnames : q.Names svc S storageId x)
    (hvalid : directory.Validated svc q.generationId storageId checkpoint metadata)
    (hhashed : directory.HashedAt svc S storageId) (hkind : isRecovery storageId = true)
    (hrecovery : directory.recovery = some recovery) : recovery.replacedStorageId ≠ storageId := by
  have hid : storageId ≠ q.generationId := by
    rintro rfl
    obtain ⟨stream, -, -, -, hid⟩ := hnames.bound.hashed
    rw [hid, isRecovery_generationId hsvc] at hkind
    cases hkind
  obtain ⟨-, -, hmem⟩ := hhashed _ _ _ hvalid
  rcases hvalid.recovery with hsame | ⟨recovery', hrecovery', -, -, -, hstorage⟩
  · exact absurd hsame hid
  · rw [hrecovery] at hrecovery'
    cases hrecovery'
    exact replaced_ne hS hsvc hnames hstorage (hmem hid recovery hrecovery)

/-- The replaced generation is put away, if the accepted one is intact. -/
theorem cleared (hsvc : svc.Lawful) (hS : Set.InjOn svc.sha256 S) {q : Pointer} {x : Content}
    {xs : List (Pointer × Content)} {storageId : Bytes} (h : Sound svc S (root, log))
    (hxs : Chronicle svc S log ((q, x) :: xs)) (hq : root.current = some q)
    (hnames : q.Names svc S storageId x) (hintact : root.Intact svc q.generationId storageId)
    (hcleared : Cleared storageId root root') :
    Sound svc S (root', log) ∧ root'.current = root.current ∧
      root'.generations storageId = root.generations storageId := by
  cases hcleared with
  | same hsame => exact ⟨h.same hsame, hsame.current, by rw [hsame.generations]⟩
  | @moved directory recovery hkind hdirectory hreplaced hcurrent hgenerations =>
      obtain ⟨found, checkpoint, metadata, hfound, hvalid⟩ := id hintact
      rw [hdirectory] at hfound
      cases hfound
      have hne := moved_ne hsvc hS hnames hvalid (h.hashed storageId directory hdirectory) hkind hreplaced
      refine ⟨h.removed hxs hq hnames hintact hne hcurrent hgenerations, hcurrent, ?_⟩
      rw [hgenerations, Function.update_of_ne hne.symm]

end Sound

/-! ### One publication -/

/-- What is hashed for a plan is in `S`. -/
structure Hashed (S : Set Bytes) (root : Root) (current : Option Current) (stage : Directory) (plan : Plan) :
    Prop where
  stream : ∀ archive ∈ stage.archive, ∀ stream, visit [] archive = .ok stream → stream ∈ S
  identity : Service.identityText plan.candidate plan.archiveSha256 (predecessorOf plan current) ∈ S
  recovery : ∀ recovery ∈ recoveryOf root plan current, Service.recoveryText recovery ∈ S

section Publishing

variable {svc : Service} {S : Set Bytes} {root s : Root} {log : List Event} {current : Option Current}
  {plan : Plan} {stage directory : Directory}

/-- The content that a plan publishes. -/
theorem Decided.bound (hplan : Decided svc current stage plan) (hhashed : Hashed S root current stage plan) :
    ∃ archive, stage.archive = some archive ∧
      Content.Bound svc S ⟨plan.candidate, archive, predecessorOf plan current⟩ plan.id := by
  obtain ⟨archive, stream, harchive, hvisit, hdigest⟩ := archiveTreeDigest_eq_ok hplan.digest
  have hfile := hplan.file
  obtain ⟨hcheckpoint, -⟩ := validatePublicationCheckpoint_eq_ok hfile
  rw [hcheckpoint] at hfile
  have hdirectory := hplan.archive
  rw [harchive, Option.any_some] at hdirectory
  refine ⟨archive, harchive, hfile, hdirectory, stream, hhashed.stream archive harchive stream hvisit, hvisit,
    ?_, ?_⟩
  · rw [← hdigest]
    exact hhashed.identity
  · rw [← hdigest]
    exact hplan.identity

theorem target_of_advance (hcurrent : Current.Reads svc S root current)
    (hretry : isExactRetry plan current = false) (hnone : recoveryOf root plan current = none) :
    target svc root current plan = plan.id := by
  cases hcurrent with
  | none hq => rfl
  | validated hq names hdirectory valid harchive hprevious =>
      have hkind : plan.decision.decision ≠ .unchanged := by simpa [isExactRetry] using hretry
      simp only [target, recoveryOf, Service.storageIdOf, if_neg hkind]
  | damaged hq names hdamaged => cases hnone

theorem finished_hashedAt (hcurrent : Current.Reads svc S root current)
    (hplan : Decided svc current stage plan) (hhashed : Hashed S root current stage plan)
    (hretry : isExactRetry plan current = false) :
    (finished svc root current plan stage).HashedAt svc S (target svc root current plan) := by
  intro id checkpoint metadata hvalid
  obtain rfl := Option.some.inj hvalid.generation
  obtain rfl : plan.candidate = checkpoint := by
    have hfile := hplan.file
    rw [show stage.checkpoint = (finished svc root current plan stage).checkpoint from rfl, hvalid.file] at hfile
    exact (Except.ok.inj hfile).symm
  refine ⟨hhashed.stream, hhashed.identity, fun hne recovery hrecovery => ?_⟩
  cases hmade : recoveryOf root plan current with
  | none =>
      rw [target_of_advance hcurrent hretry hmade] at hne
      exact absurd hvalid.generationId hne
  | some made =>
      simp only [finished, hmade, Option.some_or, Option.mem_def, Option.some.injEq] at hrecovery
      exact hhashed.recovery recovery (by rw [hmade, hrecovery]; rfl)

theorem Fitting.hashedAt (h : Sound svc S (root, log)) (hcurrent : Current.Reads svc S root current)
    (hplan : Decided svc current stage plan) (hhashed : Hashed S root current stage plan)
    (hretry : isExactRetry plan current = false) (hfit : Fitting svc root current plan stage directory) :
    directory.HashedAt svc S (target svc root current plan) := by
  unfold Fitting at hfit
  split at hfit
  · rw [hfit]
    exact finished_hashedAt hcurrent hplan hhashed hretry
  · rename_i found hfound
    rw [hfit.1]
    exact h.hashed _ found hfound

/-- What is stored for a plan holds its content. -/
theorem Fitting.content (hsvc : svc.Lawful) (hS : Set.InjOn svc.sha256 S) (h : Sound svc S (root, log))
    (hcurrent : Current.Reads svc S root current) (hplan : Decided svc current stage plan)
    (hhashed : Hashed S root current stage plan) (hretry : isExactRetry plan current = false)
    (hfit : Fitting svc root current plan stage directory) :
    directory.checkpoint = some plan.candidate ∧ directory.archive = stage.archive := by
  obtain ⟨metadata, hvalid⟩ := hfit.validated hsvc hcurrent hplan (fun hexact => by
    rw [hretry] at hexact
    cases hexact)
  obtain ⟨archive, harchive, hbound⟩ := hplan.bound hhashed
  obtain ⟨archive', harchive', hbound'⟩ :=
    hvalid.bound (hfit.hashedAt h hcurrent hplan hhashed hretry)
  have hsame := hbound'.unique hsvc hS hbound
  rw [Content.mk.injEq] at hsame
  exact ⟨(validatePublicationCheckpoint_eq_ok hvalid.file).1, by rw [harchive', harchive, hsame.2.1]⟩

/-- A plan that is not a retry is stored elsewhere than the accepted generation. -/
theorem target_ne (hsvc : svc.Lawful) (hS : Set.InjOn svc.sha256 S) {q : Pointer} {x : Content}
    {storageId : Bytes} (hq : root.current = some q) (hnames : q.Names svc S storageId x)
    (hcurrent : Current.Reads svc S root current) (hplan : Decided svc current stage plan)
    (hhashed : Hashed S root current stage plan) (hretry : isExactRetry plan current = false) :
    target svc root current plan ≠ storageId := by
  cases hcurrent with
  | none hnone =>
      rw [hq] at hnone
      cases hnone
  | validated hq' names hdirectory valid harchive hprevious =>
      rw [hq] at hq'
      cases hq'
      obtain rfl := Option.some.inj (hnames.storage.symm.trans names.storage)
      rw [target_of_advance (.validated hq names hdirectory valid harchive hprevious) hretry rfl]
      rintro rfl
      obtain ⟨archive, -, hbound⟩ := hplan.bound hhashed
      have hheight := hbound.height hsvc
      rw [names.height hsvc] at hheight
      rcases hplan.decision with ⟨hkind, -⟩ | ⟨-, hlater⟩
      · simp [isExactRetry, hkind] at hretry
      · exact absurd hheight (Nat.ne_of_lt hlater)
  | damaged hq' names hdamaged =>
      rw [hq] at hq'
      cases hq'
      obtain rfl := Option.some.inj (hnames.storage.symm.trans names.storage)
      obtain ⟨-, -, hid⟩ := hplan.decision
      intro htarget
      refine Sound.replaced_ne hS hsvc names (htarget.symm.trans ?_) (hhashed.recovery _ rfl) rfl
      change svc.recoveryStorageId plan.id _ = svc.recoveryStorageId q.generationId _
      rw [show plan.id = q.generationId from hid]

/-- The pointer of a plan names its content. -/
theorem pointerOf_names (hsvc : svc.Lawful) (hS : Set.InjOn svc.sha256 S)
    (hcurrent : Current.Reads svc S root current) (hplan : Decided svc current stage plan)
    (hhashed : Hashed S root current stage plan) (hretry : isExactRetry plan current = false)
    {archive : Entry} (hbound : Content.Bound svc S ⟨plan.candidate, archive, predecessorOf plan current⟩ plan.id) :
    (pointerOf plan current (target svc root current plan)).Names svc S (target svc root current plan)
      ⟨plan.candidate, archive, predecessorOf plan current⟩ where
  schema := rfl
  storage := rfl
  previous := rfl
  basename := predecessor_basename hsvc hcurrent
  checkpointPath := rfl
  archivePath := rfl
  bound := hbound
  stored := by
    cases hmade : recoveryOf root plan current with
    | none => exact .inl (target_of_advance hcurrent hretry hmade)
    | some recovery =>
        right
        refine ⟨recovery, ?_, hhashed.recovery recovery hmade, ?_⟩
        · simp only [target, hmade, Service.storageIdOf]
          rfl
        · have hne : ∀ {q : Pointer} {x : Content} {storageId : Bytes}, root.current = some q →
              q.Names svc S storageId x → target svc root current plan ≠ storageId :=
            fun hq hnames => target_ne hsvc hS hq hnames hcurrent hplan hhashed hretry
          cases hcurrent with
          | none hq => cases hmade
          | validated hq names hdirectory valid harchive hprevious => cases hmade
          | damaged hq names hdamaged =>
              cases hmade
              exact (hne hq names).symm

/-- What is stored once a plan has been stored. -/
theorem stored_update (hsvc : svc.Lawful) (h : Sound svc S (root, log))
    (hcurrent : Current.Reads svc S root current) (hplan : Decided svc current stage plan)
    (hhashed : Hashed S root current stage plan) (hretry : isExactRetry plan current = false)
    (hfit : Fitting svc root current plan stage directory)
    (hgenerations : s.generations =
      Function.update root.generations (target svc root current plan) (some directory))
    {storageId : Bytes} {found : Directory} (hfound : s.generations storageId = some found) :
    found.HashedAt svc S storageId ∧
      ((∃ id checkpoint metadata, found.Validated svc id storageId checkpoint metadata) ∨
        ∃ a ∈ acceptances log, a.1.storage = storageId) := by
  by_cases htarget : storageId = target svc root current plan
  · subst htarget
    rw [hgenerations, Function.update_self] at hfound
    cases hfound
    obtain ⟨metadata, hvalid⟩ := hfit.validated hsvc hcurrent hplan (fun hexact => by
      rw [hretry] at hexact
      cases hexact)
    exact ⟨hfit.hashedAt h hcurrent hplan hhashed hretry, .inl ⟨_, _, _, hvalid⟩⟩
  · rw [hgenerations, Function.update_of_ne htarget] at hfound
    exact ⟨h.hashed storageId found hfound, h.stored storageId found hfound⟩

/-- The stage has been moved, and the pointer is as it was. -/
theorem Sound.placed (hsvc : svc.Lawful) (hS : Set.InjOn svc.sha256 S) (h : Sound svc S (root, log))
    (hcurrent : Current.Reads svc S root current) (hplan : Decided svc current stage plan)
    (hhashed : Hashed S root current stage plan) (hretry : isExactRetry plan current = false)
    (hfit : Fitting svc root current plan stage directory) (hs : s.current = root.current)
    (hgenerations : s.generations =
      Function.update root.generations (target svc root current plan) (some directory)) :
    Sound svc S (s, log) where
  chronicle := by
    obtain ⟨xs, hxs, htip⟩ := h.chronicle
    refine ⟨xs, hxs, ?_⟩
    cases xs with
    | nil => exact hs.trans htip
    | cons head rest =>
        obtain ⟨hq, storageId, hnames, hintact⟩ := htip
        refine ⟨hs.trans hq, storageId, hnames, fun hhead => ?_⟩
        obtain ⟨found, checkpoint, metadata, hfound, hvalid⟩ := hintact hhead
        refine ⟨found, checkpoint, metadata, ?_, hvalid⟩
        rw [hgenerations, Function.update_of_ne
          (target_ne hsvc hS hq hnames hcurrent hplan hhashed hretry).symm, hfound]
  hashed storageId found hfound :=
    (stored_update hsvc h hcurrent hplan hhashed hretry hfit hgenerations hfound).1
  stored storageId found hfound :=
    (stored_update hsvc h hcurrent hplan hhashed hretry hfit hgenerations hfound).2

/-- The block of a plan is not before the accepted one. -/
theorem Decided.le_block (hcurrent : Current.Reads svc S root current)
    (hplan : Decided svc current stage plan) {q : Pointer} {x : Content} {storageId : Bytes}
    (hsvc : svc.Lawful) (hS : Set.InjOn svc.sha256 S) (hq : root.current = some q)
    (hnames : q.Names svc S storageId x) : toBlock x.checkpoint ≤ toBlock plan.candidate := by
  cases hcurrent with
  | none hnone =>
      rw [hq] at hnone
      cases hnone
  | validated hq' names hdirectory valid harchive hprevious =>
      rw [hq] at hq'
      cases hq'
      rw [hnames.bound.unique hsvc hS names.bound]
      rcases hplan.decision with ⟨-, hsame, -⟩ | ⟨-, hlater⟩
      · rw [hsame]
      · exact hlater.le
  | damaged hq' names hdamaged =>
      rw [hq] at hq'
      cases hq'
      rw [hnames.bound.unique hsvc hS names.bound]
      exact hplan.decision.2.1.ge

/-- The pointer names the plan, which is a generation of its own or the accepted one. -/
theorem Sound.accepted (hsvc : svc.Lawful) (hS : Set.InjOn svc.sha256 S) (h : Sound svc S (root, log))
    (hcurrent : Current.Reads svc S root current) (hplan : Decided svc current stage plan)
    (hhashed : Hashed S root current stage plan) (hretry : isExactRetry plan current = false)
    (hfit : Fitting svc root current plan stage directory)
    (hs : s.current = some (pointerOf plan current (target svc root current plan)))
    (hgenerations : s.generations =
      Function.update root.generations (target svc root current plan) (some directory)) :
    let q := pointerOf plan current (target svc root current plan)
    ∃ x xs, Chronicle svc S (.accepted q (some directory) :: log) ((q, x) :: xs) ∧
      q.Names svc S (target svc root current plan) x ∧
        s.Intact svc q.generationId (target svc root current plan) ∧
          Sound svc S (s, .accepted q (some directory) :: log) := by
  intro q
  obtain ⟨archive, harchive, hbound⟩ := hplan.bound hhashed
  obtain ⟨metadata, hvalid⟩ := hfit.validated hsvc hcurrent hplan (fun hexact => by
    rw [hretry] at hexact
    cases hexact)
  obtain ⟨hfile, hstored⟩ := hfit.content hsvc hS h hcurrent hplan hhashed hretry
  let x : Content := ⟨plan.candidate, archive, predecessorOf plan current⟩
  have hnames : q.Names svc S (target svc root current plan) x :=
    pointerOf_names hsvc hS hcurrent hplan hhashed hretry hbound
  have hholds : Holds svc S q directory x := ⟨hnames, hfile, hstored.trans harchive⟩
  have hintact : s.Intact svc q.generationId (target svc root current plan) := by
    refine ⟨directory, plan.candidate, metadata, ?_, hvalid⟩
    rw [hgenerations, Function.update_self]
  have hchronicle : ∃ xs, Chronicle svc S (.accepted q (some directory) :: log) ((q, x) :: xs) := by
    obtain ⟨xs, hxs, htip⟩ := h.chronicle
    cases hcurrent with
    | none hq =>
        cases xs with
        | nil => exact ⟨[], .first hxs hholds rfl rfl⟩
        | cons head rest =>
            have hsome := htip.1
            rw [hq] at hsome
            cases hsome
    | validated hq names hdirectory valid harchive hprevious =>
        cases xs with
        | nil =>
            rw [show root.current = none from htip] at hq
            cases hq
        | cons head rest =>
            obtain ⟨p, y⟩ := head
            obtain ⟨hsome, storageId, hnames', -⟩ := htip
            rw [hq] at hsome
            cases hsome
            have hy := hnames'.bound.unique hsvc hS names.bound
            rcases hplan.decision with ⟨hkind, -⟩ | ⟨hkind, hlater⟩
            · simp [isExactRetry, hkind] at hretry
            · refine ⟨_, .next hxs hholds ?_ (by rw [hy]; exact hlater)
                (target_of_advance (.validated hq names hdirectory valid harchive hprevious) hretry rfl)⟩
              simp only [x, predecessorOf, Option.bind_some, hkind, if_neg
                (show DecisionKind.advance ≠ .unchanged from fun h => by cases h), Current.pointer]
    | damaged hq names hdamaged =>
        cases xs with
        | nil =>
            rw [show root.current = none from htip] at hq
            cases hq
        | cons head rest =>
            obtain ⟨p, y⟩ := head
            obtain ⟨hsome, storageId, hnames', -⟩ := htip
            rw [hq] at hsome
            cases hsome
            obtain ⟨-, -, hid⟩ := hplan.decision
            have hbound' := hbound
            rw [hid] at hbound'
            obtain rfl := hbound'.unique hsvc hS hnames'.bound
            refine ⟨_, .again hxs hholds hid rfl (hhashed.recovery _ rfl) ?_⟩
            rw [Pointer.storage, names.storage, Option.getD_some]
  obtain ⟨xs, hxs⟩ := hchronicle
  refine ⟨x, xs, hxs, hnames, hintact, ⟨_, hxs, hs, _, hnames, fun _ => hintact⟩, ?_, ?_⟩
  · exact fun storageId found hfound =>
      (stored_update hsvc h hcurrent hplan hhashed hretry hfit hgenerations hfound).1
  · intro storageId found hfound
    refine (stored_update hsvc h hcurrent hplan hhashed hretry hfit hgenerations hfound).2.imp_right ?_
    rintro ⟨a, ha, hstorage⟩
    exact ⟨a, List.mem_cons_of_mem _ ha, hstorage⟩

/-! ### What is stored does not stand in the way -/

theorem matchDestination_of_validated {storageId : Bytes} {metadata : Metadata} {digest : Bytes}
    (hvalid : directory.Validated svc plan.id storageId plan.candidate metadata)
    (harchive : directory.archive = stage.archive) (hdigest : svc.archiveTreeDigest stage.archive = .ok digest) :
    svc.matchDestination directory stage plan storageId = .ok () := by
  obtain ⟨entry, stream, hentry, hvisit, -⟩ := archiveTreeDigest_eq_ok hdigest
  unfold Service.matchDestination
  rw [validateGenerationDirectory_eq_ok.mpr hvalid, harchive, hentry]
  simp only [bind, Except.bind, revertIf, ne_eq, not_true_eq_false, if_false]
  exact matching_self entry hvisit

/-- A plan that is not a retry is stored where no generation was accepted. -/
theorem Sound.target_new (hsvc : svc.Lawful) (hS : Set.InjOn svc.sha256 S) (h : Sound svc S (root, log))
    (hcurrent : Current.Reads svc S root current) (hplan : Decided svc current stage plan)
    (hhashed : Hashed S root current stage plan) (hretry : isExactRetry plan current = false) :
    ∀ a ∈ acceptances log, a.1.storage ≠ target svc root current plan := by
  intro a ha htarget
  obtain ⟨xs, hxs, htip⟩ := h.chronicle
  obtain ⟨y, hy, hsame, -⟩ := hxs.of_acceptance ha
  rw [hsame] at htarget
  cases xs with
  | nil => cases hy
  | cons head rest =>
      obtain ⟨p, z⟩ := head
      obtain ⟨hp, storageId, hnames, -⟩ := htip
      cases hcurrent with
      | none hq =>
          rw [hq] at hp
          cases hp
      | validated hq names hdirectory valid harchive hprevious =>
          rw [hq] at hp
          cases hp
          have hle : toBlock y.2.checkpoint ≤ toBlock z.checkpoint := by
            rcases List.mem_cons.mp hy with rfl | hy
            · exact le_rfl
            · exact ((List.pairwise_cons.mp hxs.follows).1 y hy).le
          have hheight := (hxs.names hy).height hsvc
          obtain ⟨archive, -, hbound⟩ := hplan.bound hhashed
          rw [htarget, target_of_advance (.validated hq names hdirectory valid harchive hprevious) hretry rfl,
            hbound.height hsvc] at hheight
          obtain rfl := hnames.bound.unique hsvc hS names.bound
          rcases hplan.decision with ⟨hkind, -⟩ | ⟨-, hlater⟩
          · simp [isExactRetry, hkind] at hretry
          · exact absurd (hlater.trans_eq hheight) (Nat.not_lt.mpr hle)
      | damaged hq names hdamaged =>
          rw [hq] at hp
          cases hp
          obtain ⟨-, -, hid⟩ := hplan.decision
          refine hxs.recovery_new hsvc hS (hxs.apart hsvc hS) (hhashed.recovery _ rfl) ?_ hy (htarget.trans ?_)
          · rw [Pointer.storage, names.storage, Option.getD_some]
          · change svc.recoveryStorageId plan.id _ = svc.recoveryStorageId p.generationId _
            rw [show plan.id = p.generationId from hid]

/-- What is validated where a plan is stored is the generation of the plan. -/
theorem Decided.stored_id (hsvc : svc.Lawful) (hcurrent : Current.Reads svc S root current)
    (hplan : Decided svc current stage plan) (hhashed : Hashed S root current stage plan)
    (hretry : isExactRetry plan current = false) {id : Bytes} {checkpoint : Json} {metadata : Metadata}
    (hdirectory : directory.HashedAt svc S (target svc root current plan))
    (hvalid : directory.Validated svc id (target svc root current plan) checkpoint metadata) : id = plan.id := by
  obtain ⟨archive, -, hbound⟩ := hplan.bound hhashed
  obtain ⟨archive', -, hbound'⟩ := hvalid.bound hdirectory
  have hkind : ∀ {id : Bytes} {x : Content}, x.Bound svc S id → isRecovery id = false := by
    intro id x hx
    obtain ⟨stream, -, -, -, rfl⟩ := hx.hashed
    exact isRecovery_generationId hsvc
  cases hmade : recoveryOf root plan current with
  | none =>
      have htarget := target_of_advance hcurrent hretry hmade
      rcases hvalid.recovery with hid | ⟨recovery, -, -, -, -, hid⟩
      · rw [← hid, htarget]
      · have hrecovery := isRecovery_recoveryStorageId svc id recovery
        rw [← hid, htarget, hkind hbound] at hrecovery
        cases hrecovery
  | some made =>
      have htarget : target svc root current plan = svc.recoveryStorageId plan.id made := by
        rw [target, hmade]
        rfl
      rcases hvalid.recovery with hid | ⟨recovery, -, -, -, -, hid⟩
      · have hrecovery := isRecovery_recoveryStorageId svc plan.id made
        rw [← htarget, hid, hkind hbound'] at hrecovery
        cases hrecovery
      · exact recoveryStorageId_id (hbound'.length hsvc) (hbound.length hsvc) (hid.symm.trans htarget)

/-- A candidate that is not rejected is published. -/
theorem Sound.fits (hsvc : svc.Lawful) (hS : Set.InjOn svc.sha256 S) (h : Sound svc S (root, log))
    (hcurrent : Current.Reads svc S root current) (hplan : Decided svc current stage plan)
    (hhashed : Hashed S root current stage plan) : Fits svc root current plan stage := by
  obtain ⟨archive, harchive, hbound⟩ := hplan.bound hhashed
  by_cases hretry : isExactRetry plan current = true
  · cases hcurrent with
    | none hq => cases hretry
    | damaged hq names hdamaged => cases hretry
    | @validated q storageId x found metadata hq names hdirectory valid hx hprevious =>
        have hkind : plan.decision.decision = .unchanged := by simpa [isExactRetry] using hretry
        have htarget : target svc root (some (.validated ⟨.v3, q.generationId, storageId, x.previous⟩
            x.checkpoint metadata)) plan = storageId := by
          simp only [target, recoveryOf, Service.storageIdOf, if_pos hkind, Current.pointer]
        unfold Fits
        rw [htarget, hdirectory]
        refine ⟨fun _ => Option.some_ne_none _, fun directory hsome => ?_⟩
        obtain rfl := Option.some.inj hsome
        rcases hplan.decision with ⟨-, hcandidate, hid⟩ | ⟨hadvance, -⟩
        · have hid : plan.id = q.generationId := hid
          rw [hid] at hbound
          have hsame := hbound.unique hsvc hS names.bound
          rw [← hid, ← hcandidate] at valid
          refine matchDestination_of_validated valid ?_ hplan.digest
          rw [hx, harchive, ← hsame]
        · rw [hkind] at hadvance
          cases hadvance
  · rw [Bool.not_eq_true] at hretry
    refine ⟨fun hexact => absurd hexact (Bool.eq_false_iff.mp hretry), fun directory hdirectory => ?_⟩
    rcases h.stored _ directory hdirectory with ⟨id, checkpoint, metadata, hvalid⟩ | ⟨a, ha, hstorage⟩
    · have hat := h.hashed _ directory hdirectory
      obtain rfl := hplan.stored_id hsvc hcurrent hhashed hretry hat hvalid
      obtain ⟨archive', harchive', hbound'⟩ := hvalid.bound hat
      have hsame := hbound'.unique hsvc hS hbound
      rw [Content.mk.injEq] at hsame
      rw [hsame.1] at hvalid
      refine matchDestination_of_validated hvalid ?_ hplan.digest
      rw [harchive', harchive, hsame.2.1]
    · exact absurd hstorage (h.target_new hsvc hS hcurrent hplan hhashed hretry a ha)

end Publishing

/-! ### Runs -/

namespace Sound

variable {svc : Service} {S : Set Bytes} {root s : Root} {log : List Event} {current : Option Current}
  {plan : Plan} {stage : Directory} {rejected : Bytes} {n : ℕ}

theorem record_same (h : s.current = root.current) :
    record root (.publish stage rejected n) s log = log := by
  rw [record, h]
  cases root.current with
  | none => rfl
  | some q => simp only [if_true]

theorem record_staged {act : Act} (found : Option Directory) :
    record { root with stage := found } act s log = record root act s log := by
  cases act <;> rfl

theorem record_new {q : Pointer} (h : s.current = some q) (hne : root.current ≠ some q) :
    record root (.publish stage rejected n) s log = .accepted q (s.generations q.storage) :: log := by
  rw [record, h]
  simp only [if_neg hne]

/-- The pointer of a plan is new. -/
theorem pointer_ne (hsvc : svc.Lawful) (hS : Set.InjOn svc.sha256 S) (h : Sound svc S (root, log))
    (hcurrent : Current.Reads svc S root current) (hplan : Decided svc current stage plan)
    (hhashed : Hashed S root current stage plan) (hretry : isExactRetry plan current = false) :
    root.current ≠ some (pointerOf plan current (target svc root current plan)) := by
  intro hq
  obtain ⟨xs, -, htip⟩ := h.chronicle
  cases xs with
  | nil =>
      rw [show root.current = none from htip] at hq
      cases hq
  | cons head rest =>
      obtain ⟨hsome, storageId, hnames, -⟩ := htip
      have hstorage := hnames.storage
      rw [Option.some.inj (hsome.symm.trans hq)] at hstorage
      exact target_ne hsvc hS hsome hnames hcurrent hplan hhashed hretry (Option.some.inj hstorage)

/-- The accepted generation when it is published again. -/
theorem tip_of_validated (hsvc : svc.Lawful) (hS : Set.InjOn svc.sha256 S) (h : Sound svc S (root, log))
    (hcurrent : Current.Reads svc S root current) (hretry : isExactRetry plan current = true) :
    ∃ q x xs, Chronicle svc S log ((q, x) :: xs) ∧ root.current = some q ∧
      q.Names svc S (target svc root current plan) x ∧
        root.Intact svc q.generationId (target svc root current plan) := by
  cases hcurrent with
  | none hq => cases hretry
  | damaged hq names hdamaged => cases hretry
  | validated hq names hdirectory valid harchive hprevious =>
      obtain ⟨xs, hxs, htip⟩ := h.chronicle
      have hkind : plan.decision.decision = .unchanged := by simpa [isExactRetry] using hretry
      have htarget : ∀ {q : Pointer} {storageId : Bytes} {y : Content} {metadata : Metadata},
          target svc root (some (.validated ⟨.v3, q.generationId, storageId, y.previous⟩ y.checkpoint
            metadata)) plan = storageId := by
        intro q storageId y metadata
        simp only [target, recoveryOf, Service.storageIdOf, if_pos hkind, Current.pointer]
      cases xs with
      | nil =>
          rw [show root.current = none from htip] at hq
          cases hq
      | cons head rest =>
          obtain ⟨p, y⟩ := head
          obtain ⟨hsome, storageId, hnames, -⟩ := htip
          rw [hq] at hsome
          cases hsome
          obtain rfl := hnames.bound.unique hsvc hS names.bound
          exact ⟨_, _, rest, hxs, hq, by rw [htarget]; exact names,
            by rw [htarget]; exact ⟨_, _, _, hdirectory, valid⟩⟩

theorem visited (hsvc : svc.Lawful) (hS : Set.InjOn svc.sha256 S) (h : Sound svc S (root, log))
    (hcurrent : Current.Reads svc S root current) (hplan : Decided svc current stage plan)
    (hhashed : Hashed S root current stage plan) (hvisited : Visited svc root current plan stage s) :
    Sound svc S (s, record root (.publish stage rejected n) s log) := by
  cases hvisited with
  | kept hsame =>
      rw [record_same hsame.current]
      exact h.same hsame
  | confirmed hretry hcleared =>
      obtain ⟨q, x, xs, hxs, hq, hnames, hintact⟩ := h.tip_of_validated hsvc hS hcurrent hretry
      obtain ⟨hsound, hsame, -⟩ := h.cleared hsvc hS hxs hq hnames hintact hcleared
      rw [record_same hsame]
      exact hsound
  | placed hretry hfit hs hgenerations =>
      rw [record_same hs]
      exact h.placed hsvc hS hcurrent hplan hhashed hretry hfit hs hgenerations
  | accepted hretry hfit hs hgenerations hcleared =>
      obtain ⟨x, xs, hxs, hnames, hintact, hsound⟩ :=
        h.accepted hsvc hS hcurrent hplan hhashed hretry hfit hs hgenerations
      obtain ⟨hsound', hsame, hkept⟩ := hsound.cleared hsvc hS hxs hs hnames hintact hcleared
      rw [record_new (hsame.trans hs) (h.pointer_ne hsvc hS hcurrent hplan hhashed hretry)]
      have hstorage : (pointerOf plan current (target svc root current plan)).storage =
          target svc root current plan := rfl
      rw [hstorage, hkept, hgenerations, Function.update_self]
      exact hsound'

/-- Somebody else changes the directory of the accepted generation. -/
theorem damage (h : Sound svc S (root, log)) {q : Pointer} (hq : root.current = some q)
    {found : Option Directory} (hhashed : ∀ d ∈ found, d.HashedAt svc S q.storage)
    (hs : s.current = root.current)
    (hgenerations : s.generations = Function.update root.generations q.storage found) :
    Sound svc S (s, .damaged :: log) := by
  obtain ⟨xs, hxs, htip⟩ := h.chronicle
  cases xs with
  | nil =>
      rw [show root.current = none from htip] at hq
      cases hq
  | cons head rest =>
      obtain ⟨p, x⟩ := head
      obtain ⟨hsome, storageId, hnames, -⟩ := htip
      obtain rfl := Option.some.inj (hsome.symm.trans hq)
      have hstorage : p.storage = storageId := by rw [Pointer.storage, hnames.storage, Option.getD_some]
      rw [hstorage] at hgenerations hhashed
      constructor
      · exact ⟨_, .damaged hxs, hs.trans hq, storageId, hnames, fun hhead => absurd rfl hhead⟩
      · intro other directory hdirectory
        by_cases hother : other = storageId
        · rw [hgenerations, hother, Function.update_self] at hdirectory
          rw [hother]
          exact hhashed directory hdirectory
        · rw [hgenerations, Function.update_of_ne hother] at hdirectory
          exact h.hashed other directory hdirectory
      · intro other directory hdirectory
        by_cases hother : other = storageId
        · obtain ⟨a, ha, hsame, -⟩ := hxs.mem_acceptances (List.mem_cons_self ..)
          exact .inr ⟨a, ha, by rw [hsame, hstorage, hother]⟩
        · rw [hgenerations, Function.update_of_ne hother] at hdirectory
          exact h.stored other directory hdirectory

/-- The publisher is given its stage. -/
theorem staged (h : Sound svc S (root, log)) (stage : Directory) :
    Sound svc S ({ root with stage := some stage }, log) := h.same ⟨rfl, rfl⟩

theorem step {p p' : Root × List Event} {act : Act} (hsvc : svc.Lawful) (hS : Set.InjOn svc.sha256 S)
    (h : Sound svc S p) (hhashes : act.Hashes svc S p.1)
    (hstep : (publicationHistory svc).step p act = some p') : Sound svc S p' := by
  obtain ⟨root, log⟩ := p
  obtain ⟨hs, hlog⟩ := System.withHistory_step.mp hstep
  obtain ⟨root', log'⟩ := p'
  change log' = record root act root' log at hlog
  subst hlog
  cases act with
  | publish stage rejected n =>
      obtain rfl : (svc.publishGenerationSync rejected).after { root with stage := some stage } n = root' :=
        Option.some.inj hs
      have hstaged := h.staged stage
      obtain ⟨current, hread, hcurrent⟩ := hstaged.reads hsvc hS
      rw [← record_staged (some stage)]
      rcases publish_visited rejected hsvc rfl hread hcurrent n with hsame | ⟨plan, hplan, hvisited⟩
      · rw [record_same hsame.current]
        exact hstaged.same hsame
      · obtain ⟨hstream, hidentity, hrecovery⟩ := hhashes current plan hread hplan.decided
        exact hstaged.visited hsvc hS hcurrent (decideGeneration_eq_ok hcurrent hplan.decided)
          ⟨hstream, hidentity, hrecovery⟩ hvisited
  | damage found =>
      obtain ⟨q, hq, rfl⟩ := Option.map_eq_some_iff.mp hs
      exact h.damage hq (fun d hd => hhashes d hd q hq) rfl rfl

theorem of_reachable {p : Root × List Event} (hsvc : svc.Lawful) (hS : Set.InjOn svc.sha256 S)
    (h : (publicationHistory svc).Reachable (fun p act => act.Hashes svc S p.1) p) : Sound svc S p := by
  refine h.invariant ?_ (fun _ _ _ _ hp hhashes hstep => hp.step hsvc hS hhashes hstep)
  rintro ⟨root, log⟩ ⟨hroot, hlog⟩
  obtain rfl : root = {} := hroot
  obtain rfl : log = [] := hlog
  exact Sound.init

end Sound

end P42Prizes.Generations
