import P42Prizes.Reverting

/-! # Typed transcripts

A transcript is a list of typed events.  Every event is encoded into a frame of words, the frame is cut
into blocks of the rate of the profile, and a block is absorbed together with a control word.  The
integers of an event are Python's, so any of them may be negative until it is checked. -/

namespace P42Prizes.TypedTranscript

open Reverting

/-! ### The specification -/

inductive ProfileName where
  | innerKoalabearV1 | outerBn254RateKoalabearV1
deriving DecidableEq, Repr

inductive EventTag where
  | protocolInit | baseField | extensionField | digest | commitment | sliceBegin | sliceEnd
  | containerBegin | containerEnd | squeezeField | squeezeBits | squeezeExtension
deriving DecidableEq, Repr

inductive EncodingTag where
  | none | koalaBearDirect | koalaBearPacked8 | extension4KoalaBearDirect | extension4KoalaBearPacked8
  | koalaBearDigest8 | container | squeezeRequest | koalaBearDigest8Packed8 | versionEnvelopeU16
deriving DecidableEq, Repr

inductive Phase where
  | absorbFrame | squeezeContinuation
deriving DecidableEq, Repr

structure FieldProfile where
  profileId : ℕ
  fieldId : ℕ
  permutationId : ℕ
  modulus : ℕ
  width : ℕ
  rate : ℕ
  capacity : ℕ
  maxSqueezeBits : ℕ
  supportsSqueezeExtension : Bool
deriving DecidableEq, Repr

/-- `wireMagic` is the bytes of `wireMagicHex`. -/
structure VersionEnvelope where
  wireLengthBytes : ℕ
  wireMagic : List ℕ
  fieldWordBytes : ℕ
  reservedFinalByte : ℕ
deriving DecidableEq, Repr

structure Constants where
  protocolMagic : ℕ
  frameEnd : ℕ
  blockControlBase : ℕ
  profileShift : ℕ
  phaseShift : ℕ
  finalShift : ℕ
  occupiedShift : ℕ
  blockIndexBits : ℕ
  lengthRadix : ℕ
  lengthLimbs : ℕ
  koalaBearPackingRadix : ℕ
  koalaBearValuesPerBn254Word : ℕ

structure Spec where
  version : ℕ
  fieldProfiles : ProfileName → FieldProfile
  versionEnvelope : VersionEnvelope
  constants : Constants
  phases : Phase → ℕ
  eventTags : EventTag → ℕ
  encodingTags : EncodingTag → ℕ

inductive RejectCode where
  | integerRange | byteRange | specEnvelopeLength | eventShape | initEnvelope | squeezeBitsRange
  | extensionSqueezeForbidden | packedDigitCount | noncanonicalPackedWord | noncanonicalKbDigit
  | undeclaredPackedDigit | noncanonicalKbWord | noncanonicalBn254Word | blockLimit
  | noncanonicalBlock | initRequired | initRepeated | counter | squeezeInContainer | nesting
  | childCount | specProfile | specEnvelope | specId | specWidth | specRate | specSqueezeBits
  | specControlLayout | specTag | specControlRange
deriving DecidableEq, Repr

/-! ### Events and their frames -/

structure Event where
  tag : EventTag
  encoding : EncodingTag
  counter : ℤ
  logicalLength : ℤ
  payload : List ℤ
deriving DecidableEq, Repr

def EventTag.squeezes : EventTag → Bool
  | squeezeField | squeezeBits | squeezeExtension => true
  | _ => false

/-- The `count` lowest digits of an integer, the lowest first. -/
def limbs (radix : ℕ) : ℕ → ℤ → List ℤ
  | 0, _ => []
  | count + 1, value => value % radix :: limbs radix count (value / radix)

/-- `limbs_u64` -/
def limbsU64 (value : ℤ) (radix count : ℕ) : Except RejectCode (List ℤ) := do
  revertIf (value < 0 ∨ (radix : ℤ) ^ count ≤ value) .integerRange
  pure (limbs radix count value)

namespace Spec

variable (spec : Spec)

/-- `canonical_envelope_bytes`; a byte that is out of range is an error of the language. -/
def canonicalEnvelopeBytes (profileName : ProfileName) : Except RejectCode (List ℕ) := do
  let profile := spec.fieldProfiles profileName
  let envelope := spec.versionEnvelope
  revertIf (65536 ≤ spec.version) .byteRange
  let parameters := [profile.profileId, profile.fieldId, profile.permutationId, profile.rate,
    profile.width, envelope.reservedFinalByte]
  revertIf (∃ byte ∈ parameters, 256 ≤ byte) .byteRange
  let wire := envelope.wireMagic ++ [spec.version / 256, spec.version % 256] ++ parameters
  revertIf (wire.length ≠ envelope.wireLengthBytes) .specEnvelopeLength
  pure wire

/-- The words of so many bytes, the first byte being the highest. -/
def fieldWords (wordBytes : ℕ) (wire : List ℕ) : List ℤ :=
  (List.range ((wire.length + wordBytes - 1) / wordBytes)).map (fun k =>
    (((wire.drop (k * wordBytes)).take wordBytes).foldl (fun acc byte => 256 * acc + byte) 0 : ℕ))

/-- `envelope_field_words` -/
def envelopeFieldWords (profileName : ProfileName) : Except RejectCode (List ℤ) := do
  let wire ← spec.canonicalEnvelopeBytes profileName
  pure (fieldWords spec.versionEnvelope.fieldWordBytes wire)

/-- `encode_event` -/
def encodeEvent (event : Event) : Except RejectCode (List ℤ) := do
  let constants := spec.constants
  let counter ← limbsU64 event.counter constants.lengthRadix constants.lengthLimbs
  let logicalLength ← limbsU64 event.logicalLength constants.lengthRadix constants.lengthLimbs
  let payloadLength ← limbsU64 event.payload.length constants.lengthRadix constants.lengthLimbs
  pure ([(constants.protocolMagic : ℤ), spec.version, spec.eventTags event.tag,
      spec.encodingTags event.encoding] ++ counter ++ logicalLength ++ payloadLength ++
    event.payload ++ [(constants.frameEnd : ℤ)])

end Spec

/-! ### The shape of an event -/

/-- The digits of a packed word, and what remains of it. -/
def packedDigits (radix : ℕ) (kbModulus : ℕ) : ℕ → ℤ → Except RejectCode (List ℤ × ℤ)
  | 0, remaining => pure ([], remaining)
  | digits + 1, remaining => do
      let digit := remaining % radix
      revertIf ((kbModulus : ℤ) ≤ digit) .noncanonicalKbDigit
      let (rest, remaining) ← packedDigits radix kbModulus digits (remaining / radix)
      pure (digit :: rest, remaining)

/-- `decompose_packed_word` -/
def decomposePackedWord (word digits : ℤ) (radix kbModulus : ℕ) : Except RejectCode (List ℤ) := do
  revertIf (digits < 1 ∨ 8 < digits) .packedDigitCount
  revertIf (word < 0) .noncanonicalPackedWord
  let (decomposition, remaining) ← packedDigits radix kbModulus digits.toNat word
  revertIf (remaining ≠ 0) .undeclaredPackedDigit
  pure decomposition

namespace Spec

variable (spec : Spec)

/-- The number of words that `validate_event_shape` expects of a payload, if the encoding fits the tag. -/
def expectedPayloadLength (profileName : ProfileName) (event : Event) :
    Except RejectCode (Option ℤ) :=
  let logicalLength := event.logicalLength
  let packedWidth : ℤ := spec.constants.koalaBearValuesPerBn254Word
  let profile := spec.fieldProfiles profileName
  let isInner := profileName = .innerKoalabearV1
  match event.tag with
  | .baseField =>
      if isInner ∧ event.encoding = .koalaBearDirect then pure (some logicalLength)
      else if ¬ isInner ∧ event.encoding = .koalaBearPacked8 then
        pure (some ((logicalLength + packedWidth - 1) / packedWidth))
      else pure none
  | .extensionField =>
      let coefficients := logicalLength * 4
      if isInner ∧ event.encoding = .extension4KoalaBearDirect then pure (some coefficients)
      else if ¬ isInner ∧ event.encoding = .extension4KoalaBearPacked8 then
        pure (some ((coefficients + packedWidth - 1) / packedWidth))
      else pure none
  | .digest | .commitment =>
      if isInner ∧ event.encoding = .koalaBearDigest8 then pure (some (logicalLength * 8))
      else if ¬ isInner ∧ event.encoding = .koalaBearDigest8Packed8 then pure (some logicalLength)
      else pure none
  | .sliceBegin | .containerBegin => pure (if event.encoding = .container then some 0 else none)
  | .sliceEnd | .containerEnd =>
      if event.encoding = .container then do
        revertIf (logicalLength ≠ 0) .eventShape
        pure (some 0)
      else pure none
  | .squeezeField | .squeezeBits | .squeezeExtension =>
      if event.encoding = .squeezeRequest then do
        revertIf (logicalLength = 0) .eventShape
        revertIf (event.tag = .squeezeBits ∧ (profile.maxSqueezeBits : ℤ) < logicalLength)
          .squeezeBitsRange
        revertIf (event.tag = .squeezeExtension ∧ profile.supportsSqueezeExtension = false)
          .extensionSqueezeForbidden
        pure (some 0)
      else pure none
  | .protocolInit => pure none

/-- The check of a packed word of so many digits. -/
def checkPackedWord (word digits : ℤ) : Except RejectCode Unit := do
  let _ ← decomposePackedWord word digits spec.constants.koalaBearPackingRadix
    (spec.fieldProfiles .innerKoalabearV1).modulus
  revertIf (((spec.fieldProfiles .outerBn254RateKoalabearV1).modulus : ℤ) ≤ word)
    .noncanonicalBn254Word

/-- The check of the words of a payload, by the encoding. -/
def checkPayloadWords (event : Event) : Except RejectCode Unit :=
  let packedWidth : ℤ := spec.constants.koalaBearValuesPerBn254Word
  let packed (sourceLength : ℤ) : Except RejectCode Unit :=
    event.payload.zipIdx.forM (fun (word, index) =>
      spec.checkPackedWord word (min packedWidth (sourceLength - index * packedWidth)))
  match event.encoding with
  | .koalaBearDirect | .extension4KoalaBearDirect | .koalaBearDigest8 =>
      revertIf (∃ word ∈ event.payload,
        word < 0 ∨ ((spec.fieldProfiles .innerKoalabearV1).modulus : ℤ) ≤ word) .noncanonicalKbWord
  | .koalaBearPacked8 => packed event.logicalLength
  | .extension4KoalaBearPacked8 => packed (event.logicalLength * 4)
  | .koalaBearDigest8Packed8 => event.payload.forM (fun word => spec.checkPackedWord word packedWidth)
  | _ => pure ()

/-- `validate_event_shape` -/
def validateEventShape (profileName : ProfileName) (event : Event) : Except RejectCode Unit :=
  if event.tag = .protocolInit then do
    let expectedPayload ← spec.envelopeFieldWords profileName
    revertIf (event.counter ≠ 0 ∨ event.logicalLength ≠ spec.versionEnvelope.wireLengthBytes ∨
      event.encoding ≠ .versionEnvelopeU16 ∨ event.payload ≠ expectedPayload) .initEnvelope
  else do
    let expected ← spec.expectedPayloadLength profileName event
    revertIf (expected ≠ some (event.payload.length : ℤ)) .eventShape
    spec.checkPayloadWords event

/-! ### Blocks -/

/-- `block_control` -/
def blockControl (profile : FieldProfile) (phase : Phase) (index occupied : ℕ) (final : Bool) :
    Except RejectCode ℕ := do
  let constants := spec.constants
  revertIf (1 <<< constants.blockIndexBits ≤ index) .blockLimit
  pure (constants.blockControlBase + profile.profileId <<< constants.profileShift +
    spec.phases phase <<< constants.phaseShift + final.toNat <<< constants.finalShift +
    occupied <<< constants.occupiedShift + index)

end Spec

structure Block where
  index : ℕ
  occupied : ℕ
  final : Bool
  control : ℕ
  rateWords : List ℤ
deriving DecidableEq, Repr

namespace Spec

variable (spec : Spec)

/-- The block of a frame with so many blocks before it. -/
def absorbBlock (profile : FieldProfile) (words : List ℤ) (index : ℕ) : Except RejectCode Block := do
  let chunk := (words.drop (index * profile.rate)).take profile.rate
  let final := decide (words.length ≤ index * profile.rate + profile.rate)
  let control ← spec.blockControl profile .absorbFrame index chunk.length final
  revertIf (profile.modulus ≤ control ∨ ∃ word ∈ chunk, word < 0 ∨ (profile.modulus : ℤ) ≤ word)
    .noncanonicalBlock
  pure ⟨index, chunk.length, final, control, chunk ++ List.replicate (profile.rate - chunk.length) 0⟩

/-- `absorb_blocks` -/
def absorbBlocks (profileName : ProfileName) (words : List ℤ) : Except RejectCode (List Block) :=
  let profile := spec.fieldProfiles profileName
  (List.range ((words.length + profile.rate - 1) / profile.rate)).mapM (spec.absorbBlock profile words)

/-- `squeeze_continuations` -/
def squeezeContinuations (profileName : ProfileName) (event : Event) :
    Except RejectCode (List Block) :=
  if event.tag.squeezes = false then pure []
  else
    let profile := spec.fieldProfiles profileName
    let physicalOutputs : ℤ :=
      match event.tag with
      | .squeezeBits => 1
      | .squeezeExtension => event.logicalLength * 4
      | _ => event.logicalLength
    let remaining := max 0 (physicalOutputs - profile.rate)
    let count := ((remaining + profile.rate - 1) / profile.rate).toNat
    (List.range count).mapM (fun index => do
      let final := decide (index + 1 = count)
      let control ← spec.blockControl profile .squeezeContinuation index 0 final
      pure ⟨index, 0, final, control, List.replicate profile.rate 0⟩)

end Spec

/-! ### The state of a transcript -/

inductive Mode where
  | uninitialized | absorbing
deriving DecidableEq, Repr

inductive CollectionKind where
  | slice | container
deriving DecidableEq, Repr

structure Collection where
  kind : CollectionKind
  declaredChildren : ℤ
  observedChildren : ℤ := 0
deriving DecidableEq, Repr

inductive PermutationStateStatus where
  | exact | notGenerated
deriving DecidableEq, Repr

/-- The innermost open collection is the first of the stack. -/
structure State where
  mode : Mode := .uninitialized
  nextCounter : ℤ := 0
  collectionStack : List Collection := []
  permutationStateStatus : PermutationStateStatus := .exact
  permutationState : Option (List ℕ)
deriving DecidableEq, Repr

inductive TransitionKind where
  | absorb | squeeze
deriving DecidableEq, Repr

/-- A computation that changes a state in place, and may be rejected. -/
abbrev Updating (α : Type) := ExceptT RejectCode (StateM State) α

def rejectIf (p : Prop) [Decidable p] (code : RejectCode) : Updating Unit := if p then throw code else pure ()

/-- `observe_child` -/
def observeChild : Updating Unit :=
  modify (fun state =>
    match state.collectionStack with
    | [] => state
    | frame :: outer =>
        { state with
          collectionStack := { frame with observedChildren := frame.observedChildren + 1 } :: outer })

/-- The collection that an event begins. -/
def beginCollection (kind : CollectionKind) (event : Event) : Updating Unit := do
  observeChild
  modify (fun state => { state with
    collectionStack := { kind := kind, declaredChildren := event.logicalLength } :: state.collectionStack })

def endCollection (kind : CollectionKind) : Updating Unit := do
  match (← get).collectionStack with
  | [] => throw .nesting
  | frame :: outer => do
      rejectIf (frame.kind ≠ kind) .nesting
      rejectIf (frame.observedChildren ≠ frame.declaredChildren) .childCount
      modify (fun state => { state with collectionStack := outer })

/-- What an event does to the mode and to the collections. -/
def applyTag (event : Event) : Updating Unit :=
  match event.tag with
  | .protocolInit => modify (fun state => { state with mode := .absorbing })
  | .sliceBegin => beginCollection .slice event
  | .containerBegin => beginCollection .container event
  | .sliceEnd => endCollection .slice
  | .containerEnd => endCollection .container
  | .squeezeField | .squeezeBits | .squeezeExtension => pure ()
  | .baseField | .extensionField | .digest | .commitment => observeChild

/-- The first event is `protocolInit`, and no other. -/
def checkMode (event : Event) (state : State) : Updating Unit :=
  if state.mode = .uninitialized then rejectIf (event.tag ≠ .protocolInit) .initRequired
  else rejectIf (event.tag = .protocolInit) .initRepeated

/-- `apply_event_state` -/
def applyEventState (event : Event) : Updating TransitionKind := do
  let state ← get
  checkMode event state
  rejectIf (event.counter ≠ state.nextCounter) .counter
  rejectIf (event.tag.squeezes = true ∧ state.collectionStack ≠ []) .squeezeInContainer
  applyTag event
  modify (fun state => { state with nextCounter := state.nextCounter + 1 })
  modify (fun state =>
    if state.permutationStateStatus = .exact then
      { state with permutationStateStatus := .notGenerated, permutationState := none }
    else state)
  pure (if event.tag.squeezes = true then .squeeze else .absorb)

/-! ### Transcripts -/

structure Step where
  index : ℕ
  transitionKind : TransitionKind
  expectedBefore : State
  expectedFrameWords : List ℤ
  expectedAbsorbBlocks : List Block
  expectedSqueezeContinuations : List Block
  expectedAfter : State

structure Transcript where
  expectedInitial : State
  expectedSteps : List Step
  expectedFinal : State

/-- The words of all frames. -/
def Transcript.stream (transcript : Transcript) : List ℤ :=
  transcript.expectedSteps.flatMap Step.expectedFrameWords

namespace Spec

variable (spec : Spec) (profileName : ProfileName)

/-- `initial_snapshot` -/
def initialSnapshot : State :=
  { permutationState := some (List.replicate (spec.fieldProfiles profileName).width 0) }

/-- An event of `run_transcript`. -/
def runEvent (index : ℕ) (before : State) (event : Event) : Except RejectCode Step := do
  spec.validateEventShape profileName event
  let words ← spec.encodeEvent event
  match (applyEventState event).run.run before with
  | (.error code, _) => .error code
  | (.ok kind, after) => do
      let blocks ← spec.absorbBlocks profileName words
      let continuations ← spec.squeezeContinuations profileName event
      pure ⟨index, kind, before, words, blocks, continuations, after⟩

def runEvents (index : ℕ) (state : State) : List Event → Except RejectCode (List Step × State)
  | [] => pure ([], state)
  | event :: events => do
      let step ← spec.runEvent profileName index state event
      let (steps, final) ← runEvents (index + 1) step.expectedAfter events
      pure (step :: steps, final)

/-- `run_transcript` -/
def runTranscript (events : List Event) : Except RejectCode Transcript := do
  let initial := spec.initialSnapshot profileName
  let (steps, final) ← spec.runEvents profileName 0 initial events
  revertIf (final.mode = .uninitialized) .initRequired
  revertIf (final.collectionStack ≠ []) .nesting
  pure ⟨initial, steps, final⟩

/-! ### The committed specification -/

def expectedProfiles : ProfileName → FieldProfile
  | .innerKoalabearV1 => ⟨1, 1, 1, 2130706433, 16, 8, 8, 30, true⟩
  | .outerBn254RateKoalabearV1 =>
      ⟨2, 2, 2, 21888242871839275222246405745257275088548364400416034343698204186575808495617, 3, 2, 1,
        30, true⟩

def eventTagList : List EventTag :=
  [.protocolInit, .baseField, .extensionField, .digest, .commitment, .sliceBegin, .sliceEnd,
    .containerBegin, .containerEnd, .squeezeField, .squeezeBits, .squeezeExtension]

def encodingTagList : List EncodingTag :=
  [.none, .koalaBearDirect, .koalaBearPacked8, .extension4KoalaBearDirect,
    .extension4KoalaBearPacked8, .koalaBearDigest8, .container, .squeezeRequest,
    .koalaBearDigest8Packed8, .versionEnvelopeU16]

/-- `validate_spec_invariants`, of the part of the specification that is modelled here. -/
def validateSpecInvariants : Except RejectCode Unit := do
  let inner := spec.fieldProfiles .innerKoalabearV1
  let outer := spec.fieldProfiles .outerBn254RateKoalabearV1
  let envelope := spec.versionEnvelope
  let constants := spec.constants
  revertIf (inner ≠ expectedProfiles .innerKoalabearV1 ∨
    outer ≠ expectedProfiles .outerBn254RateKoalabearV1) .specProfile
  revertIf (envelope.wireLengthBytes ≠ 16 ∨ envelope.wireMagic ≠ [80, 52, 50, 84, 84, 86, 49, 0] ∨
    envelope.fieldWordBytes ≠ 2 ∨ envelope.reservedFinalByte ≠ 0) .specEnvelope
  revertIf (inner.profileId = outer.profileId ∨ inner.fieldId = outer.fieldId ∨
    inner.permutationId = outer.permutationId) .specId
  revertIf (inner.width ≠ inner.rate + inner.capacity ∨ outer.width ≠ outer.rate + outer.capacity)
    .specWidth
  revertIf (15 < inner.rate ∨ 15 < outer.rate) .specRate
  revertIf (inner.maxSqueezeBits ≠ 30 ∨ outer.maxSqueezeBits ≠ 30) .specSqueezeBits
  revertIf (¬ (constants.occupiedShift = constants.blockIndexBits ∧
    constants.occupiedShift + 4 ≤ constants.finalShift ∧ constants.finalShift < constants.phaseShift ∧
    constants.phaseShift + 2 ≤ constants.profileShift)) .specControlLayout
  revertIf (¬ (eventTagList.map spec.eventTags).Nodup ∨ ¬ (encodingTagList.map spec.encodingTags).Nodup ∨
    spec.phases .absorbFrame = spec.phases .squeezeContinuation) .specTag
  let innerMaximum ← spec.blockControl inner .squeezeContinuation 65535 inner.rate true
  revertIf (inner.modulus ≤ innerMaximum) .specControlRange
  let outerMaximum ← spec.blockControl outer .squeezeContinuation 65535 outer.rate true
  revertIf (outer.modulus ≤ outerMaximum) .specControlRange

/-- `typed-transcript-v1.json` -/
def typedTranscriptV1 : Spec where
  version := 1
  fieldProfiles := expectedProfiles
  versionEnvelope := ⟨16, [80, 52, 50, 84, 84, 86, 49, 0], 2, 0⟩
  constants :=
    { protocolMagic := 1345597953
      frameEnd := 1162757121
      blockControlBase := 1073741824
      profileShift := 23
      phaseShift := 21
      finalShift := 20
      occupiedShift := 16
      blockIndexBits := 16
      lengthRadix := 65536
      lengthLimbs := 4
      koalaBearPackingRadix := 2147483648
      koalaBearValuesPerBn254Word := 8 }
  phases
    | .absorbFrame => 1
    | .squeezeContinuation => 2
  eventTags
    | .protocolInit => 1
    | .baseField => 16
    | .extensionField => 17
    | .digest => 18
    | .commitment => 19
    | .sliceBegin => 32
    | .sliceEnd => 33
    | .containerBegin => 34
    | .containerEnd => 35
    | .squeezeField => 48
    | .squeezeBits => 49
    | .squeezeExtension => 50
  encodingTags
    | .none => 0
    | .koalaBearDirect => 1
    | .koalaBearPacked8 => 2
    | .extension4KoalaBearDirect => 3
    | .extension4KoalaBearPacked8 => 4
    | .koalaBearDigest8 => 5
    | .container => 7
    | .squeezeRequest => 8
    | .koalaBearDigest8Packed8 => 9
    | .versionEnvelopeU16 => 10

end Spec
end P42Prizes.TypedTranscript
