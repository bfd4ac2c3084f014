import P42Prizes.Abi
import P42Prizes.Deployment

/-! # The objective guests

An objective guest runs off the chain and commits to one word, the digest of its journal.  It gets
the data of a dispute in a witness, checks that the solution is the committed one and that the
corrected outcome is the one the solution deserves, and hashes the witness as the contracts hash
their storage.  Its words are arrays of 32 bytes, written byte by byte.

The guests share this code and differ in how they score a solution; the score is a parameter here.
`keccak256` and `sha256` are those of the chain. -/

namespace P42Prizes.Guest

abbrev Word := Vector UInt8 32
abbrev Address := Vector UInt8 20

/-! ### Words -/

/-- `to_be_bytes`, of an integer of `n` bytes. -/
def toBeBytes (n value : ℕ) : Vector UInt8 n :=
  Vector.ofFn (fun i => UInt8.ofNat (value / 256 ^ (n - 1 - i)))

def wordAddress (address : Address) : Word := (Vector.replicate 12 (0 : UInt8)).append address
def wordBool (value : Bool) : Word :=
  (Vector.replicate 31 (0 : UInt8)).append #v[if value then 1 else 0]
def wordU128 (value : ℕ) : Word := (Vector.replicate 16 (0 : UInt8)).append (toBeBytes 16 value)
def wordUsize (value : ℕ) : Word := (Vector.replicate 24 (0 : UInt8)).append (toBeBytes 8 value)

/-- `word_i128`, in two's complement. -/
def wordI128 (value : ℤ) : Word :=
  (Vector.replicate 16 (if value < 0 then (0xff : UInt8) else 0)).append
    (toBeBytes 16 (value % 2 ^ 128).toNat)

/-- The bytes of a word of the chain. -/
def ofBytes32 (v : Bytes32) : Word :=
  Vector.ofFn (fun i => UInt8.ofBitVec (v.extractLsb' (8 * (31 - i)) 8))

/-- The bytes of an address of the chain. -/
def ofAddress (a : P42Prizes.Address) : Address :=
  Vector.ofFn (fun i => UInt8.ofBitVec (a.extractLsb' (8 * (19 - i)) 8))

/-! ### Hashes -/

variable (c : Crypto)

def keccak256 (bytes : Bytes) : Word := ofBytes32 (c.keccak256 bytes)
def sha256 (bytes : Bytes) : Word := ofBytes32 (c.sha256 bytes)

def wordsBytes (words : List Word) : Bytes := words.flatMap (fun word => word.toList)

def keccakWords (words : List Word) : Word := keccak256 c (wordsBytes words)

/-- What `keccak_tagged` hashes; the lengths become words by `wordOf`. -/
def taggedBytes (wordOf : ℕ → Word) (tag : Bytes) (words : List Word) : Bytes :=
  let headWords := 1 + words.length
  let paddedTagLen := (tag.length + 31) / 32 * 32
  (wordOf (headWords * 32)).toList ++ wordsBytes words ++ (wordOf tag.length).toList ++ tag ++
    List.replicate (paddedTagLen - tag.length) 0

def keccakTagged (wordOf : ℕ → Word) (tag : Bytes) (words : List Word) : Word :=
  keccak256 c (taggedBytes wordOf tag words)

/-! ### The journal -/

def contextTag : Bytes := ascii "P42_OBJECTIVE_CHALLENGE_CONTEXT_V2"
def journalTag : Bytes := ascii "P42_OBJECTIVE_VERDICT_JOURNAL_V2"

structure ObjectiveWitness where
  chainId : Word
  quorum : Address
  manager : Address
  submissionManager : Address
  registry : Address
  problemId : Word
  objectivePackageHash : Word
  guestElfSha256 : Word
  programVkey : Word
  submissionId : Word
  solver : Address
  commitment : Word
  commitDaHash : Word
  solutionCid : Bytes
  claimedScoreAtoms : Word
  improvementAtoms : Word
  challengeEndsAt : Word
  challenger : Address
  reasonHash : Word
  challengedAt : Word
  disputeEndsAt : Word
  pendingChallengerWins : Bool
  transcriptHash : Word
  transcriptUri : Bytes
  verdictHash : Word
  correctedChallengerWins : Bool
  proofBeneficiary : Address
  solution : Bytes
deriving DecidableEq

namespace ObjectiveWitness

variable (witness : ObjectiveWitness)

def revealWords : List Word :=
  [wordAddress witness.submissionManager, witness.chainId, witness.submissionId,
    wordAddress witness.solver, witness.commitment, witness.commitDaHash,
    keccak256 c witness.solutionCid, witness.claimedScoreAtoms, witness.improvementAtoms,
    witness.challengeEndsAt]

def revealInstanceHash : Word := keccakWords c (witness.revealWords c)

def challengeWords : List Word :=
  [wordAddress witness.manager, witness.chainId, witness.submissionId,
    witness.revealInstanceHash c, wordAddress witness.challenger, witness.reasonHash,
    witness.challengedAt, witness.disputeEndsAt]

def challengeInstanceHash : Word := keccakWords c (witness.challengeWords c)

def decisionWords : List Word :=
  [witness.challengeInstanceHash c, witness.revealInstanceHash c, wordAddress witness.challenger,
    witness.reasonHash, wordBool witness.pendingChallengerWins, witness.transcriptHash,
    keccak256 c witness.transcriptUri, witness.verdictHash]

def pendingDecisionContext : Word := keccakWords c (witness.decisionWords c)

def bindingWords : List Word :=
  [wordAddress witness.registry, witness.problemId, witness.objectivePackageHash,
    witness.guestElfSha256, witness.programVkey]

def objectiveBindingContext : Word := keccakWords c witness.bindingWords

def contextWords : List Word :=
  [witness.chainId, wordAddress witness.manager, wordAddress witness.submissionManager,
    witness.objectiveBindingContext c, witness.submissionId, witness.pendingDecisionContext c]

variable (wordOf : ℕ → Word)

def contextHash : Word := keccakTagged c wordOf contextTag (witness.contextWords c)

def journalWords : List Word :=
  [witness.chainId, wordAddress witness.quorum, wordAddress witness.manager,
    witness.guestElfSha256, witness.programVkey, witness.contextHash c wordOf,
    wordBool witness.correctedChallengerWins, wordAddress witness.proofBeneficiary]

def journalDigest : Word := keccakTagged c wordOf journalTag (witness.journalWords c wordOf)

/-- The challenger is right unless the solution has exactly the claimed score. -/
def expectedChallengerWins (expectedScoreAtoms : Option Word) : Bool :=
  match expectedScoreAtoms with
  | none => true
  | some score => decide (score ≠ witness.claimedScoreAtoms)

end ObjectiveWitness

/-! ### The guests -/

inductive ObjectiveError where
  | solutionAnchorMismatch
  | solutionCidOutOfBounds (got : ℕ)
  | transcriptUriOutOfBounds (got : ℕ)
  | improvementAtomsMismatch (expected supplied : Word)
  | improvementComputationOutOfRange
  | correctedOutcomeMismatch (expected supplied : Bool)
  | nonContradictoryOutcome
deriving DecidableEq, Repr

/-- The errors of the shared code say less. -/
inductive JournalError where
  | solutionAnchorMismatch
  | solutionCidOutOfBounds
  | transcriptUriOutOfBounds
  | correctedOutcomeMismatch
  | nonContradictoryOutcome
deriving DecidableEq, Repr

open Reverting

/-- The checks of a witness that do not depend on its solution's score. -/
def requireEnvelope (witness : ObjectiveWitness) : Except ObjectiveError Unit := do
  revertIf (witness.solutionCid.length = 0 ∨ witness.solutionCid.length > maxSolutionCidBytes)
    (.solutionCidOutOfBounds witness.solutionCid.length)
  revertIf (witness.transcriptUri.length = 0 ∨ witness.transcriptUri.length > maxTranscriptUriBytes)
    (.transcriptUriOutOfBounds witness.transcriptUri.length)
  revertIf (sha256 c witness.solution ≠ witness.commitDaHash) .solutionAnchorMismatch

def requireOutcome (expectedScoreAtoms : Option Word) (witness : ObjectiveWitness) :
    Except ObjectiveError Unit := do
  let expected := witness.expectedChallengerWins expectedScoreAtoms
  revertIf (witness.correctedChallengerWins ≠ expected)
    (.correctedOutcomeMismatch expected witness.correctedChallengerWins)
  revertIf (witness.correctedChallengerWins = witness.pendingChallengerWins)
    .nonContradictoryOutcome

/-- `verify_objective_and_journal` -/
def verifyObjectiveAndJournal (expectedScoreAtoms : Bytes → Option Word)
    (witness : ObjectiveWitness) : Except ObjectiveError Word := do
  requireEnvelope c witness
  requireOutcome (expectedScoreAtoms witness.solution) witness
  pure (witness.journalDigest c wordU128)

def scoreAtomScale : ℕ := 10 ^ 18

def scoreAtoms (score : ℕ) : Option Word :=
  if score * scoreAtomScale < 2 ^ 128 then some (wordU128 (score * scoreAtomScale)) else none

def hadamardSeedDefect : ℕ := 55444
def a11SeedBest : ℕ := 594
def q6SeedBest : ℕ := 18

def hadamardScoreAtoms (verifyHadamard668 : Bytes → Option ℕ) (solution : Bytes) : Option Word :=
  ((verifyHadamard668 solution).filter (· < hadamardSeedDefect)).bind scoreAtoms

def verifyHadamard668AndJournal (verifyHadamard668 : Bytes → Option ℕ) :
    ObjectiveWitness → Except ObjectiveError Word :=
  verifyObjectiveAndJournal c (hadamardScoreAtoms verifyHadamard668)

def a11ScoreAtoms (verifyAgainstSeed : Bytes → ℕ → Option ℕ) (solution : Bytes) : Option Word :=
  (verifyAgainstSeed solution a11SeedBest).bind scoreAtoms

def verifyDistinctSubsetSumsA11AndJournal (verifyAgainstSeed : Bytes → ℕ → Option ℕ) :
    ObjectiveWitness → Except ObjectiveError Word :=
  verifyObjectiveAndJournal c (a11ScoreAtoms verifyAgainstSeed)

def q6ScoreAtoms (verifyQ6 : Bytes → Option ℕ) (solution : Bytes) : Option Word :=
  ((verifyQ6 solution).filter (· < q6SeedBest)).bind scoreAtoms

def verifyQ6IntersectingHypergraphAndJournal (verifyQ6 : Bytes → Option ℕ) :
    ObjectiveWitness → Except ObjectiveError Word :=
  verifyObjectiveAndJournal c (q6ScoreAtoms verifyQ6)

structure EdgesScore where
  totalScaled : ℕ
  chainAtoms : ℤ

def areaScale : ℕ := 6 * 10 ^ 18

/-- `is_minimum_improvement` of the edges guest, whose integers have 128 bits. -/
def EdgesScore.isMinimumImprovement (score : EdgesScore)
    (seedAbsNumerator seedDenominator minImprovementDenominator : ℕ) : Bool :=
  let seedScaled := seedAbsNumerator * areaScale
  let scoreScaled := score.totalScaled * seedDenominator
  let minimumDelta := seedDenominator * (areaScale / minImprovementDenominator)
  seedDenominator ≠ 0 ∧ minImprovementDenominator ≠ 0 ∧ seedScaled < 2 ^ 128 ∧
    scoreScaled < 2 ^ 128 ∧ scoreScaled ≤ seedScaled ∧ areaScale % minImprovementDenominator = 0 ∧
    minimumDelta < 2 ^ 128 ∧ minimumDelta ≤ seedScaled - scoreScaled

/-- The expected score atoms of `verify_edges_vs_triangles_and_journal`. -/
def edgesScoreAtoms (verifyEdges : Bytes → Option EdgesScore) (solution : Bytes) : Option Word :=
  ((verifyEdges solution).filter (fun score =>
    score.isMinimumImprovement 16684282317138839 23437500000000000 (10 ^ 12))).map
      (fun score => wordI128 score.chainAtoms)

def verifyEdgesVsTrianglesAndJournal (verifyEdges : Bytes → Option EdgesScore) :
    ObjectiveWitness → Except ObjectiveError Word :=
  verifyObjectiveAndJournal c (edgesScoreAtoms verifyEdges)

/-! The Kakeya guest also checks the improvement. -/

/-- `BigInt::from_bytes_be` -/
def fromBytesBe (word : Word) : ℕ := word.toList.foldl (fun acc b => acc * 256 + b.toNat) 0

/-- `canonical_claimed_improvement_atoms` -/
def canonicalClaimedImprovementAtoms (claimedScoreAtoms : Word)
    (seedNumerator seedDenominator : ℕ) : Option Word :=
  if seedDenominator = 0 then none
  else
    let seedScoreAtoms := (seedNumerator * scoreAtomScale + seedDenominator - 1) / seedDenominator
    if seedScoreAtoms > 2 ^ 255 - 1 then none
    else
      let unsignedClaim := fromBytesBe claimedScoreAtoms
      let claimed : ℤ :=
        if (claimedScoreAtoms[0]).toNat < 0x80 then unsignedClaim else unsignedClaim - 2 ^ 256
      let improvementAtoms := seedScoreAtoms - claimed
      if improvementAtoms < 0 then none
      else if improvementAtoms.toNat ≥ 2 ^ 256 then none
      else some (toBeBytes 32 improvementAtoms.toNat)

def requireImprovement (seedNumerator seedDenominator : ℕ) (witness : ObjectiveWitness) :
    Except ObjectiveError Unit :=
  match canonicalClaimedImprovementAtoms witness.claimedScoreAtoms seedNumerator seedDenominator with
  | none => .error .improvementComputationOutOfRange
  | some expected =>
      revertIf (witness.improvementAtoms ≠ expected)
        (.improvementAtomsMismatch expected witness.improvementAtoms)

structure KakeyaScore where
  numerator : ℕ
  denominator : ℕ
  chainAtoms : ℕ

/-- `is_minimum_improvement` of the Kakeya guest, whose integers have 128 bits. -/
def KakeyaScore.isMinimumImprovement (score : KakeyaScore) (seedNumerator seedDenominator : ℕ) :
    Bool :=
  let seedScaled := seedNumerator * score.denominator
  let scoreScaled := score.numerator * seedDenominator
  let scaled := (seedScaled - scoreScaled) * 10 ^ 12
  seedScaled < 2 ^ 128 ∧ scoreScaled < 2 ^ 128 ∧ scoreScaled ≤ seedScaled ∧ scaled < 2 ^ 128 ∧
    seedDenominator * score.denominator ≤ scaled

def kakeyaScoreAtoms (verifyKakeya : Bytes → Option KakeyaScore) (solution : Bytes) : Option Word :=
  ((verifyKakeya solution).filter (fun score => score.isMinimumImprovement 7 4)).map
    (fun score => wordU128 score.chainAtoms)

def verifyArithmeticKakeyaAndJournal (verifyKakeya : Bytes → Option KakeyaScore)
    (witness : ObjectiveWitness) : Except ObjectiveError Word := do
  requireEnvelope c witness
  requireImprovement 7 4 witness
  requireOutcome (kakeyaScoreAtoms verifyKakeya witness.solution) witness
  pure (witness.journalDigest c wordU128)

/-- `verdict_journal_v2`, the code shared by the guests with a real score. -/
def verdictJournalV2 (expectedScoreAtoms : Option Word) (witness : ObjectiveWitness) :
    Except JournalError Word := do
  revertIf (witness.solutionCid.length = 0 ∨ witness.solutionCid.length > 512)
    .solutionCidOutOfBounds
  revertIf (witness.transcriptUri.length = 0 ∨ witness.transcriptUri.length > 512)
    .transcriptUriOutOfBounds
  revertIf (sha256 c witness.solution ≠ witness.commitDaHash) .solutionAnchorMismatch
  revertIf (witness.correctedChallengerWins ≠ witness.expectedChallengerWins expectedScoreAtoms)
    .correctedOutcomeMismatch
  revertIf (witness.correctedChallengerWins = witness.pendingChallengerWins)
    .nonContradictoryOutcome
  pure (witness.journalDigest c wordUsize)

/-- A guest, with its verifier of solutions. -/
inductive Program where
  | hadamard668 (verify : Bytes → Option ℕ)
  | a11 (verifyAgainstSeed : Bytes → ℕ → Option ℕ)
  | q6 (verify : Bytes → Option ℕ)
  | edges (verify : Bytes → Option EdgesScore)
  | kakeya (verify : Bytes → Option KakeyaScore)
  | shared (score : Bytes → Option Word)

namespace Program

/-- The word a guest commits to, if it commits to one. -/
def journal (witness : ObjectiveWitness) : Program → Option Word
  | hadamard668 verify => (verifyHadamard668AndJournal c verify witness).toOption
  | a11 verify => (verifyDistinctSubsetSumsA11AndJournal c verify witness).toOption
  | q6 verify => (verifyQ6IntersectingHypergraphAndJournal c verify witness).toOption
  | edges verify => (verifyEdgesVsTrianglesAndJournal c verify witness).toOption
  | kakeya verify => (verifyArithmeticKakeyaAndJournal c verify witness).toOption
  | shared score => (verdictJournalV2 c (score witness.solution) witness).toOption

/-- The score a guest finds in a solution. -/
def score : Program → Bytes → Option Word
  | hadamard668 verify => hadamardScoreAtoms verify
  | a11 verify => a11ScoreAtoms verify
  | q6 verify => q6ScoreAtoms verify
  | edges verify => edgesScoreAtoms verify
  | kakeya verify => kakeyaScoreAtoms verify
  | shared score => score

/-- The guest accepts the improvement of a witness. -/
def AcceptsImprovement (witness : ObjectiveWitness) : Program → Prop
  | kakeya _ => canonicalClaimedImprovementAtoms witness.claimedScoreAtoms 7 4 =
      some witness.improvementAtoms
  | _ => True

/-- How the guest writes a length. -/
def wordOf : Program → ℕ → Word
  | shared _ => wordUsize
  | _ => wordU128

end Program

/-! ### The bytes of a word -/

theorem toList_ofBytes32 (v : Bytes32) : (ofBytes32 v).toList = wordBytes v := by
  apply List.ext_getElem
  · rw [Vector.length_toList, wordBytes_length]
  · intro i hi hi'
    simp [ofBytes32, wordBytes]

theorem ofBytes32_injective : Function.Injective ofBytes32 := by
  intro v w h
  apply wordBytes_injective
  rw [← toList_ofBytes32, ← toList_ofBytes32, h]

/-- The bytes of a word are the digits of its number. -/
theorem getElem_ofBytes32 (v : Bytes32) (i : ℕ) (hi : i < 32) :
    (ofBytes32 v)[i] = UInt8.ofNat (v.toNat / 256 ^ (31 - i)) := by
  have hpow : 256 ^ (31 - i) = 2 ^ (8 * (31 - i)) := by
    rw [pow_mul]
    rfl
  simp only [ofBytes32, Vector.getElem_ofFn, hpow, ← Nat.shiftRight_eq_div_pow]
  rfl

theorem getElem_toBeBytes (n value i : ℕ) (hi : i < n) :
    (toBeBytes n value)[i] = UInt8.ofNat (value / 256 ^ (n - 1 - i)) := by
  simp [toBeBytes]

/-- A number of `n` bytes behind zeros is the word of the number. -/
theorem pad_toBeBytes {k n value : ℕ} (hk : k + n = 32) (hvalue : value < 256 ^ n) (i : ℕ)
    (hi : i < k + n) : ((Vector.replicate k (0 : UInt8)).append (toBeBytes n value))[i] =
      (ofBytes32 (uintWord value))[i] := by
  have hlt : value < 2 ^ 256 := by
    have hle : 256 ^ n ≤ 256 ^ 32 := Nat.pow_le_pow_right (by decide) (by omega)
    exact lt_of_lt_of_le hvalue hle
  rw [getElem_ofBytes32 _ _ (hk ▸ hi), uintWord, BitVec.toNat_ofNat, Nat.mod_eq_of_lt hlt]
  change (Vector.replicate k (0 : UInt8) ++ toBeBytes n value)[i] = _
  rw [Vector.getElem_append]
  split
  · rename_i hik
    have hle : 256 ^ n ≤ 256 ^ (31 - i) := Nat.pow_le_pow_right (by decide) (by omega)
    rw [Vector.getElem_replicate, Nat.div_eq_of_lt (lt_of_lt_of_le hvalue hle)]
    rfl
  · rename_i hik
    rw [getElem_toBeBytes]
    congr 3
    omega

theorem wordU128_eq {value : ℕ} (h : value < 2 ^ 128) :
    wordU128 value = ofBytes32 (uintWord value) :=
  Vector.ext (fun i hi => pad_toBeBytes rfl h i hi)

theorem wordUsize_eq {value : ℕ} (h : value < 2 ^ 64) :
    wordUsize value = ofBytes32 (uintWord value) :=
  Vector.ext (fun i hi => pad_toBeBytes rfl h i hi)

theorem Program.wordOf_eq (g : Program) {value : ℕ} (h : value < 2 ^ 64) :
    g.wordOf value = ofBytes32 (uintWord value) := by
  cases g with
  | shared => exact wordUsize_eq h
  | _ => exact wordU128_eq (h.trans (by decide))

theorem wordBool_eq (b : Bool) : wordBool b = ofBytes32 (boolWord b) := by
  cases b <;> decide

theorem wordAddress_ofAddress (a : P42Prizes.Address) :
    wordAddress (ofAddress a) = ofBytes32 (Address.word a) := by
  have hbytes : ofAddress a = toBeBytes 20 a.toNat := by
    apply Vector.ext
    intro i hi
    have hpow : 256 ^ (20 - 1 - i) = 2 ^ (8 * (19 - i)) := by
      rw [pow_mul]
      rfl
    rw [getElem_toBeBytes]
    simp only [ofAddress, Vector.getElem_ofFn, hpow, ← Nat.shiftRight_eq_div_pow]
    rfl
  have hword : Address.word a = uintWord a.toNat := by
    apply BitVec.eq_of_toNat_eq
    rw [Address.word, uintWord, BitVec.toNat_setWidth, BitVec.toNat_ofNat]
  rw [wordAddress, hbytes, hword]
  exact Vector.ext (fun i hi => pad_toBeBytes rfl a.isLt i hi)

theorem toList_wordAddress (a : Address) :
    (wordAddress a).toList = List.replicate 12 0 ++ a.toList := by
  change (Vector.replicate 12 (0 : UInt8) ++ a).toList = _
  rw [Vector.toList_append, Vector.toList_replicate]

theorem wordAddress_injective : Function.Injective wordAddress := by
  intro a b h
  have hbytes := congrArg Vector.toList h
  rw [toList_wordAddress, toList_wordAddress] at hbytes
  exact Vector.toList_inj.mp (List.append_cancel_left hbytes)

theorem wordBool_injective : Function.Injective wordBool := by
  intro a b h
  rw [wordBool_eq, wordBool_eq] at h
  have hword := ofBytes32_injective h
  revert a b
  decide

/-! ### The hashes are those of the chain -/

theorem wordsBytes_injective : Function.Injective wordsBytes :=
  flatMap_injective (n := 32) (by decide) (fun word => word.length_toList)
    (fun _ _ h => Vector.toList_inj.mp h)

theorem wordsBytes_map (words : List Bytes32) : wordsBytes (words.map ofBytes32) = abiEncode words := by
  rw [wordsBytes, List.flatMap_map, abiEncode]
  exact List.flatMap_congr (fun word _ => toList_ofBytes32 word)

theorem keccakWords_map (words : List Bytes32) :
    keccakWords c (words.map ofBytes32) = ofBytes32 (c.keccak256 (abiEncode words)) :=
  congrArg (keccak256 c) (wordsBytes_map words)

theorem taggedBytes_map (g : Program) {tag : Bytes} {words : List Bytes32}
    (htag : tag.length < 2 ^ 64) (hwords : (1 + words.length) * 32 < 2 ^ 64) :
    taggedBytes g.wordOf tag (words.map ofBytes32) = abiEncodeTagged tag words := by
  rw [taggedBytes, abiEncodeTagged, padRight]
  simp only [List.length_map]
  rw [wordsBytes_map, g.wordOf_eq hwords, g.wordOf_eq htag, toList_ofBytes32, toList_ofBytes32,
    Nat.mul_comm (1 + words.length) 32, List.append_assoc _ tag]

theorem keccakTagged_map (g : Program) {tag : Bytes} {words : List Bytes32}
    (htag : tag.length < 2 ^ 64) (hwords : (1 + words.length) * 32 < 2 ^ 64) :
    keccakTagged c g.wordOf tag (words.map ofBytes32) =
      ofBytes32 (c.keccak256 (abiEncodeTagged tag words)) :=
  congrArg (keccak256 c) (taggedBytes_map g htag hwords)

theorem taggedBytes_inj {wordOf : ℕ → Word} {tag : Bytes} {words words' : List Word}
    (h : taggedBytes wordOf tag words = taggedBytes wordOf tag words')
    (hlength : words.length = words'.length) : words = words' := by
  simp only [taggedBytes, hlength] at h
  have hhead := List.append_cancel_right (List.append_cancel_right (List.append_cancel_right h))
  exact wordsBytes_injective (List.append_cancel_left hhead)

/-! ### Without collisions the journal binds the witness -/

namespace ObjectiveWitness

variable {c} {wordOf : ℕ → Word} {x y : ObjectiveWitness}

/-- Everything that is hashed for the journal of a witness. -/
def preimages (c : Crypto) (wordOf : ℕ → Word) (x : ObjectiveWitness) : List Bytes :=
  [x.solutionCid, wordsBytes (x.revealWords c), wordsBytes (x.challengeWords c), x.transcriptUri,
    wordsBytes (x.decisionWords c), wordsBytes x.bindingWords,
    taggedBytes wordOf contextTag (x.contextWords c),
    taggedBytes wordOf journalTag (x.journalWords c wordOf)]

/-- No two of the byte strings hashed for the journals of `x` and of `y` collide. -/
def CollisionFree (c : Crypto) (wordOf : ℕ → Word) (x y : ObjectiveWitness) : Prop :=
  Set.InjOn c.keccak256 {bytes | bytes ∈ x.preimages c wordOf ∨ bytes ∈ y.preimages c wordOf}

theorem CollisionFree.inj (h : CollisionFree c wordOf x y) {a b : Bytes}
    (ha : a ∈ x.preimages c wordOf) (hb : b ∈ y.preimages c wordOf)
    (heq : keccak256 c a = keccak256 c b) : a = b :=
  h (Or.inl ha) (Or.inr hb) (ofBytes32_injective heq)

theorem reveal_inj (hfree : CollisionFree c wordOf x y)
    (h : x.revealInstanceHash c = y.revealInstanceHash c) :
    x.solver = y.solver ∧ x.commitment = y.commitment ∧ x.commitDaHash = y.commitDaHash ∧
      x.solutionCid = y.solutionCid ∧ x.claimedScoreAtoms = y.claimedScoreAtoms ∧
      x.improvementAtoms = y.improvementAtoms ∧ x.challengeEndsAt = y.challengeEndsAt := by
  have hbytes := hfree.inj (by simp [preimages]) (by simp [preimages]) h
  have hwords := wordsBytes_injective hbytes
  simp only [revealWords, List.cons.injEq, and_true] at hwords
  obtain ⟨-, -, -, hsolver, hcommitment, hda, hcid, hclaimed, himprovement, hends⟩ := hwords
  exact ⟨wordAddress_injective hsolver, hcommitment, hda,
    hfree.inj (by simp [preimages]) (by simp [preimages]) hcid, hclaimed, himprovement, hends⟩

theorem challenge_inj (hfree : CollisionFree c wordOf x y)
    (h : x.challengeInstanceHash c = y.challengeInstanceHash c) :
    x.challengedAt = y.challengedAt ∧ x.disputeEndsAt = y.disputeEndsAt := by
  have hbytes := hfree.inj (by simp [preimages]) (by simp [preimages]) h
  have hwords := wordsBytes_injective hbytes
  simp only [challengeWords, List.cons.injEq, and_true] at hwords
  obtain ⟨-, -, -, -, -, -, hat, hends⟩ := hwords
  exact ⟨hat, hends⟩

theorem decision_inj (hfree : CollisionFree c wordOf x y)
    (h : x.pendingDecisionContext c = y.pendingDecisionContext c) :
    x.challengeInstanceHash c = y.challengeInstanceHash c ∧
      x.revealInstanceHash c = y.revealInstanceHash c ∧ x.challenger = y.challenger ∧
      x.reasonHash = y.reasonHash ∧ x.pendingChallengerWins = y.pendingChallengerWins ∧
      x.transcriptHash = y.transcriptHash ∧ x.transcriptUri = y.transcriptUri ∧
      x.verdictHash = y.verdictHash := by
  have hbytes := hfree.inj (by simp [preimages]) (by simp [preimages]) h
  have hwords := wordsBytes_injective hbytes
  simp only [decisionWords, List.cons.injEq, and_true] at hwords
  obtain ⟨hchallenge, hreveal, hchallenger, hreason, hwins, htranscript, huri, hverdict⟩ := hwords
  exact ⟨hchallenge, hreveal, wordAddress_injective hchallenger, hreason, wordBool_injective hwins,
    htranscript, hfree.inj (by simp [preimages]) (by simp [preimages]) huri, hverdict⟩

theorem binding_inj (hfree : CollisionFree c wordOf x y)
    (h : x.objectiveBindingContext c = y.objectiveBindingContext c) :
    x.registry = y.registry ∧ x.problemId = y.problemId ∧
      x.objectivePackageHash = y.objectivePackageHash := by
  have hbytes := hfree.inj (by simp [preimages]) (by simp [preimages]) h
  have hwords := wordsBytes_injective hbytes
  simp only [bindingWords, List.cons.injEq, and_true] at hwords
  exact ⟨wordAddress_injective hwords.1, hwords.2.1, hwords.2.2.1⟩

theorem context_inj (hfree : CollisionFree c wordOf x y)
    (h : x.contextHash c wordOf = y.contextHash c wordOf) :
    x.submissionManager = y.submissionManager ∧
      x.objectiveBindingContext c = y.objectiveBindingContext c ∧
      x.submissionId = y.submissionId ∧
      x.pendingDecisionContext c = y.pendingDecisionContext c := by
  have hbytes : taggedBytes wordOf contextTag (x.contextWords c) =
      taggedBytes wordOf contextTag (y.contextWords c) :=
    hfree.inj (by simp [preimages]) (by simp [preimages]) h
  have hwords := taggedBytes_inj hbytes (by simp only [contextWords, List.length_cons])
  simp only [contextWords, List.cons.injEq, and_true] at hwords
  obtain ⟨-, -, hmanager, hbinding, hid, hdecision⟩ := hwords
  exact ⟨wordAddress_injective hmanager, hbinding, hid, hdecision⟩

theorem journal_inj (hfree : CollisionFree c wordOf x y)
    (h : x.journalDigest c wordOf = y.journalDigest c wordOf) :
    x.chainId = y.chainId ∧ x.quorum = y.quorum ∧ x.manager = y.manager ∧
      x.guestElfSha256 = y.guestElfSha256 ∧ x.programVkey = y.programVkey ∧
      x.contextHash c wordOf = y.contextHash c wordOf ∧
      x.correctedChallengerWins = y.correctedChallengerWins ∧
      x.proofBeneficiary = y.proofBeneficiary := by
  have hbytes : taggedBytes wordOf journalTag (x.journalWords c wordOf) =
      taggedBytes wordOf journalTag (y.journalWords c wordOf) :=
    hfree.inj (by simp [preimages]) (by simp [preimages]) h
  have hwords := taggedBytes_inj hbytes (by simp only [journalWords, List.length_cons])
  simp only [journalWords, List.cons.injEq, and_true] at hwords
  obtain ⟨hchain, hquorum, hmanager, hguest, hvkey, hcontext, hcorrected, hbeneficiary⟩ := hwords
  exact ⟨hchain, wordAddress_injective hquorum, wordAddress_injective hmanager, hguest, hvkey,
    hcontext, wordBool_injective hcorrected, wordAddress_injective hbeneficiary⟩

/-- Witnesses with the same journal say the same, except for the solution. -/
theorem journalDigest_inj (hfree : CollisionFree c wordOf x y)
    (h : x.journalDigest c wordOf = y.journalDigest c wordOf) :
    x = { y with solution := x.solution } := by
  obtain ⟨h₁, h₂, h₃, h₄, h₅, hcontext, h₆, h₇⟩ := journal_inj hfree h
  obtain ⟨h₈, hbinding, h₉, hdecision⟩ := context_inj hfree hcontext
  obtain ⟨h₁₀, h₁₁, h₁₂⟩ := binding_inj hfree hbinding
  obtain ⟨hchallenge, hreveal, h₁₃, h₁₄, h₁₅, h₁₆, h₁₇, h₁₈⟩ := decision_inj hfree hdecision
  obtain ⟨h₁₉, h₂₀⟩ := challenge_inj hfree hchallenge
  obtain ⟨h₂₁, h₂₂, h₂₃, h₂₄, h₂₅, h₂₆, h₂₇⟩ := reveal_inj hfree hreveal
  cases x
  cases y
  simp only at *
  subst_vars
  rfl

end ObjectiveWitness

/-! ### When a guest commits to a word -/

/-- The guest finds that the solution deserves the corrected outcome, not the pending one. -/
def ObjectiveWitness.Contradicts (score : Bytes → Option Word) (x : ObjectiveWitness) : Prop :=
  x.correctedChallengerWins = x.expectedChallengerWins (score x.solution) ∧
    x.correctedChallengerWins ≠ x.pendingChallengerWins

structure ObjectiveWitness.Enveloped (c : Crypto) (x : ObjectiveWitness) : Prop where
  cid : x.solutionCid ≠ [] ∧ x.solutionCid.length ≤ maxSolutionCidBytes
  uri : x.transcriptUri ≠ [] ∧ x.transcriptUri.length ≤ maxTranscriptUriBytes
  anchor : sha256 c x.solution = x.commitDaHash

theorem requireEnvelope_eq_ok {x : ObjectiveWitness} {u : Unit} :
    requireEnvelope c x = .ok u ↔ x.Enveloped c := by
  simp only [requireEnvelope, bind_eq_ok, revertIf_eq_ok, Unique.exists_iff, not_or, not_lt,
    gt_iff_lt, List.length_eq_zero_iff, ne_eq, not_not]
  constructor
  · rintro ⟨hcid, huri, hanchor⟩
    exact ⟨hcid, huri, hanchor⟩
  · rintro ⟨hcid, huri, hanchor⟩
    exact ⟨hcid, huri, hanchor⟩

theorem requireOutcome_eq_ok {x : ObjectiveWitness} {score : Bytes → Option Word} {u : Unit} :
    requireOutcome (score x.solution) x = .ok u ↔ x.Contradicts score := by
  simp only [requireOutcome, ObjectiveWitness.Contradicts, bind_eq_ok, revertIf_eq_ok,
    Unique.exists_iff, ne_eq, not_not]

theorem verifyObjectiveAndJournal_eq_ok {x : ObjectiveWitness} {score : Bytes → Option Word}
    {digest : Word} : verifyObjectiveAndJournal c score x = .ok digest ↔
      x.Enveloped c ∧ x.Contradicts score ∧ x.journalDigest c wordU128 = digest := by
  simp only [verifyObjectiveAndJournal, bind_eq_ok, requireEnvelope_eq_ok, requireOutcome_eq_ok,
    pure_eq_ok, Unique.exists_iff]

theorem requireImprovement_eq_ok {x : ObjectiveWitness} {m n : ℕ} {u : Unit} :
    requireImprovement m n x = .ok u ↔
      canonicalClaimedImprovementAtoms x.claimedScoreAtoms m n = some x.improvementAtoms := by
  unfold requireImprovement
  cases canonicalClaimedImprovementAtoms x.claimedScoreAtoms m n with
  | none => exact iff_of_false nofun nofun
  | some expected =>
      simp only [revertIf_eq_ok, ne_eq, not_not, Option.some.injEq]
      exact eq_comm

/-- A guest commits to the digest of its witness, or to nothing. -/
theorem Program.journal_eq_some {g : Program} {x : ObjectiveWitness} {digest : Word} :
    g.journal c x = some digest ↔ x.Enveloped c ∧ x.Contradicts g.score ∧ g.AcceptsImprovement x ∧
      x.journalDigest c g.wordOf = digest := by
  cases g with
  | hadamard668 verify =>
      exact toOption_eq_some.trans ((verifyObjectiveAndJournal_eq_ok c).trans (by
        simp only [score, AcceptsImprovement, wordOf, true_and]))
  | a11 verify =>
      exact toOption_eq_some.trans ((verifyObjectiveAndJournal_eq_ok c).trans (by
        simp only [score, AcceptsImprovement, wordOf, true_and]))
  | q6 verify =>
      exact toOption_eq_some.trans ((verifyObjectiveAndJournal_eq_ok c).trans (by
        simp only [score, AcceptsImprovement, wordOf, true_and]))
  | edges verify =>
      exact toOption_eq_some.trans ((verifyObjectiveAndJournal_eq_ok c).trans (by
        simp only [score, AcceptsImprovement, wordOf, true_and]))
  | kakeya verify =>
      refine toOption_eq_some.trans ?_
      simp only [verifyArithmeticKakeyaAndJournal, bind_eq_ok, requireEnvelope_eq_ok,
        requireImprovement_eq_ok, requireOutcome_eq_ok, pure_eq_ok, Unique.exists_iff, score,
        AcceptsImprovement, wordOf]
      tauto
  | shared score' =>
      refine toOption_eq_some.trans ?_
      simp only [verdictJournalV2, bind_eq_ok, revertIf_eq_ok, Unique.exists_iff, not_or, not_lt,
        gt_iff_lt, List.length_eq_zero_iff, ne_eq, not_not, pure_eq_ok, score, AcceptsImprovement,
        wordOf, true_and, ObjectiveWitness.Contradicts]
      constructor
      · rintro ⟨hcid, huri, hanchor, hexpected, hpending, hdigest⟩
        exact ⟨⟨hcid, huri, hanchor⟩, ⟨hexpected, hpending⟩, hdigest⟩
      · rintro ⟨⟨hcid, huri, hanchor⟩, ⟨hexpected, hpending⟩, hdigest⟩
        exact ⟨hcid, huri, hanchor, hexpected, hpending, hdigest⟩

end P42Prizes.Guest
