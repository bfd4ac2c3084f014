import P42Prizes.Deployment

/-! # Commitment preimages and instance hashes

The byte strings the contracts hash: the text preimage of a commitment, the encoded reveal and
challenge instances, and the EIP-712 digest of a funding authorization. -/

namespace P42Prizes

/-- The digits of `value` before those in `acc`; `fuel` bounds the number of digits. -/
def digitsBefore : ℕ → ℕ → Bytes → Bytes
  | 0, _, acc => acc
  | fuel + 1, value, acc =>
      if value = 0 then acc
      else digitsBefore fuel (value / 10) (UInt8.ofNat (48 + value % 10) :: acc)

/-- `_uintToString` -/
def uintToString (value : ℕ) : Bytes :=
  if value = 0 then ascii "0" else digitsBefore value value []

/-- One of the `symbols` `0123456789abcdef`. -/
def hexSymbol (n : ℕ) : UInt8 := UInt8.ofNat (if n < 10 then 48 + n else 87 + n)

def lowerHex (data : Bytes) : Bytes :=
  ascii "0x" ++ data.flatMap (fun b => [hexSymbol (b.toNat / 16), hexSymbol (b.toNat % 16)])

/-- The 20 bytes of an address, most significant first. -/
def addressBytes (a : Address) : Bytes :=
  (List.range 20).map (fun i => UInt8.ofBitVec (a.extractLsb' (8 * (19 - i)) 8))

/-- `_addressToLowerHex` -/
def addressToLowerHex (account : Address) : Bytes := lowerHex (addressBytes account)

/-- `_bytes32ToLowerHex` -/
def bytes32ToLowerHex (data : Bytes32) : Bytes := lowerHex (wordBytes data)

def commitPreimage (solutionCid : Bytes) (solver : Address) (salt : Bytes) : Bytes :=
  ascii "p42:v0|cid:" ++ uintToString solutionCid.length ++ ascii ":" ++ solutionCid ++
    ascii "|solver:" ++ addressToLowerHex solver ++
    ascii "|salt:" ++ uintToString salt.length ++ ascii ":" ++ salt

def commitPreimageWithDa (solutionCid : Bytes) (solver : Address) (commitDaHash : Bytes32)
    (salt : Bytes) : Bytes :=
  ascii "p42:v1|cid:" ++ uintToString solutionCid.length ++ ascii ":" ++ solutionCid ++
    ascii "|solver:" ++ addressToLowerHex solver ++
    ascii "|da:" ++ bytes32ToLowerHex commitDaHash ++
    ascii "|salt:" ++ uintToString salt.length ++ ascii ":" ++ salt

namespace Crypto

variable (c : Crypto)

def productionLaunchAuthorityRole : Bytes32 := c.keccak256 (ascii "production-launch-authority")
def independentSecurityAuthorityRole : Bytes32 :=
  c.keccak256 (ascii "independent-security-authority")
def governanceAuthorityRole : Bytes32 := c.keccak256 (ascii "governance-authority")

def fundingAuthorizationTypehash : Bytes32 := c.keccak256 (ascii ("FundingAuthorization(bytes32 role,bytes32 boardSetDigest,bytes32 releaseBindingDigest,bytes32 authorizationDigest,uint64 expiresAt,uint256 nonce)"))

def eip712DomainTypehash : Bytes32 :=
  c.keccak256 (ascii
    "EIP712Domain(string name,string version,uint256 chainId,address verifyingContract)")

def eip712NameHash : Bytes32 := c.keccak256 (ascii "P42SubmissionManager")
def eip712VersionHash : Bytes32 := c.keccak256 (ascii "2")

end Crypto

/-- What a funding authority signs. -/
structure FundingAuthorization where
  role : Bytes32
  authorizationDigest : Bytes32
  expiresAt : ℕ
  nonce : ℕ
deriving DecidableEq

def Deployment.fundingDigest (d : Deployment) (a : FundingAuthorization) : Bytes32 :=
  let c := d.crypto
  let domainSeparator := c.keccak256 (abiEncode [c.eip712DomainTypehash, c.eip712NameHash,
    c.eip712VersionHash, uintWord c.chainid, d.submissionManager.word])
  let structHash := c.keccak256 (abiEncode [c.fundingAuthorizationTypehash, a.role,
    d.sm.boardSetDigest, d.sm.releaseBindingDigest, a.authorizationDigest, uintWord a.expiresAt,
    uintWord a.nonce])
  c.keccak256 ([0x19, 0x01] ++ wordBytes domainSeparator ++ wordBytes structHash)

/-- The claim fingerprinted by `_revealInstanceHash`. -/
structure RevealInstance where
  submissionId : ℕ
  solver : Address
  commitment : Bytes32
  commitDaHash : Bytes32
  solutionCid : Bytes
  claimedScoreAtoms : ℤ
  improvementAtoms : ℕ
  challengeEndsAt : ℕ

def Deployment.revealInstanceHash (d : Deployment) (r : RevealInstance) : Bytes32 :=
  d.crypto.keccak256 (abiEncode [d.submissionManager.word, uintWord d.crypto.chainid,
    uintWord r.submissionId, r.solver.word, r.commitment, r.commitDaHash,
    d.crypto.keccak256 r.solutionCid, intWord r.claimedScoreAtoms, uintWord r.improvementAtoms,
    uintWord r.challengeEndsAt])

/-- The dispute fingerprinted by `_openChallenge`. -/
structure ChallengeInstance where
  submissionId : ℕ
  revealInstanceHash : Bytes32
  challenger : Address
  reasonHash : Bytes32
  challengedAt : ℕ
  disputeEndsAt : ℕ
deriving DecidableEq

def Deployment.challengeInstanceHash (d : Deployment) (c : ChallengeInstance) : Bytes32 :=
  d.crypto.keccak256 (abiEncode [d.challengeManager.word, uintWord d.crypto.chainid,
    uintWord c.submissionId, c.revealInstanceHash, c.challenger.word, c.reasonHash,
    uintWord c.challengedAt, uintWord c.disputeEndsAt])

example : uintToString 1048576 = ascii "1048576" := by decide

example : addressToLowerHex 0x00112233445566778899aabbccddeeff01234567 =
    ascii "0x00112233445566778899aabbccddeeff01234567" := by decide

end P42Prizes
