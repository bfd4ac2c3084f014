import P42Prizes.MulDiv

/-! # One deployment

A board is deployed as four contracts that know each other: the submission manager and the
ledger know the pool and each other, the challenge manager knows the submission manager.
`Deployment` collects their addresses and their immutables; the proof fields are the checks of
the four constructors. -/

namespace P42Prizes

abbrev days (n : ℕ) : ℕ := n * 86400

/-! ### Constants of the source -/

def maxAlphaBps : ℕ := 10000
def minCommitAgeBlocks : ℕ := 1
def maxCumulativeDisputeWindows : ℕ := 3
def maxChallengeWindowSeconds : ℕ := days 30
def maxSolutionCidBytes : ℕ := 512
def pausedAllRecoveryDelay : ℕ := days 30
def creditFinalizeRecoveryDelay : ℕ := pausedAllRecoveryDelay
def maxOnchainSolutionBytes : ℕ := 1048576
def minScoreAtomsBound : ℤ := -2 ^ 254
def maxScoreAtomsBound : ℤ := 2 ^ 254
def secp256k1HalfOrder : ℕ := 0x7fffffffffffffffffffffffffffffff5d576e7357a4501ddfe92f46681b20a0
def maxBetaBps : ℕ := 10000
def maxTranscriptUriBytes : ℕ := 512
def maxFeeBps : ℕ := 250
def claimDeadlineSeconds : ℕ := days 365
def minCompetitionSeconds : ℕ := days 30
def minCloseDelaySeconds : ℕ := days 180
def maxTotalCreditAtoms : ℕ := 2 ^ 255 - 1

/-! ### Immutables -/

/-- The immutables of `P42SubmissionManager`. -/
structure SubmissionManagerConfig where
  owner : Address
  treasury : Address
  boardSetDigest : Bytes32
  releaseBindingDigest : Bytes32
  objectiveVerifier : Address
  objectiveVerifierCodehash : Bytes32
  productionLaunchAuthority : Address
  independentSecurityAuthority : Address
  governanceAuthority : Address
  alphaBps : ℕ
  minPostingBondWei : ℕ
  challengeWindowSeconds : ℕ
  deployedAt : ℕ
  onchainDa : Bool
  maxSolutionBytes : ℕ
  seedScoreAtoms : ℤ
  minImprovementAtoms : ℕ
  owner_ne_zero : owner ≠ 0
  treasury_ne_zero : treasury ≠ 0
  owner_ne_treasury : owner ≠ treasury
  digests_ne_zero : boardSetDigest ≠ 0 ∧ releaseBindingDigest ≠ 0
  verifier_ne_zero : objectiveVerifier ≠ 0 ∧ objectiveVerifierCodehash ≠ 0
  authorities_ne_zero : productionLaunchAuthority ≠ 0 ∧ independentSecurityAuthority ≠ 0 ∧
    governanceAuthority ≠ 0
  authorities_distinct : [productionLaunchAuthority, independentSecurityAuthority,
    governanceAuthority, owner, treasury].Nodup
  alphaBps_le : alphaBps ≤ maxAlphaBps
  minPostingBondWei_lt : minPostingBondWei < 2 ^ 256
  window_pos : 0 < challengeWindowSeconds
  window_le : challengeWindowSeconds ≤ maxChallengeWindowSeconds
  onchainDa_bytes : onchainDa = true → 0 < maxSolutionBytes ∧ maxSolutionBytes ≤ maxOnchainSolutionBytes
  seed_gt : minScoreAtomsBound < seedScoreAtoms
  seed_lt : seedScoreAtoms < maxScoreAtomsBound
  minImprovementAtoms_lt : minImprovementAtoms < 2 ^ 256

/-- `fundingAuthorizer` is the treasury. -/
def SubmissionManagerConfig.fundingAuthorizer (c : SubmissionManagerConfig) : Address := c.treasury

def SubmissionManagerConfig.armNotBefore (c : SubmissionManagerConfig) : ℕ :=
  c.deployedAt + c.challengeWindowSeconds

theorem SubmissionManagerConfig.window_lt (c : SubmissionManagerConfig) :
    c.challengeWindowSeconds < 2 ^ 32 :=
  lt_of_le_of_lt c.window_le (by decide)

/-- The immutables of `P42ChallengeManager`. -/
structure ChallengeManagerConfig where
  owner : Address
  resolver : Address
  treasury : Address
  challengeWindowSeconds : ℕ
  betaBps : ℕ
  minCounterBondWei : ℕ
  rerunCostWei : ℕ
  rerunCostMultiplierBps : ℕ
  resolverDecisionBondWei : ℕ
  resolverFraudWindowSeconds : ℕ
  owner_ne_zero : owner ≠ 0
  resolver_ne_zero : resolver ≠ 0
  treasury_ne_zero : treasury ≠ 0
  window_pos : 0 < challengeWindowSeconds
  window_le : challengeWindowSeconds ≤ maxChallengeWindowSeconds
  fraudWindow_pos : 0 < resolverFraudWindowSeconds
  fraudWindow_le : resolverFraudWindowSeconds ≤ challengeWindowSeconds
  resolverDecisionBond_pos : 0 < resolverDecisionBondWei
  betaBps_le : betaBps ≤ maxBetaBps
  minCounterBondWei_lt : minCounterBondWei < 2 ^ 256
  rerunCostWei_lt : rerunCostWei < 2 ^ 256
  rerunCostMultiplierBps_lt : rerunCostMultiplierBps < 2 ^ 16
  resolverDecisionBondWei_lt : resolverDecisionBondWei < 2 ^ 256

/-- The immutables of `P42PayoutLedger`; `deployedAt` is the time its constructor checks the
two close times against. -/
structure PayoutLedgerConfig where
  owner : Address
  treasury : Address
  feeBps : ℕ
  deployedAt : ℕ
  earliestCloseTimestamp : ℕ
  closeByTimestamp : ℕ
  owner_ne_zero : owner ≠ 0
  treasury_ne_zero : treasury ≠ 0
  feeBps_le : feeBps ≤ maxFeeBps
  earliestClose_ge : deployedAt + minCompetitionSeconds ≤ earliestCloseTimestamp
  closeBy_ge : deployedAt + minCloseDelaySeconds ≤ closeByTimestamp
  earliestClose_le : earliestCloseTimestamp ≤ closeByTimestamp
  closeBy_lt : closeByTimestamp < 2 ^ 64

/-- The immutables of `P42BountyPool`. -/
structure BountyPoolConfig where
  owner : Address
  fundingCap : ℕ
  owner_ne_zero : owner ≠ 0
  fundingCap_pos : 0 < fundingCap
  fundingCap_lt : fundingCap < 2 ^ 256

/-- The four contracts of a board, at their addresses; `vaultCodehash` is
`keccak256(type(P42RolloverVault).runtimeCode)`. -/
structure Deployment where
  crypto : Crypto
  submissionManager : Address
  challengeManager : Address
  ledger : Address
  pool : Address
  sm : SubmissionManagerConfig
  cm : ChallengeManagerConfig
  lc : PayoutLedgerConfig
  pc : BountyPoolConfig
  vaultCodehash : Bytes32
  addresses_distinct : [0, submissionManager, challengeManager, ledger, pool].Nodup

/-- The accounts that are not contracts of the board. -/
def Deployment.IsExternal (d : Deployment) (a : Address) : Prop :=
  a ∉ [0, d.submissionManager, d.challengeManager, d.ledger, d.pool]

instance (d : Deployment) (a : Address) : Decidable (d.IsExternal a) :=
  inferInstanceAs (Decidable (a ∉ [0, d.submissionManager, d.challengeManager, d.ledger, d.pool]))

theorem Deployment.IsExternal.ne {d : Deployment} {a : Address} (h : d.IsExternal a) :
    a ≠ 0 ∧ a ≠ d.submissionManager ∧ a ≠ d.challengeManager ∧ a ≠ d.ledger ∧ a ≠ d.pool := by
  simpa [Deployment.IsExternal, not_or] using h

theorem Deployment.addresses_ne (d : Deployment) :
    0 ≠ d.submissionManager ∧ 0 ≠ d.challengeManager ∧ 0 ≠ d.ledger ∧ 0 ≠ d.pool ∧
      d.submissionManager ≠ d.challengeManager ∧ d.submissionManager ≠ d.ledger ∧
      d.submissionManager ≠ d.pool ∧ d.challengeManager ≠ d.ledger ∧ d.challengeManager ≠ d.pool ∧
      d.ledger ≠ d.pool := by
  have h := d.addresses_distinct
  simp only [List.nodup_cons, List.mem_cons, List.not_mem_nil, or_false, not_or] at h
  obtain ⟨⟨h1, h2, h3, h4⟩, ⟨h5, h6, h7⟩, ⟨h8, h9⟩, h10, -⟩ := h
  exact ⟨h1, h2, h3, h4, h5, h6, h7, h8, h9, h10⟩

end P42Prizes
