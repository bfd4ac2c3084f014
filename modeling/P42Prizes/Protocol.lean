import P42Prizes.Systems
import P42Prizes.ChallengeManager

/-! # The board as a transition system

The four contracts of a board run in one world.  An action is a new block, ETH forced into a
contract, a call from an account outside the board, or the return of the payee that is being
paid.  A call that reverts leaves no trace, so it is not a step.

A payment to an outside account suspends the call that makes it: the call is pushed on
`World.frames`, any further calls may come, and `Action.finish` runs the rest of the call on
top.  A block ends only when no call is suspended.

Of the calls of the four contracts only those are left out that revert for every outside
caller: `consumeClaim` and `payRollover`, which the pool and the ledger call on each other, and
the disabled `sweepFee`, `payFee` and `payResidual`. -/

namespace P42Prizes

open Reverting Function Transition

/-- A call suspended at the call of a payee. -/
inductive Frame where
  | managerBond (claimant : Address) (amount : ℕ)
  | challengeBond (claimant : Address) (amount : ℕ)
  | payout (payout : Payout)
deriving DecidableEq, Repr

structure World where
  block : Block
  sm : SubmissionManager
  cm : ChallengeManager
  ledger : PayoutLedger
  pool : BountyPool
  frames : List Frame

/-! ### Calls -/

inductive ManagerCall where
  | setPausedNewActions (paused : Bool)
  | setPausedAll (paused : Bool)
  | recoverPausedAll
  | authorizeFunding (authorizationDigest : Bytes32) (expiresAt nonce : ℕ)
      (signatures : Bytes × Bytes × Bytes)
  | cancelFundingAuthorization (expectedAuthorizationDigest : Bytes32)
  | armFunding (authorizationDigest : Bytes32)
  | setChallengeManager (challengeManager : Address)
  | commit (commitment commitDaHash : Bytes32)
  | topUpBond (id : ℕ)
  | reveal (id : ℕ) (solutionCid : Bytes) (claimedScoreAtoms : ℤ) (improvementAtoms : ℕ)
      (salt solution : Bytes)
  | finalize (id : ℕ) (permanenceHash : Bytes32)
  | releaseFinalizedBond (id : ℕ)
  | voidFinalize (id : ℕ)
  | markChallenged (id : ℕ)
  | resolveChallenge (id : ℕ) (challengerWins : Bool) (beneficiary : Address)
  | cancelChallenge (id : ℕ)
  | resolveObjectiveChallenge (id : ℕ) (challengerWins : Bool) (beneficiary : Address)
  | expireCommitted (id : ℕ)
  | expireRevealed (id : ℕ)
  | claimBond

inductive ChallengeCall where
  | setPausedNewActions (paused : Bool)
  | challenge (id : ℕ) (expectedRevealInstanceHash reasonHash : Bytes32)
  | resolve (id : ℕ) (expectedChallengeInstanceHash : Bytes32) (challengerWins : Bool)
      (transcriptHash : Bytes32) (transcriptURI : Bytes) (verdictHash : Bytes32)
  | resolveFor (id : ℕ) (expectedChallengeInstanceHash : Bytes32) (challengerWins : Bool)
      (transcriptHash : Bytes32) (transcriptURI : Bytes) (verdictHash : Bytes32)
      (resolverBondBeneficiary : Address)
  | finalizeResolution (id : ℕ) (expectedChallengeInstanceHash : Bytes32)
  | expireChallenge (id : ℕ) (expectedChallengeInstanceHash : Bytes32)
  | slashResolverBond (id : ℕ) (expectedChallengeInstanceHash proofHash : Bytes32)
  | applyObjectiveResolution (id : ℕ) (expectedChallengeInstanceHash : Bytes32)
      (correctedChallengerWins : Bool) (proofHash : Bytes32) (proofBeneficiary : Address)
  | claimBond

inductive LedgerCall where
  | setPausedNewActions (paused : Bool)
  | setCreditRecorder (recorder : Address)
  | setRolloverDestination (destination : Address)
  | recordCredit (solver : Address) (atoms : ℕ)
  | voidCredit (solver : Address) (atoms : ℕ)
  | close
  | sweepRollover

inductive PoolCall where
  | setLedger
  | setSubmissionManager (submissionManager : Address)
  | setRegistry (registry : Address) (problemId : ℕ)
  | setAcceptingFunds (accepting : Bool)
  | fund
  | fundFor (sponsor : Address)
  | claim
  | claimTo (recipient : Address)
  | donateClaimToPool (destinationPool : Address)
  | sponsorRefund
  | sponsorRefundTo (recipient : Address)
  | recoverForcedEth (amount : ℕ)
  | claimFees
  | claimFeesTo (recipient : Address)

inductive Call where
  | manager (c : ManagerCall)
  | challenge (c : ChallengeCall)
  | ledger (c : LedgerCall)
  | pool (c : PoolCall)

/-- The functions that accept ETH. -/
def Call.payable : Call → Bool
  | .manager (.commit ..) => true
  | .manager (.topUpBond _) => true
  | .challenge (.challenge ..) => true
  | .challenge (.resolve ..) => true
  | .challenge (.resolveFor ..) => true
  | .pool .fund => true
  | .pool (.fundFor _) => true
  | _ => false

variable (d : Deployment) (e : Env)

/-! ### Running a call -/

/-- A call of the submission manager, whose ETH has arrived. -/
def ManagerCall.run (l : PayoutLedger) (p : BountyPool) (s : SubmissionManager) :
    ManagerCall → Outcome (SubmissionManager × PayoutLedger × List Frame)
  | setPausedNewActions paused => (·, l, []) <$> s.setPausedNewActions d e paused
  | setPausedAll paused => (·, l, []) <$> s.setPausedAll d e paused
  | recoverPausedAll => (·, l, []) <$> s.recoverPausedAll d e
  | authorizeFunding digest expiresAt nonce signatures =>
      (·, l, []) <$> s.authorizeFunding d e digest expiresAt nonce signatures
  | cancelFundingAuthorization digest => (·, l, []) <$> s.cancelFundingAuthorization d e digest
  | armFunding digest => (·, l, []) <$> s.armFunding d e digest
  | setChallengeManager challengeManager =>
      (·, l, []) <$> s.setChallengeManager d e challengeManager
  | commit commitment commitDaHash => (·, l, []) <$> s.commit d e commitment commitDaHash l p
  | topUpBond id => (·, l, []) <$> s.topUpBond e id
  | reveal id cid claimed improvement salt solution =>
      (·, l, []) <$> s.reveal d e id cid claimed improvement salt solution
  | finalize id permanenceHash =>
      (fun r => (r.1, r.2, [])) <$> s.finalize d e id permanenceHash l p
  | releaseFinalizedBond id => (·, l, []) <$> s.releaseFinalizedBond id l
  | voidFinalize id => (fun r => (r.1, r.2, [])) <$> s.voidFinalize d e id l
  | markChallenged id => (·, l, []) <$> s.markChallenged e id
  | resolveChallenge id challengerWins beneficiary =>
      (·, l, []) <$> s.resolveChallenge d e id challengerWins beneficiary
  | cancelChallenge id => (·, l, []) <$> s.cancelChallenge d e id
  | resolveObjectiveChallenge id challengerWins beneficiary =>
      (·, l, []) <$> s.resolveObjectiveChallenge e id challengerWins beneficiary
  | expireCommitted id => (·, l, []) <$> s.expireCommitted d e id
  | expireRevealed id => (·, l, []) <$> s.expireRevealed d e id
  | claimBond => (fun r => (r.2, l, [.managerBond e.sender r.1])) <$> s.claimBond e

/-- A call of the challenge manager, whose ETH has arrived. -/
def ChallengeCall.run (l : PayoutLedger) (p : BountyPool) (s : SubmissionManager)
    (c : ChallengeManager) :
    ChallengeCall → Outcome (ChallengeManager × SubmissionManager × List Frame)
  | setPausedNewActions paused => (·, s, []) <$> c.setPausedNewActions d e paused
  | challenge id revealHash reasonHash =>
      (fun r => (r.1, r.2, [])) <$> c.challenge d e id revealHash reasonHash l p s
  | resolve id hash wins transcriptHash transcriptURI verdictHash =>
      (·, s, []) <$> c.resolve d e id hash wins transcriptHash transcriptURI verdictHash s
  | resolveFor id hash wins transcriptHash transcriptURI verdictHash beneficiary =>
      (·, s, []) <$>
        c.resolveFor d e id hash wins transcriptHash transcriptURI verdictHash beneficiary s
  | finalizeResolution id hash =>
      (fun r => (r.1, r.2, [])) <$> c.finalizeResolution d e id hash s
  | expireChallenge id hash => (fun r => (r.1, r.2, [])) <$> c.expireChallenge d e id hash s
  | slashResolverBond id hash proofHash =>
      (fun r => (r.1, r.2, [])) <$> c.slashResolverBond d e id hash proofHash s
  | applyObjectiveResolution id hash wins proofHash beneficiary =>
      (fun r => (r.1, r.2, [])) <$> c.applyObjectiveResolution d e id hash wins proofHash
        beneficiary s
  | claimBond => (fun r => (r.2, s, [.challengeBond e.sender r.1])) <$> c.claimBond e

/-- The credit recorder as the ledger sees it on `close`. -/
def closeGuard (l : PayoutLedger) (s : SubmissionManager) : CreditCloseGuard :=
  if l.creditRecorder = d.submissionManager then
    ⟨s.openSubmissionCount, s.pausedAll, s.creditRecoveryEndsAt⟩
  else ⟨e.ext.openSubmissionCount l.creditRecorder, e.ext.pausedAll l.creditRecorder,
    e.ext.creditRecoveryEndsAt l.creditRecorder⟩

/-- The submission manager of the pool as the pool sees it. -/
def armedManager (p : BountyPool) (s : SubmissionManager) : SubmissionManagerArmed :=
  if p.submissionManager = d.submissionManager then
    ⟨s.fundingArmed, s.fundingAuthorizationExpiresAt,
      SubmissionManager.objectiveProofCapabilityActive d e⟩
  else ⟨e.ext.fundingArmed p.submissionManager,
    e.ext.fundingAuthorizationExpiresAt p.submissionManager,
    e.ext.objectiveProofCapabilityActive p.submissionManager⟩

/-- Call the payee of a payout; without ETH to send the payout is finished at once. -/
def startPayout (s : SubmissionManager) (payout : Payout) (l : PayoutLedger) (p : BountyPool) :
    Outcome (BountyPool × PayoutLedger × List Frame) :=
  if payout.value = 0 then pure (p.finish d payout, l, [])
  else (·, l, [.payout payout]) <$> p.pay d e (armedManager d e p s) payout l

def LedgerCall.run (s : SubmissionManager) (l : PayoutLedger) (p : BountyPool) :
    LedgerCall → Outcome (BountyPool × PayoutLedger × List Frame)
  | setPausedNewActions paused => (p, ·, []) <$> l.setPausedNewActions d e paused
  | setCreditRecorder recorder => (p, ·, []) <$> l.setCreditRecorder d e recorder
  | setRolloverDestination destination =>
      (p, ·, []) <$> l.setRolloverDestination d e ⟨p.registry, p.problemId⟩ destination
  | recordCredit solver atoms => (p, ·, []) <$> l.recordCredit d e solver atoms
  | voidCredit solver atoms => (p, ·, []) <$> l.voidCredit e solver atoms
  | close => (p, ·, []) <$> l.close d e p.accountedBalance (closeGuard d e l s)
  | sweepRollover => do
      let (payout, l, p) ← l.sweepRollover d e p
      match payout with
      | none => pure (p, l, [])
      | some payout => startPayout d e s payout l p

def PoolCall.run (s : SubmissionManager) (l : PayoutLedger) (p : BountyPool) :
    PoolCall → Outcome (BountyPool × PayoutLedger × List Frame)
  | setLedger => (·, l, []) <$> p.setLedger d e d.ledger
  | setSubmissionManager submissionManager =>
      (·, l, []) <$> p.setSubmissionManager d e submissionManager
  | setRegistry registry problemId => (·, l, []) <$> p.setRegistry d e registry problemId
  | setAcceptingFunds accepting =>
      (·, l, []) <$> p.setAcceptingFunds d e (armedManager d e p s) accepting l
  | fund => (·, l, []) <$> p.fund d e (armedManager d e p s) l
  | fundFor sponsor => (·, l, []) <$> p.fundFor d e (armedManager d e p s) sponsor l
  | claim => do
      let (payout, l, p) ← p.claim d e l
      startPayout d e s payout l p
  | claimTo recipient => do
      let (payout, l, p) ← p.claimTo d e recipient l
      startPayout d e s payout l p
  | donateClaimToPool destinationPool => do
      let (payout, l, p) ← p.donateClaimToPool d e destinationPool l
      startPayout d e s payout l p
  | sponsorRefund => do
      let (payout, p) ← p.sponsorRefund e l
      startPayout d e s payout l p
  | sponsorRefundTo recipient => do
      let (payout, p) ← p.sponsorRefundTo e recipient l
      startPayout d e s payout l p
  | recoverForcedEth amount => do
      let (payout, p) ← p.recoverForcedEth e amount l
      startPayout d e s payout l p
  | claimFees => do
      let (payout, p) ← p.claimFees d
      startPayout d e s payout l p
  | claimFeesTo recipient => do
      let (payout, p) ← p.claimFeesTo d e recipient
      startPayout d e s payout l p

/-! ### The step function -/

/-- The contracts of the board that can hold ETH. -/
inductive Holder where
  | submissionManager | challengeManager | pool
deriving DecidableEq, Repr

inductive Action where
  | tick (block : Block)
  | force (holder : Holder) (amount : ℕ)
  | call (sender : Address) (value : ℕ) (ext : External) (c : Call)
  | finish

/-- A balance is a word. -/
def receive (balance value : ℕ) : Outcome ℕ := addU256 balance value

def Call.run (w : World) : Call → Outcome World
  | .manager c => do
      let balance ← receive w.sm.balance e.value
      let (s, l, f) ← c.run d e w.ledger w.pool { w.sm with balance := balance }
      pure { w with sm := s, ledger := l, frames := f ++ w.frames }
  | .challenge c => do
      let balance ← receive w.cm.balance e.value
      let (c, s, f) ← c.run d e w.ledger w.pool w.sm { w.cm with balance := balance }
      pure { w with cm := c, sm := s, frames := f ++ w.frames }
  | .ledger c => do
      let (p, l, f) ← c.run d e w.sm w.ledger w.pool
      pure { w with pool := p, ledger := l, frames := f ++ w.frames }
  | .pool c => do
      let balance ← receive w.pool.balance e.value
      let (p, l, f) ← c.run d e w.sm w.ledger { w.pool with balance := balance }
      pure { w with pool := p, ledger := l, frames := f ++ w.frames }

/-- ETH that arrives without a call. -/
def World.force (amount : ℕ) (w : World) : Holder → Outcome World
  | .submissionManager => do
      let balance ← receive w.sm.balance amount
      let forcedEth := w.sm.forcedEth + amount
      pure { w with sm := { w.sm with balance := balance, forcedEth := forcedEth } }
  | .challengeManager => do
      let balance ← receive w.cm.balance amount
      let forcedEth := w.cm.forcedEth + amount
      pure { w with cm := { w.cm with balance := balance, forcedEth := forcedEth } }
  | .pool => do
      let balance ← receive w.pool.balance amount
      pure { w with pool := { w.pool with balance := balance } }

/-- The rest of a suspended call. -/
def World.finish (w : World) : Frame → World
  | .managerBond claimant amount => { w with sm := w.sm.finishClaimBond claimant amount }
  | .challengeBond claimant amount => { w with cm := w.cm.finishClaimBond claimant amount }
  | .payout (.rollover recipient amount) =>
      { w with
        pool := w.pool.finish d (.rollover recipient amount)
        ledger := w.ledger.emit (.rolloverSwept recipient amount) }
  | .payout payout => { w with pool := w.pool.finish d payout }

def World.step (w : World) : Action → Option World
  | .tick block =>
      if w.frames = [] ∧ w.block.number < block.number ∧ w.block.timestamp ≤ block.timestamp then
        some { w with block := block }
      else none
  | .force holder amount => (w.force amount holder).toOption
  | .call sender value ext c =>
      if d.IsExternal sender ∧ (value = 0 ∨ c.payable = true) then
        (c.run d ⟨w.block, sender, value, ext⟩ w).toOption
      else none
  | .finish =>
      match w.frames with
      | [] => none
      | f :: frames => some ({ w with frames := frames }.finish d f)

/-! ### Initial states -/

/-- The pointers between the contracts, each set once by an owner; they may be set before the
board is used. -/
structure Wiring where
  challengeManager : Address := 0
  creditRecorder : Address := 0
  submissionManager : Address := 0
  ledgerSet : Bool := false

/-- The world right after the four deployments. -/
def Deployment.genesis (block : Block) (wiring : Wiring) : World where
  block := block
  sm :=
    { bestScoreAtoms := d.sm.seedScoreAtoms
      challengeManager := wiring.challengeManager
      logs := [.openWitnessWindowConfigured d.sm.deployedAt d.sm.armNotBefore] }
  cm := {}
  ledger := { creditRecorder := wiring.creditRecorder }
  pool :=
    { ledger := if wiring.ledgerSet then d.ledger else 0
      submissionManager := wiring.submissionManager }
  frames := []

/-- The protocol of a board. -/
def Deployment.protocol : System World Action where
  init w := ∃ block wiring, d.sm.deployedAt ≤ block.timestamp ∧
    d.lc.deployedAt ≤ block.timestamp ∧ w = d.genesis block wiring
  step w a := w.step d a

/-- The protocol of a board whose ledger has the submission manager as its credit recorder from
the start. -/
def Deployment.wired : System World Action where
  init w := d.protocol.init w ∧ w.ledger.creditRecorder = d.submissionManager
  step w a := w.step d a

/-- The two systems take the same runs. -/
theorem Deployment.wired_exec (d : Deployment) (w : World) (as : List Action) :
    d.wired.exec w as = d.protocol.exec w as := by
  induction as generalizing w with
  | nil => rfl
  | cons a as ih =>
      simp only [System.exec]
      exact congrArg _ (funext ih)

/-! ### A sample board -/

namespace Sample

/-- A number that tells the hashed inputs of the sample runs apart. -/
def fingerprint (bs : Bytes) : ℕ := bs.foldl (fun acc b => (acc * 256 + b.toNat) % (2 ^ 61 - 1)) 1

/-- Keccak-256 of the inputs that occur in the sample runs, under their fingerprints. -/
def hashes : List (ℕ × Bytes32) :=
  [ -- commitments, CIDs, reveal instances and a challenge instance
    (2062088240035455709, 0x73cc9c3ba0522eab4c466929390212347b90b6e9b945d2367a13ff0326421689),
    (1526481562977, 0x63b5c20c74352b3f96b68a514a2ac2c0a8f03dfa852da7508aed84d7ec023ac2),
    (647227031365691307, 0xe9674155073b3bc9e916b0578a89ee1cd8554486f589d2eae05b6982740f2def),
    (1413569893698298590, 0xc270205d7e5636aff93fef6deee4d18ddbfe6db190259f8d35ce6815c26d93cf),
    (1526481563000, 0x3b5a13eac70bcc26025ccd5c89431e5d18cd43361796020fc629596051d8f52b),
    (1326451592123630381, 0x8e1da8e8bdbf24f69c921a0ce1cbf430cc8ec33147d9532dce16989aa3f6f592),
    (1485627487740420830, 0x7d9c53e86c16df99176fab0848f21b914643046446b0cb8907237a6e7c6c7adc),
    (1526481563001, 0xe89c40e5cd367a435ce7123217bd9d365615d62c2cbb9a3731beb9e8bc73fc92),
    (183709222764624920, 0x03a4d15f30ede1d52b58d4c772d3965111ef37d34294a5157538bb7d92a8e6bc),
    (2062088240039650013, 0x16ff5dad16d35010b9df81b84efd00067e29a8b231f8a3c5f13966b75df3e9b6),
    (348580248192318535, 0x4e7e7a43f053b17a0bdac70a421c12b8365d6d2bc0352f78d038a5eaf8398554),
    (647227031365777707, 0xc91c54781a6d06765bdd991188627f8ce1dd042aaeb8ff17502292a13fe76a57),
    (2226128657150154015, 0xda42d2b70d4cd71f827979b2268340a3fb7c13170ef5fa688e7c235a62e5d5f1),
    (2226128657166931231, 0xfdf5bcad2d1236ee54b3777d4bf8e92c1fd350da32e24557b36dcd5e917b2d89),
    -- the funding authorization
    (1574273051169343912, 0xc281b2f1db1b3b4856d32ad8d92f599f43da2b9fa25da40365b9af8d278fdeb8),
    (940183738223985594, 0x78b5e63b46efa0b02e17f09850bf88d970e2d2706dc015f218e2d69f2c642b9e),
    (641609274739423457, 0x94c8d0c7e29fa91e0fc9bed2c561638a455022dbbdcdbea7c38d6103b8970961),
    (19321265883110987, 0xa5fa7334a515b4b35ac492bb3b91ca6c58e0776fa4db2e2ded4c6b352a19c0e1),
    (110948047309439956, 0x8b73c3c69bb8fe3d512ecc4cf759cc79239f7b179b0ffacaa9a75d522b39400f),
    (1828686908894430666, 0x8517f4b74080bbfd01adf34de448065b20c322a2a7f5f5fe1a0641366bf0edad),
    (306, 0xad7c5bef027816a800da1736444fb58a807ef4c9603b7848673f7e3a68eb14a5),
    (1520277345334889127, 0x36270fae6f6a55576684d89132b4ee2801ffc29355233585631b7bb2f78c94ab),
    (1802917285054701651, 0xe66cd57332a1ae45da6f56e3d6c44b1a093c4a50fc4f0402a9dc3d549575b13a),
    (1897918118822253348, 0x72b2a68671552d53a34d4ac4c141a87536664e66fe444fd091a3447f9a2b13c5),
    (254576382069709648, 0x39ee65f1f5d9a403734b0f49971d6b55ec21c8329d1c8f2d782ad93f399259e7),
    (1864600640985633930, 0x4cae8339579c3b1b8b5cf558e372029f69321ef5fcb755b7e6bb959c2471bb3d),
    (267764791220367845, 0x92ce6a9764bf2fe051851ebc2865a6366615fe8a6af03edb1819a8eb1f13fd2e),
    (1728835060212149415, 0x98cb1eb7c500cadfa905e8c9c96dcd4a0ce88760371fbac9193802e77297ffb0),
    -- the funding authorization with the nonce 2
    (1802917285054701653, 0xb59122c871c809ae7931b8c5d2d90b297377a992a3265407403c175f8b72fef1),
    (2000928157012341514, 0x97391dc45c1aa9cb9158eda8fcbbf5bffe21d10c5991f51ebc4b361b4fa9baa4),
    (254576382069709650, 0xa6e971c9a978c578e472393e1bd1f08896dc033f7024a2c445b36f342d5e5179),
    (2097832225601677103, 0x6be95e7ac6d64acbf18eb4e9938270bbc0171a6ca56662668f27417afd390094),
    (267764791220367847, 0xc6d70e27ff751f1682758affe4c3e41f9f48b16f050e368e73125a49a3b3cd0e),
    (715660005372404755, 0xb3df0346f2824448047ab5802ae42531eb7fb7ec63d7ed41f2e9371c0149e6c6)]

/-- The signatures of the sample runs: digest, `v`, `r`, `s` and the signer. -/
def signers : List ((Bytes32 × ℕ × Bytes32 × Bytes32) × Address) :=
  [((0x72b2a68671552d53a34d4ac4c141a87536664e66fe444fd091a3447f9a2b13c5, 27,
      0xdfdd5cdb16a6e18a1fb3be370efd8468357480e343d37daac91037ae2df63bf0,
      0x63d0d492485e962e56244a0682f32b973f6cf436ef48276489fa9a2683edc60b),
      0x7e5f4552091a69125d5dfcb7b8c2659029395bdf),
   ((0x4cae8339579c3b1b8b5cf558e372029f69321ef5fcb755b7e6bb959c2471bb3d, 27,
      0xfba04df9ca3ba0729a2ddc496f4070ceab68b9c7c035de3fdc17dd0266ea74ce,
      0x242f09e747f39dc151dfbdb3df37ea884d8737df1e635ee9846ffbfccd69c3a2),
      0x2b5ad5c4795c026514f8317c7a215e218dccd6cf),
   ((0x98cb1eb7c500cadfa905e8c9c96dcd4a0ce88760371fbac9193802e77297ffb0, 28,
      0x1786cff899c21c064975210282b985b8c09ae0eb396b4d6e317ade4f319a2ffd,
      0x577cb5f74b1e4a14b4d1319e52be08a4bc6888e7fc4b29473799b49987cd4032),
      0x6813eb9362372eef6200f3b1dbc3f819671cba69),
   ((0x97391dc45c1aa9cb9158eda8fcbbf5bffe21d10c5991f51ebc4b361b4fa9baa4, 27,
      0x99c5d421ccb009431577881e96da0f3311f9583c3395c40815283c290789bd50,
      0x791d799b441bcd4689513e9bf0edaad782ad448ad7c7efd76b08d7dfbbe280d4),
      0x7e5f4552091a69125d5dfcb7b8c2659029395bdf),
   ((0x6be95e7ac6d64acbf18eb4e9938270bbc0171a6ca56662668f27417afd390094, 28,
      0x68535462c6484c6fc80996ffa36f622bc2d7457149617b2d9192a1c900fb9d93,
      0x31269f3f402d5bb00e7bb86fb281cf9661300f6d1c3754b975bdce3e0ed07912),
      0x2b5ad5c4795c026514f8317c7a215e218dccd6cf),
   ((0xb3df0346f2824448047ab5802ae42531eb7fb7ec63d7ed41f2e9371c0149e6c6, 27,
      0xa29ddb589edea04f437f3703b6b064160b2b73ffd2f0d139d3eec827b328a43b,
      0x7456c2bb218f60e5cf41a53129289b7215ddb4676dcfb9810e2dd2b34c1cb90d),
      0x6813eb9362372eef6200f3b1dbc3f819671cba69)]

def crypto : Crypto where
  keccak256 bs := (hashes.lookup (fingerprint bs)).getD 0
  sha256 _ := 0
  ecrecover digest v r s := (signers.lookup (digest, v, r, s)).getD 0
  chainid := 1

/-- The time of the deployment. -/
def start : ℕ := 1700000000

def window : ℕ := 86400

def owner : Address := 0x0a
def treasury : Address := 0x0b
def resolver : Address := 0x0c

/-- A board with a challenge window of one day, whose seed score is 100. -/
def board : Deployment where
  crypto := crypto
  submissionManager := 0x5001
  challengeManager := 0x5002
  ledger := 0x5003
  pool := 0x5004
  sm :=
    { owner := owner, treasury := treasury
      boardSetDigest := 0xb1, releaseBindingDigest := 0xb2
      objectiveVerifier := 0x0d, objectiveVerifierCodehash := 0xcd
      productionLaunchAuthority := 0x7e5f4552091a69125d5dfcb7b8c2659029395bdf
      independentSecurityAuthority := 0x2b5ad5c4795c026514f8317c7a215e218dccd6cf
      governanceAuthority := 0x6813eb9362372eef6200f3b1dbc3f819671cba69
      alphaBps := 100, minPostingBondWei := 1, challengeWindowSeconds := window
      deployedAt := start, onchainDa := false, maxSolutionBytes := 0
      seedScoreAtoms := 100, minImprovementAtoms := 1
      owner_ne_zero := by decide, treasury_ne_zero := by decide, owner_ne_treasury := by decide
      digests_ne_zero := by decide, verifier_ne_zero := by decide
      authorities_ne_zero := by decide, authorities_distinct := by decide
      alphaBps_le := by decide, minPostingBondWei_lt := by decide, window_pos := by decide
      window_le := by decide, onchainDa_bytes := by decide, seed_gt := by decide
      seed_lt := by decide, minImprovementAtoms_lt := by decide }
  cm :=
    { owner := owner, resolver := resolver, treasury := treasury
      challengeWindowSeconds := window, betaBps := 0, minCounterBondWei := 1, rerunCostWei := 0
      rerunCostMultiplierBps := 0, resolverDecisionBondWei := 1
      resolverFraudWindowSeconds := 3600
      owner_ne_zero := by decide, resolver_ne_zero := by decide, treasury_ne_zero := by decide
      window_pos := by decide, window_le := by decide, fraudWindow_pos := by decide
      fraudWindow_le := by decide, resolverDecisionBond_pos := by decide, betaBps_le := by decide
      minCounterBondWei_lt := by decide, rerunCostWei_lt := by decide
      rerunCostMultiplierBps_lt := by decide, resolverDecisionBondWei_lt := by decide }
  lc :=
    { owner := owner, treasury := treasury, feeBps := 250, deployedAt := start
      earliestCloseTimestamp := start + days 30, closeByTimestamp := start + days 180
      owner_ne_zero := by decide, treasury_ne_zero := by decide, feeBps_le := by decide
      earliestClose_ge := by decide, closeBy_ge := by decide, earliestClose_le := by decide
      closeBy_lt := by decide }
  pc :=
    { owner := owner, fundingCap := 1000, owner_ne_zero := by decide, fundingCap_pos := by decide
      fundingCap_lt := by decide }
  vaultCodehash := 0x0e
  addresses_distinct := by decide

/-- The block `seconds` after the deployment. -/
def blockAt (seconds number : ℕ) (h : start + seconds < 2 ^ 63 := by decide) : Block :=
  ⟨start + seconds, number, h⟩

/-! The times that several sample runs share, and small words. -/

theorem start_fits : start + 0 < 2 ^ 63 := by decide

theorem mature_fits : start + 12 < 2 ^ 63 := by decide

theorem revealed_fits : start + 24 < 2 ^ 63 := by decide

theorem hour_fits : start + 3600 < 2 ^ 63 := by decide

theorem window_fits : start + window < 2 ^ 63 := by decide

theorem closed_fits : start + (12 + window) < 2 ^ 63 := by decide

theorem armed_fits : start + (window + 12) < 2 ^ 63 := by decide

theorem one_fits : 1 < 2 ^ 256 := by decide

theorem epoch_fits : 2 < 2 ^ 64 := by decide

/-- All four contracts know each other from the start. -/
def genesis : World :=
  board.genesis (blockAt 0 1) ⟨board.challengeManager, board.submissionManager,
    board.submissionManager, true⟩

theorem genesis_init : board.wired.init genesis := by
  refine ⟨⟨_, _, ?_, ?_, rfl⟩, rfl⟩ <;> decide

/-- A solution with the CID `cid` and the score `claimed`, by `solver`. -/
structure Solution where
  solver : Address
  cid : Bytes
  claimed : ℤ

def solutionA : Solution := ⟨0x51, ascii "cid-a", 50⟩
def solutionX : Solution := ⟨0x52, ascii "cid-x", 70⟩
def solutionY : Solution := ⟨0x53, ascii "cid-y", 70⟩

def Solution.commit (x : Solution) (value : ℕ) (ext : External := {}) : Action :=
  .call x.solver value ext
    (.manager (.commit (crypto.keccak256 (commitPreimageWithDa x.cid x.solver 0xda [1])) 0xda))

def Solution.reveal (x : Solution) (id : ℕ) : Action :=
  .call x.solver 0 {} (.manager (.reveal id x.cid x.claimed (100 - x.claimed).toNat [1] []))

def Solution.finalize (x : Solution) (id : ℕ) : Action :=
  .call x.solver 0 {} (.manager (.finalize id 0))

def byOwner (c : ManagerCall) : Action := .call owner 0 {} (.manager c)

/-! The board is armed and funded: the objective verifier is live, and the problem `7` of the
registry is frozen and names the pool. -/

def vault : Address := 0xdd
def sponsor : Address := 0x5f

def live : External where
  codehash a := if a = 0x0d then 0xcd else if a = vault then 0x0e else 0
  objectiveProofsActive a := if a = 0x0d then some (wordBytes 1) else none
  problemPool _ _ := board.pool
  explicitlyFrozen _ _ := true
  vaultRegistry _ := 0xee
  vaultAllocator _ := owner

def signature (i : ℕ) : Bytes :=
  match signers[i]? with
  | some ((_, v, r, s), _) => wordBytes r ++ wordBytes s ++ [UInt8.ofNat v]
  | none => []

def authorize : Action :=
  .call treasury 0 live (.manager (.authorizeFunding 0xad (start + 2 * window) 0
    (signature 0, signature 1, signature 2)))

/-- Funding is armed once the open-witness window has passed. -/
def armingRun : List Action :=
  [authorize, .tick (blockAt window 2), .call owner 0 live (.manager (.armFunding 0xad))]

/-- A sponsor funds the pool with 1000 wei. -/
def fundingRun : List Action :=
  armingRun ++ [.call owner 0 live (.pool (.setRegistry 0xee 7)),
    .call owner 0 live (.ledger (.setRolloverDestination vault)),
    .call owner 0 live (.pool (.setAcceptingFunds true)), .call sponsor 1000 live (.pool .fund)]

/-- `solutionA` is committed, revealed and finalized for credit. -/
def creditRun : List Action :=
  fundingRun ++ [solutionA.commit 10 live, .tick (blockAt (window + 12) 3), solutionA.reveal 1,
    .tick (blockAt (2 * window + 12) 4), solutionA.finalize 1]

/-- The ledger is closed with credit. -/
def closingRun : List Action :=
  creditRun ++ [.tick (blockAt (days 180) 5), .call sponsor 0 {} (.ledger .close)]

end Sample

end P42Prizes
