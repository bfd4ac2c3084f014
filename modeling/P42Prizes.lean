import P42Prizes.Abi
import P42Prizes.AgentWallet
import P42Prizes.AgentWalletLaws
import P42Prizes.AlertLog
import P42Prizes.ArithmeticKakeya
import P42Prizes.Autoconvolution
import P42Prizes.AutoconvolutionLaws
import P42Prizes.BountyPool
import P42Prizes.ChallengeBonds
import P42Prizes.ChallengeEnvelope
import P42Prizes.ChallengeInstances
import P42Prizes.ChallengeManager
import P42Prizes.ChallengeMoves
import P42Prizes.ChallengePass
import P42Prizes.CheckedWords
import P42Prizes.CommitmentLaws
import P42Prizes.CommonNeighbors
import P42Prizes.ConvolutionLaws
import P42Prizes.CreditBounds
import P42Prizes.DaDocuments
import P42Prizes.DaEvidence
import P42Prizes.DaEvidenceLaws
import P42Prizes.Deployment
import P42Prizes.Disputes
import P42Prizes.DuplicatePriority
import P42Prizes.EdgesArithmetic
import P42Prizes.EdgesLaws
import P42Prizes.EntitlementLaws
import P42Prizes.EnvelopeLaws
import P42Prizes.EnvelopeLock
import P42Prizes.Equivocation
import P42Prizes.Escrow
import P42Prizes.Evm
import P42Prizes.FloorSums
import P42Prizes.ForcingClosures
import P42Prizes.FrontierLaws
import P42Prizes.FundingAuthorization
import P42Prizes.GenerationLaws
import P42Prizes.GenerationRuns
import P42Prizes.GenerationTexts
import P42Prizes.Generations
import P42Prizes.HadamardMini
import P42Prizes.HighWater
import P42Prizes.HighWaterLaws
import P42Prizes.IdempotencyLaws
import P42Prizes.InsertionMaps
import P42Prizes.JsonText
import P42Prizes.KakeyaLaws
import P42Prizes.Keyed
import P42Prizes.LeaseLaws
import P42Prizes.Lifecycle
import P42Prizes.LinearSystems
import P42Prizes.LockLaws
import P42Prizes.LockRecovery
import P42Prizes.LogScan
import P42Prizes.LogScanLaws
import P42Prizes.LowerEnvelopes
import P42Prizes.ManagerMoves
import P42Prizes.MertensCeiling
import P42Prizes.MertensCeilingLaws
import P42Prizes.MertensIntervals
import P42Prizes.MultisigTimelock
import P42Prizes.NestedCalls
import P42Prizes.NonceLaws
import P42Prizes.ObjectiveGuest
import P42Prizes.OpenPhase
import P42Prizes.OutwardRounding
import P42Prizes.PassLaws
import P42Prizes.Passes
import P42Prizes.PatternClasses
import P42Prizes.PauseClock
import P42Prizes.PayoutLedger
import P42Prizes.PoolConservation
import P42Prizes.PoolFunding
import P42Prizes.PoolMoves
import P42Prizes.PortalCommits
import P42Prizes.PortalPriority
import P42Prizes.PrefixCodes
import P42Prizes.Protocol
import P42Prizes.PythonText
import P42Prizes.Q6Search
import P42Prizes.QueueLaws
import P42Prizes.QuorumMoves
import P42Prizes.QuorumProtocol
import P42Prizes.QuorumSafety
import P42Prizes.RegistryLaws
import P42Prizes.RerunLaws
import P42Prizes.ResidueDigits
import P42Prizes.RolloverVault
import P42Prizes.RolloverVaultLaws
import P42Prizes.RootTransforms
import P42Prizes.RunnerActions
import P42Prizes.RunnerHealth
import P42Prizes.RunnerHealthLaws
import P42Prizes.RunnerQueue
import P42Prizes.RunnerWorker
import P42Prizes.SchedulingLaws
import P42Prizes.ScoreText
import P42Prizes.ScoreTextLaws
import P42Prizes.SignedDigits
import P42Prizes.SignedPacking
import P42Prizes.SignedPackingLaws
import P42Prizes.SolverExit
import P42Prizes.SparseMertens
import P42Prizes.SparseMertensLaws
import P42Prizes.StarRamsey
import P42Prizes.StarRamseyLaws
import P42Prizes.Steps
import P42Prizes.SubmissionManager
import P42Prizes.Systems
import P42Prizes.TimelockLaws
import P42Prizes.TimelockWindows
import P42Prizes.TranscriptLaws
import P42Prizes.TypedTranscript
import P42Prizes.VerifierInput
import P42Prizes.WalletNonce
import P42Prizes.WeakDuality
