import NodejsPool.Payments.Conservation
import NodejsPool.RemoteShare.Delivery
import NodejsPool.RemoteShare.PendingResolution
import NodejsPool.Pool.TrustedCredit
import NodejsPool.Pool.VerifierThrows
import NodejsPool.Pool.RegistryCounters
import NodejsPool.Pool.ExtranonceRanges
import NodejsPool.Pool.ExtranonceOwnership
import NodejsPool.Common.HistoryPersistence
import NodejsPool.Pool.SubmissionOnce
import NodejsPool.RemoteShare.CachedTotals
import NodejsPool.Pool.SeenBlocks
import NodejsPool.Payments.SingleRuntime
import NodejsPool.Payments.TransferMatching
import NodejsPool.Payments.PlannedBatches
import NodejsPool.BlockManager.WindowTime
import NodejsPool.RemoteShare.HashTotals
import NodejsPool.LocalComms.CleanupLatch
import NodejsPool.BlockManager.PayoutRecovery
import NodejsPool.BlockManager.BalanceLookups
import NodejsPool.Payments.UnlockCheck
import NodejsPool.Pool.ConnectionReservations
import NodejsPool.Tools.ToolSafety
import NodejsPool.Pool.MergedOrder
import NodejsPool.Pool.RateWindows
import NodejsPool.Pool.Targets
import NodejsPool.Pool.HashFactors
import NodejsPool.Pool.SubmissionOutcome
import NodejsPool.Pool.PayoutSplits
import NodejsPool.Pool.TrustedRecords
import NodejsPool.RemoteShare.PoisonShares
import NodejsPool.Common.LegacyFrames
import NodejsPool.RemoteShare.PendingLatch
import NodejsPool.Common.QueueService
import NodejsPool.Coins.EthUncles
import NodejsPool.Pool.JobRetries
import NodejsPool.Pool.JobDifficulty
import NodejsPool.Pool.AcceptedOnce
import NodejsPool.Pool.LineChunks
import NodejsPool.Coins.VerifierAccounting
import NodejsPool.Coins.PearlCredit
import NodejsPool.Api.CacheRuns
import NodejsPool.Coins.TariRandomX
import NodejsPool.Pool.HealthRuns
import NodejsPool.Worker.NoticeRuns
import NodejsPool.Worker.ShareWindow
import NodejsPool.Stats.BlockTotals
import NodejsPool.LongRunner.Cleanups
import NodejsPool.Common.CircularBuffer
import NodejsPool.Pool.UplinkDelivery
