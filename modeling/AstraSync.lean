import AstraSync.WalResume
import AstraSync.Replicator
import AstraSync.EpochHandoff
import AstraSync.OrphanSweep
import AstraSync.TokenIdentity
import AstraSync.CdcWorker
import AstraSync.BatchDelivery
import AstraSync.CredentialCleanup
import AstraSync.ExecutionEpochs
import AstraSync.StoppedExecutions
import AstraSync.ExecutionBindings
import AstraSync.ConnectionRetries
import AstraSync.ConnectionHistories
import AstraSync.JobRetries
import AstraSync.ConsoleSafety
import AstraSync.PromotionRetries
import AstraSync.JobDocuments
import AstraSync.CatalogActivation
import AstraSync.ConnectionSettings
import AstraSync.RecoveryRequests
import AstraSync.PromotionKeys
import AstraSync.CapabilityRevalidation
import AstraSync.WorkerExclusivity
import AstraSync.WorkerIsolation
import AstraSync.DebeziumOffsets
import AstraSync.WalCodec
import AstraSync.WalBatches
import AstraSync.SubscriberChannels
import AstraSync.ReplicationRuntime
import AstraSync.ObjectMap
import AstraSync.JdbcBatchSink
import AstraSync.ArrowTimestamps
import AstraSync.JdbcSplitQueries
import AstraSync.DispatchRejections
import AstraSync.TokenTimes
import AstraSync.SigningKeys
import AstraSync.SpillAccounting
import AstraSync.EgressGuard
