import SinkFencing.Broker
import SinkFencing.Config.Json
import SinkFencing.Main
import SinkFencing.Config.Startup
import SinkFencing.Script
import SinkFencing.SlotPool
import SinkFencing.Proofs.Counting
import SinkFencing.Proofs.Pending
import SinkFencing.Proofs.ProbingRestart
import SinkFencing.Proofs.ListingEffect
import SinkFencing.Proofs.ListingRestart
import SinkFencing.Proofs.Noninterference
import SinkFencing.Proofs.ProbingWay
import SinkFencing.Proofs.Rerun
import SinkFencing.Proofs.RepeatedRestarts
import SinkFencing.Proofs.RestartOrder
import SinkFencing.Proofs.Truncation
import SinkFencing.Proofs.Retry
import SinkFencing.Proofs.StrategyAgreement
import SinkFencing.Proofs.SlotLease
import SinkFencing.Proofs.RestoredPool
import SinkFencing.Proofs.PassEnd
import SinkFencing.Proofs.ConfiguredRecovery
import SinkFencing.Proofs.ListingOutcome
import SinkFencing.Proofs.ReportAccount
import SinkFencing.Proofs.ProbingGrowth
import SinkFencing.Proofs.PoolCalls
import SinkFencing.Proofs.PoolSafety
import SinkFencing.Proofs.PoolPeak
import SinkFencing.Proofs.LeaseAccount
import SinkFencing.Proofs.PoolRestart
import SinkFencing.Proofs.TxnIdSpelling
import SinkFencing.Proofs.BrokerAccount
import SinkFencing.Proofs.OwnerPartition
import SinkFencing.Proofs.PassLog
import SinkFencing.Proofs.CommandLine
import SinkFencing.Proofs.EnvEntries
import SinkFencing.Proofs.TrackedLayers
import SinkFencing.Proofs.FileEntries
import SinkFencing.Proofs.LayerResolution
import SinkFencing.Proofs.ConfigLoad
import SinkFencing.Proofs.EnvSpelling
import SinkFencing.Proofs.EnvOverride
import SinkFencing.Proofs.LayeringLaws
