import CertRelay.Lib.KeyedTable
import CertRelay.Lib.Fallible
import CertRelay.Lib.Runs
import CertRelay.Lib.Register
import CertRelay.Lib.Paging
import CertRelay.Lib.Watermark
import CertRelay.Lib.Tally
import CertRelay.Lib.Text
import CertRelay.Lib.TokenBucket
import CertRelay.Lib.Watch
import CertRelay.Lib.Ranking
import CertRelay.Lib.Js
import CertRelay.Lib.Attempts
import CertRelay.Lib.FirstOfKey
import CertRelay.Lib.Windows
import CertRelay.Lib.Turns
import CertRelay.Lib.Oldest
import CertRelay.Lib.UrlEncoded
import CertRelay.Lib.Cidr
import CertRelay.Lib.Grouping
import CertRelay.Lib.Cooldown
import CertRelay.Lib.Recency
import CertRelay.Lib.Framing
import CertRelay.Lib.Hex
import CertRelay.Lib.Notify
import CertRelay.Lib.Lease
import CertRelay.Lib.Interleaving
import CertRelay.Relay.Crates
import CertRelay.Relay.Schema
import CertRelay.Relay.UpdateHandles
import CertRelay.Relay.StoreCalls
import CertRelay.Relay.Deliveries
import CertRelay.Relay.Records
import CertRelay.Relay.Receipts
import CertRelay.Relay.Convergence
import CertRelay.Relay.FlipFlop
import CertRelay.Relay.Accounting
import CertRelay.Relay.SyncCursor
import CertRelay.Relay.SyncPage
import CertRelay.Relay.Pagination
import CertRelay.Relay.RootClosure
import CertRelay.Relay.WriteSequence
import CertRelay.Relay.Ingest
import CertRelay.Relay.SyncWithPeer
import CertRelay.Relay.PageSize
import CertRelay.Relay.WatermarkSafety
import CertRelay.Relay.HandleMessage
import CertRelay.Relay.AddressIndex
import CertRelay.Relay.ReverseIndex
import CertRelay.Relay.RowMetadata
import CertRelay.Relay.BulkUpdates
import CertRelay.Relay.Redelivery
import CertRelay.Relay.PreSkip
import CertRelay.Relay.ContentLimits
import CertRelay.Relay.PeerTable
import CertRelay.Relay.PeerDisjoint
import CertRelay.Relay.PeerDemotion
import CertRelay.Relay.PeerAnnouncements
import CertRelay.Relay.HealthChecks
import CertRelay.Relay.Migration
import CertRelay.Relay.MigrationSafety
import CertRelay.Relay.PullRound
import CertRelay.Relay.Copies
import CertRelay.Relay.PulledBatch
import CertRelay.Relay.Bootstrap
import CertRelay.Relay.FailureBudget
import CertRelay.Relay.Retention
import CertRelay.Relay.EvictionPolicy
import CertRelay.Client.LatestTrustId
import CertRelay.Client.Anchors
import CertRelay.Client.Fabric
import CertRelay.Client.SemiTrust
import CertRelay.Client.Persistence
import CertRelay.Client.Hints
import CertRelay.Client.HintsOrder
import CertRelay.Client.HintsCircles
import CertRelay.Client.TrustUpdates
import CertRelay.Client.SemiTrustHeight
import CertRelay.Client.SignedHeads
import CertRelay.Client.AnchorDownload
import CertRelay.Client.AnchorMerge
import CertRelay.Client.AnchorSets
import CertRelay.Relay.SweepProgress
import CertRelay.Relay.HotHandles
import CertRelay.Relay.EntitlementArithmetic
import CertRelay.Relay.DeleteHandles
import CertRelay.Relay.QueryParams
import CertRelay.Client.ScanUri
import CertRelay.Client.ScanAgreement
import CertRelay.Client.RelayPool
import CertRelay.Relay.AddressPolicy
import CertRelay.Relay.ReservedAddresses
import CertRelay.Relay.HintsResponse
import CertRelay.Relay.PokePacing
import CertRelay.Relay.QueryHeat
import CertRelay.Relay.HandleQuery
import CertRelay.Relay.QueryAnswer
import CertRelay.Relay.EntityTags
import CertRelay.Client.SendQuery
import CertRelay.Client.RootCache
import CertRelay.Relay.Identity
import CertRelay.Relay.AnchorHead
import CertRelay.Client.HonestMajority
import CertRelay.Relay.Provenance
import CertRelay.Relay.PokeSending
import CertRelay.Relay.RateLimits
import CertRelay.Relay.PeerDiscovery
import CertRelay.Relay.MessageTasks
import CertRelay.Relay.TaskSafety
import CertRelay.Relay.Replicas
import CertRelay.Lib.Script
import CertRelay.Client.Calls
import CertRelay.Client.CallTrust
import CertRelay.Client.CallLookups
import CertRelay.Client.CallPublishing
import CertRelay.Client.CallSafety
import CertRelay.Client.CacheBypass
