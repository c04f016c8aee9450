import Briefr.Library.Base64
import Briefr.Library.Batches
import Briefr.Library.Csv
import Briefr.Library.DecimalOrder
import Briefr.Library.Substitution
import Briefr.Library.Dict
import Briefr.Library.FileTree
import Briefr.Library.FirstGreatest
import Briefr.Library.JsonAscii
import Briefr.Library.KeyedUpdates
import Briefr.Library.PaddedLex
import Briefr.Library.RoundHalfEven
import Briefr.Library.Runs
import Briefr.Library.SerialTable
import Briefr.Library.SqlTables
import Briefr.Library.Rewriting
import Briefr.Library.SqlText
import Briefr.Library.SqlMerge
import Briefr.Library.StableSort
import Briefr.Library.KeysetPaging
import Briefr.Library.TokenBucket
import Briefr.Library.UnionFind
import Briefr.Library.UniqueIndex
import Briefr.Library.YaraSyntax
import Briefr.Python.Value
import Briefr.Python.Datetime
import Briefr.Python.Objects
import Briefr.Python.Text
import Briefr.Python.Casing
import Briefr.Python.Urllib
import Briefr.Python.UrlCanonical
import Briefr.Python.Ipaddress
import Briefr.Python.Digits
import Briefr.Python.Keywords
import Briefr.Python.Loop
import Briefr.Matching.Cpe
import Briefr.Matching.StackAssets
import Briefr.Matching.Agreement
import Briefr.Matching.VersionOrder
import Briefr.Matching.DottedVersions
import Briefr.Matching.WildcardVersions
import Briefr.Scoring.AssetMatch
import Briefr.Scoring.Environment
import Briefr.Scoring.Priority
import Briefr.Scoring.Escalation
import Briefr.Scoring.Risk
import Briefr.Scoring.Threat
import Briefr.Feeds.CveRecordV5
import Briefr.Feeds.Cvelistv5
import Briefr.Feeds.Epss
import Briefr.Feeds.NvdConfigurations
import Briefr.Feeds.NvdFetch
import Briefr.Feeds.CpeNames
import Briefr.Feeds.Otx
import Briefr.Db.Cve
import Briefr.Db.ChangeHistory
import Briefr.Db.Exploits
import Briefr.Db.Provenance
import Briefr.Db.Reingest
import Briefr.Db.AdditiveMerge
import Briefr.Db.EnrichmentBatches
import Briefr.Db.ApiMetering
import Briefr.Db.CacheRetention
import Briefr.Db.Publications
import Briefr.Db.PgAdapt
import Briefr.Db.PgRewrites
import Briefr.Db.PgPlaceholders
import Briefr.Db.PgExact
import Briefr.Db.EpssSnapshot
import Briefr.Routers.CveFilters
import Briefr.Routers.CveFeed
import Briefr.Scheduler.EpssBackfill
import Briefr.Scheduler.EpssSync
import Briefr.Scheduler.NvdSync
import Briefr.Scheduler.Restart
import Briefr.Scheduler.NvdCoverage
import Briefr.Outbound.Pacing
import Briefr.Outbound.ApiQueue
import Briefr.Outbound.Durations
import Briefr.Outbound.DurationNotation
import Briefr.Outbound.SourcePauses
import Briefr.Outbound.ResilientClient
import Briefr.Outbound.RateLimited
import Briefr.Outbound.Circuits
import Briefr.Outbound.Slots
import Briefr.Outbound.Places
import Briefr.Outbound.Spacing
import Briefr.Tracking.ApiUsage
import Briefr.Tracking.UsageReads
import Briefr.Enrichment.IocQuota
import Briefr.Tracking.ServiceStats
import Briefr.Enrichment.QuotaRuns
import Briefr.Ai.LlmRouter
import Briefr.Embeddings.Backfill
import Briefr.Embeddings.Freshness
import Briefr.Embeddings.Starvation
import Briefr.RateLimit.TokenBucket
import Briefr.RateLimit.SharedStore
import Briefr.RateLimit.ClientKeys
import Briefr.Blocklist.Classify
import Briefr.Blocklist.Build
import Briefr.Blocklist.Partition
import Briefr.Blocklist.Serialize
import Briefr.Blocklist.Stability
import Briefr.Blocklist.TrancoSync
import Briefr.Blocklist.UrlExport
import Briefr.Blocklist.ExportText
import Briefr.Correlation.CombinedPriority
import Briefr.Correlation.PriorityOrder
import Briefr.Correlation.PriorityChanges
import Briefr.Correlation.Freshness
import Briefr.Correlation.EdgeConfidence
import Briefr.Correlation.OldestPulse
import Briefr.Correlation.Lifecycle
import Briefr.Correlation.LifecycleOrder
import Briefr.Correlation.LifecycleAdditions
import Briefr.Correlation.PulseFamilies
import Briefr.Correlation.FamilyComponents
import Briefr.Correlation.Campaigns
import Briefr.Correlation.CampaignRuns
import Briefr.Correlation.Suppressions
import Briefr.Correlation.InfrastructurePeers
import Briefr.Correlation.CampaignsForCve
import Briefr.Correlation.LiveCorrelation
import Briefr.Correlation.Dismissals
import Briefr.Correlation.DismissalRuns
import Briefr.Correlation.Snapshot
import Briefr.Correlation.IocNormalize
import Briefr.Correlation.SourceEvidence
import Briefr.Correlation.EvidenceJoin
import Briefr.Notifications.Inbox
import Briefr.Notifications.InboxRuns
import Briefr.Correlation.HubSuppress
import Briefr.Detection.SigmaTemplates
import Briefr.Detection.SigmaGenerator
import Briefr.Detection.Backlog
import Briefr.Detection.BacklogRuns
import Briefr.Detection.SiemQueries
import Briefr.Detection.SigmahqIndex
import Briefr.Detection.SigmahqRetirement
import Briefr.Detection.YaraGenerator
import Briefr.Security.SelfStack
import Briefr.Security.SelfStackRecall
import Briefr.Security.Redact
import Briefr.Security.LogScrub
import Briefr.Security.UrlMasking
import Briefr.Wallboard.TokenStore
import Briefr.Wallboard.IssuanceTokens
import Briefr.Auth.Sessions
import Briefr.Auth.SearchTokens
import Briefr.Auth.Setup
import Briefr.Auth.SetupOnce
import Briefr.Auth.SingleUse
import Briefr.Preferences.Profile
import Briefr.Preferences.Meaning
import Briefr.Preferences.Stack
import Briefr.Preferences.AlertStack
import Briefr.Backup.Retention
import Briefr.Backup.Archive
import Briefr.Backup.Restore
import Briefr.Backup.Recovery
import Briefr.Backup.ScheduledRun
import Briefr.Backup.TarExtraction
import Briefr.Migration.SqliteToPostgres
import Briefr.Migration.Lossless
import Briefr.Migration.InitDb
import Briefr.IntelSnapshot.Merge
import Briefr.IntelSnapshot.FailedMerge
import Briefr.IntelSnapshot.Migrated
import Briefr.IntelSnapshot.Faithful
import Briefr.Catchup.Persistence
import Briefr.Backfill.Worker
import Briefr.Backfill.Progress
import Briefr.Backfill.Counts
import Briefr.Backfill.Enrichment
import Briefr.Backfill.Lease
import Briefr.Investigations.Projection
import Briefr.Investigations.Expansion
import Briefr.Investigations.Paging
import Briefr.Investigations.Confidence
import Briefr.Investigations.Hops
import Briefr.Investigations.Opened
import Briefr.Investigations.HopFailures
import Briefr.Webhooks.AtMostOnce
import Briefr.Webhooks.Dispatch
import Briefr.Webhooks.DispatchStatus
import Briefr.Webhooks.WatchlistMonitor
import Briefr.Webhooks.DigestRepeats
import Briefr.Webhooks.Ssrf
import Briefr.Reports.DailyBrief
import Briefr.Reports.KevCoverage
import Briefr.Reports.StackMatches
import Briefr.Reports.MarketClusters
import Briefr.Frontend.FeedQueryParser
import Briefr.Frontend.FeedReading
import Briefr.Frontend.FeedNegation
import Briefr.Frontend.FeedRepeats
import Briefr.Search.Hybrid
import Briefr.Search.SemanticSearch
