import Cti.TaskNet
import Cti.TaskNetLinks
import Cti.TaskNetProgress
import Cti.TaskNetAbort
import Cti.TaskNetDelivery
import Cti.PyUnicode
import Cti.Identity
import Cti.MergeJoin
import Cti.Watermark
import Cti.RunRows
import Cti.Exclusion
import Cti.Durability
import Cti.UpsertLocks
import Cti.TlpFlow
import Cti.Replay
import Cti.Archive
import Cti.Lookup
import Cti.RateLimit
import Cti.BreakerHistory
import Cti.Concurrency
import Cti.BreakerReports
import Cti.Backfill
import Cti.Registration
import Cti.RunCounters
import Cti.Disclosure
import Cti.Acquire
import Cti.SharedBucket
import Cti.DomainGrammar
import Cti.Defanged
import Cti.DefangedAddress
import Cti.JsonRead
import Cti.PyBytes
import Cti.JsonRuns
import Cti.JsonParser
import Cti.CsvReader
import Cti.CsvParser
import Cti.TxtExtractor
import Cti.NormalizeLoop
import Cti.Partitioning
import Cti.SecretRefs
import Cti.FetchContract
import Cti.Passes
import Cti.DefangTwice
import Cti.Fanout
import Cti.PublishLoop
import Cti.PublishReports
import Cti.TlpAccounting
import Cti.AllowlistForms
import Cti.AllowlistUrls
import Cti.AllowlistHosts
import Cti.PartialRuns
import Cti.JsonLines
import Cti.Relay
import Cti.Termination
import Cti.Service
import Cti.ConfigRoundtrip
import Cti.Contention
import Cti.SerialTables
import Cti.Reingest
import Cti.Provenance
import Cti.Backpressure
