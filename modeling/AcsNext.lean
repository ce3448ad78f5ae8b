import AcsNext.Data.AssocMap
import AcsNext.Data.BitTrie
import AcsNext.Data.TrieHeap
import AcsNext.Data.Runs
import AcsNext.Data.Split
import AcsNext.Data.CString
import AcsNext.Data.StringView
import AcsNext.Data.Base64
import AcsNext.Data.Utf8
import AcsNext.Data.Epochs
import AcsNext.Data.FloatRounding
import AcsNext.Data.JsonScanner
import AcsNext.Data.ProtoWire
import AcsNext.Data.Pipeline
import AcsNext.Collector.ConnStatus
import AcsNext.Collector.ConnDelta
import AcsNext.Collector.StatusReporting
import AcsNext.Collector.Address
import AcsNext.Collector.IPNet
import AcsNext.Collector.NRadix
import AcsNext.Collector.NRadixFamily
import AcsNext.Collector.NRadixHeap
import AcsNext.Collector.NRadixObjects
import AcsNext.Collector.NRadixLookup
import AcsNext.Collector.PrivateNetworks
import AcsNext.Collector.IPNetParse
import AcsNext.Collector.NetworkConnection
import AcsNext.Collector.ConnTracker
import AcsNext.Collector.NRadixSubset
import AcsNext.Collector.ScrapeUpdate
import AcsNext.Collector.EventOrder
import AcsNext.Collector.FetchState
import AcsNext.Collector.Normalization
import AcsNext.Collector.ExternalIPs
import AcsNext.Collector.NetworkProto
import AcsNext.Collector.ControlMessages
import AcsNext.Collector.NetworkCodec
import AcsNext.Collector.StatusNotifier
import AcsNext.Collector.EndpointReports
import AcsNext.Collector.RemovalCounters
import AcsNext.Collector.ProcessSignal
import AcsNext.Collector.ProcessLineage
import AcsNext.Collector.SanitizedUTF8
import AcsNext.Collector.SignalUtf8
import AcsNext.Collector.RateLimit
import AcsNext.Collector.RateLimitRuns
import AcsNext.Collector.ProcessSignalHandler
import AcsNext.Collector.ProcessKey
import AcsNext.Collector.EventNames
import AcsNext.Collector.NetworkSignalHandler
import AcsNext.Collector.EventDispatch
import AcsNext.Collector.ProcessStore
import AcsNext.Collector.SignalStream
import AcsNext.Collector.SignalStreamStop
import AcsNext.Collector.ProcfsScraper
import AcsNext.Collector.ProcfsScan
import AcsNext.Collector.ProcessCmdline
import AcsNext.Collector.ContainerId
import AcsNext.Collector.ConnLine
import AcsNext.Collector.ConnTable
import AcsNext.Collector.DuplexClient
import AcsNext.Collector.DuplexDiscipline
import AcsNext.Collector.DuplexPolling
import AcsNext.Collector.DuplexFinish
import AcsNext.Collector.DuplexCallback
import AcsNext.Collector.Inotify
import AcsNext.Collector.InotifyBuffer
import AcsNext.Collector.ConfigLoader
import AcsNext.Collector.ConfigWatchTable
import AcsNext.Collector.ConfigSteps
import AcsNext.Collector.ConfigWatch
import AcsNext.Collector.ParserYaml
import AcsNext.Collector.YamlExact
import AcsNext.Collector.YamlUnknown
import AcsNext.Collector.EnvVar
import AcsNext.Collector.OsRelease
import AcsNext.Collector.Base64Decode
import AcsNext.Policy.Evaluator
import AcsNext.Policy.Semantics
import AcsNext.Policy.ImageTag
import AcsNext.Policy.Engine
import AcsNext.Policy.Coverage
import AcsNext.Policy.DefaultPolicies
import AcsNext.Policy.AdmissionController
import AcsNext.Policy.RuntimeAlerts
import AcsNext.Policy.EventConsumer
import AcsNext.Policy.StatusAccounting
import AcsNext.Policy.Conditions
import AcsNext.Collector.ProcessEventFormat
import AcsNext.Collector.NatsSignals
import AcsNext.Collector.RingBuffers
import AcsNext.Collector.OptionParser
import AcsNext.Collector.CollectorArgs
