import Apatchy.Foundations.Machine
import Apatchy.Foundations.Reader
import Apatchy.Foundations.Exploration
import Apatchy.Foundations.Text
import Apatchy.Foundations.Script
import Apatchy.Foundations.Choice
import Apatchy.Foundations.Search
import Apatchy.Foundations.Lines
import Apatchy.Foundations.Numerals
import Apatchy.Foundations.TextCodecs
import Apatchy.Foundations.Publication
import Apatchy.Foundations.Interruption
import Apatchy.Foundations.FileTree
import Apatchy.Foundations.Tables
import Apatchy.Foundations.Firsts
import Apatchy.Foundations.PathNames
import Apatchy.Foundations.PlainObjects
import Apatchy.Foundations.Replacement
import Apatchy.Foundations.Greedy
import Apatchy.Foundations.LinePatterns
import Apatchy.Harness.Brigade
import Apatchy.Harness.InputFilter
import Apatchy.Harness.Delivery
import Apatchy.Converters.Message
import Apatchy.Converters.Http2
import Apatchy.Converters.Http2Frames
import Apatchy.Converters.Hpack
import Apatchy.Converters.Ajp
import Apatchy.Converters.AjpPackets
import Apatchy.Converters.HttpMessage
import Apatchy.Converters.HttpRequest
import Apatchy.Converters.Multipart
import Apatchy.Converters.SessionCrypto
import Apatchy.Converters.SessionRequest
import Apatchy.Converters.Charset
import Apatchy.Introspector.CallGraph
import Apatchy.Introspector.CallGraphWalker
import Apatchy.Introspector.CallTree
import Apatchy.Introspector.Wuxi
import Apatchy.Core.Downloader
import Apatchy.Core.BugManager
import Apatchy.Core.DownloadTrees
import Apatchy.Core.Dependencies
import Apatchy.Core.ToolchainConfig
import Apatchy.Core.InterruptedDownloads
import Apatchy.Build.HarnessBuilder
import Apatchy.Build.CoverageHarness
import Apatchy.Build.BuildTree
import Apatchy.Build.TreeReadiness
import Apatchy.Build.BuildConfig
import Apatchy.Build.BuildMetadata
import Apatchy.Fuzzers.Grammar
import Apatchy.Fuzzers.StatsExporter
import Apatchy.Report.FunctionCoverage
import Apatchy.Report.LineCounts
import Apatchy.Report.EntryMerge
import Apatchy.Report.SiteCounts
import Apatchy.Report.IntrospectionReport
import Apatchy.Gui.TreeState
import Apatchy.Gui.TreeRows
import Apatchy.Gui.DeepLinks
import Apatchy.Build.PathRewriting
import Apatchy.Introspector.LinkSet
import Apatchy.Introspector.BitcodeCommands
import Apatchy.Report.CorpusReplay
import Apatchy.Build.BuildFlags
import Apatchy.Build.FlagPasses
import Apatchy.Build.OwnLines
import Apatchy.Build.PatchedFlags
import Apatchy.Foundations.Loops
import Apatchy.Harness.MultiRequest
import Apatchy.Harness.Backend
import Apatchy.Harness.FuzzBucket
import Apatchy.Converters.Rewrite
import Apatchy.Foundations.Curves
import Apatchy.Foundations.Descriptors
import Apatchy.Gui.EventCurve
import Apatchy.Foundations.Patterns
import Apatchy.Foundations.ConfigFiles
import Apatchy.Foundations.ConfigReading
import Apatchy.Foundations.ConfigRoundTrip
import Apatchy.Fuzzers.LibFuzzerUI
import Apatchy.Fuzzers.MutatorCounts
import Apatchy.Build.SanitizerFlags
import Apatchy.Foundations.Blocks
import Apatchy.Harness.ConfigLines
import Apatchy.Harness.StdinBuffer
import Apatchy.Foundations.Allocations
import Apatchy.Modules.Pwn
import Apatchy.Converters.Pwn
import Apatchy.Modules.PwnReach
import Apatchy.Foundations.Streams
import Apatchy.Harness.ProtoMulti
import Apatchy.Harness.BackendSessions
import Apatchy.Harness.BackendSockets
import Apatchy.Harness.UwsgiResponses
import Apatchy.Report.Triage
import Apatchy.Fuzzers.CorpusSessions
import Apatchy.Foundations.Agreement
import Apatchy.Build.HarnessTags
import Apatchy.Build.HarnessBuilds
