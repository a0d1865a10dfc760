import PerftestLite.Lib.Machine
import PerftestLite.Lib.Word
import PerftestLite.Lib.Channel
import PerftestLite.Lib.Missing
import PerftestLite.Lib.Count
import PerftestLite.Lib.Steps
import PerftestLite.Lib.OrderStat
import PerftestLite.Lib.Assign
import PerftestLite.Lib.Attempt
import PerftestLite.Lib.Ledger
import PerftestLite.Lib.Scale
import PerftestLite.Lib.Checked
import PerftestLite.Lib.ByteOrder
import PerftestLite.Lib.Observer
import PerftestLite.Lib.Rate
import PerftestLite.Lib.Lockstep
import PerftestLite.Lib.Delimited
import PerftestLite.Lib.Printf
import PerftestLite.Lib.Progress
import PerftestLite.Lib.Simulation
import PerftestLite.Lib.Relay
import PerftestLite.Core.Types
import PerftestLite.Core.Args
import PerftestLite.Core.Subscriber
import PerftestLite.Core.SubscriberRun
import PerftestLite.Core.Publisher
import PerftestLite.Core.PublisherRun
import PerftestLite.Core.Throughput
import PerftestLite.Core.System
import PerftestLite.Core.Flight
import PerftestLite.CommandLine.Grammar
import PerftestLite.Loss.Gap
import PerftestLite.Loss.Exact
import PerftestLite.Loss.Conservation
import PerftestLite.Loss.Lossless
import PerftestLite.Loss.Overflow
import PerftestLite.Loss.Reorder
import PerftestLite.Capture.Forgotten
import PerftestLite.Capture.Elapsed
import PerftestLite.Latency.Token
import PerftestLite.Latency.Strict
import PerftestLite.Latency.Alternate
import PerftestLite.Latency.Provenance
import PerftestLite.Result.Sizes
import PerftestLite.Result.Percentile
import PerftestLite.Result.Filling
import PerftestLite.Result.Statistics
import PerftestLite.Result.Streams
import PerftestLite.Handshake.Final
import PerftestLite.Lifecycle.Reader
import PerftestLite.Lifecycle.Setup
import PerftestLite.Lifecycle.Match
import PerftestLite.Lifecycle.Init
import PerftestLite.Lifecycle.Release
import PerftestLite.Lifecycle.Main
import PerftestLite.Lifecycle.Return
import PerftestLite.Result.Storage
import PerftestLite.Result.LogFile
import PerftestLite.Result.Periodic
import PerftestLite.Result.PubLines
import PerftestLite.Render.Dispatch
import PerftestLite.Render.Csv
import PerftestLite.Render.Table
import PerftestLite.CommandLine.Cli
import PerftestLite.CommandLine.Tokens
import PerftestLite.EndToEnd.Arrival
import PerftestLite.EndToEnd.Agreement
import PerftestLite.EndToEnd.Progress
import PerftestLite.EndToEnd.Ending
import PerftestLite.EndToEnd.Account
import PerftestLite.Pacing.Pubrate
import PerftestLite.TypeLayer.Bounds
import PerftestLite.Middleware.Interface
import PerftestLite.Middleware.Loan
import PerftestLite.Middleware.Take
import PerftestLite.Middleware.Endpoints
import PerftestLite.EndToEnd.Readers
import PerftestLite.EndToEnd.Processes
import PerftestLite.EndToEnd.Programs
import PerftestLite.EndToEnd.Matching
import PerftestLite.Clock.Qnx
import PerftestLite.Clock.Os
