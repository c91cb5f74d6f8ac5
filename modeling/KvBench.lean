import KvBench.Clock
import KvBench.Hist.Defs
import KvBench.Hist.Index
import KvBench.Hist.Record
import KvBench.Hist.Percentile
import KvBench.Hist.Merge
import KvBench.Hist.Report
import KvBench.Hist.Window
import KvBench.Conc.Logic
import KvBench.Events.Pool
import KvBench.Events.Trace
import KvBench.Events.Refine
import KvBench.Bench.Args
import KvBench.Bench.Chips
import KvBench.Lanes.Pool
import KvBench.Bench.System
import KvBench.Bench.Pipeline
import KvBench.Bench.Core
import KvBench.Bench.Calls
import KvBench.Bench.Track
import KvBench.Bench.Requests
import KvBench.Bench.Books
import KvBench.Bench.MainLoop
import KvBench.Bench.Drains
import KvBench.Bench.Sync
import KvBench.Bench.Threads
import KvBench.Bench.Clients
import KvBench.Bench.Window
import KvBench.Bench.Returns
import KvBench.Words.Expr
import KvBench.Bench.Layout
import KvBench.Bench.Remote
import KvBench.Lanes.Queue
import KvBench.Handshake.Exchange
import KvBench.Handshake.Pairing
import KvBench.Conc.Local
import KvBench.Dual.Bounds
import KvBench.Manager.Routing
import KvBench.Hist.Combine
import KvBench.Hist.Resolution
import KvBench.Events.Wrap
import KvBench.Bench.Quota
import KvBench.Bench.CpuList
import KvBench.Bench.Frames
import KvBench.Bench.Offsets
import KvBench.Bench.SendChips
import KvBench.Bench.Rate
import KvBench.Bench.Sheet
import KvBench.Bench.Undo
import KvBench.Bench.Transfer
import KvBench.Bench.Rollback
import KvBench.Bench.Generator
import KvBench.Hist.Init
import KvBench.Bench.CpuSelect
import KvBench.Bench.Sizes
import KvBench.Conc.Contract
import KvBench.Own.Fallible
import KvBench.Own.Kinds
import KvBench.Server.Safety
import KvBench.Server.Threads
import KvBench.Urma.Lifecycle
import KvBench.Urma.Runs
import KvBench.Urma.Teardown
import KvBench.Cli.Getopt
import KvBench.Cli.Language
import KvBench.Cli.RoundTrip
import KvBench.Manager.Poller
import KvBench.Numa.Cache
import KvBench.Floats.Round
import KvBench.Hist.Mean
import KvBench.Numa.Mbind
import KvBench.Dual.Lanes
import KvBench.Dual.Books
