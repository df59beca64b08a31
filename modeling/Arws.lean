import Arws.Library.Transition
import Arws.Library.CString
import Arws.Library.Probing
import Arws.Library.KeyedLock
import Arws.Library.LowestFree
import Arws.Library.HttpMessage
import Arws.Library.FixedWindow
import Arws.Library.Buckets
import Arws.Library.Slots
import Arws.Cache.Table
import Arws.Cache.Completeness
import Arws.Cache.Striping
import Arws.Gateway.Registry
import Arws.Gateway.DispatchLock
import Arws.Gateway.Query
import Arws.Server.ReadLoop
import Arws.Server.Request
import Arws.Server.Descriptors
import Arws.Server.ErrorMessages
import Arws.Server.Forward
import Arws.Cache.Key
import Arws.Backend.Response
import Arws.Backend.Synchronisation
import Arws.Server.SecureWire
import Arws.Server.Worker
import Arws.Router.Route
import Arws.Router.Matching
import Arws.Router.Removal
import Arws.Ratelimit.Limiter
import Arws.Ratelimit.Interference
import Arws.Upstream.Pool
import Arws.Upstream.Health
import Arws.Upstream.Nodes
import Arws.Upstream.Selection
import Arws.Upstream.Accounting
import Arws.Gateway.Dispatcher
import Arws.Gateway.Feedback
import Arws.Gateway.Handler
import Arws.Gateway.Register
import Arws.Config.File
import Arws.Config.OverrideLine
import Arws.Config.Reload
import Arws.Config.Save
import Arws.Config.WrittenLines
import Arws.Config.ModesKept
import Arws.Config.RoutesKept
import Arws.Gateway.Wakeup
import Arws.Gateway.RoundRobin
import Arws.Gateway.Peek
import Arws.Gateway.Control
import Arws.Gateway.References
import Arws.Gateway.Reuse
import Arws.Library.WaitGraph
import Arws.Config.CacheTtl
import Arws.Gateway.HandlerLoop
import Arws.Gateway.QueryWait
import Arws.Proxy.StreamProxy
import Arws.Proxy.SizedRelay
import Arws.Server.ClientAddress
import Arws.Server.ForwardedFor
import Arws.Server.Framing
import Arws.Library.SmoothRoundRobin
import Arws.Upstream.WeightedRoundRobin
import Arws.Library.ExpiringMap
import Arws.Session.Store
import Arws.Ratelimit.Block
import Arws.Library.KeyedTable
import Arws.Config.OverrideTable
import Arws.Config.NoCacheLine
import Arws.Server.ConnectionSlots
import Arws.Library.FormatBuffer
import Arws.Gateway.AdminQuery
import Arws.Library.Words
import Arws.Gateway.FrameOptions
import Arws.Gateway.Patterns
import Arws.Gateway.RegisteredRoutes
import Arws.Config.OperatorEdits
import Arws.Router.ExactPath
import Arws.Ratelimit.PerAddress
import Arws.Ratelimit.RuleOrder
import Arws.Config.FailedWrites
import Arws.Library.AppendBuffer
import Arws.Server.RequestBuffer
import Arws.Server.WholeBody
import Arws.Server.HeaderLines
import Arws.Server.Target
import Arws.Server.RequestLine
import Arws.Server.QueryPairs
import Arws.Server.TrustedProxies
import Arws.Library.RingBuffer
import Arws.Server.JobQueue
import Arws.Cache.Soundness
import Arws.Cache.Sweep
import Arws.Cache.FailedStore
import Arws.Library.CyclicScan
import Arws.Upstream.RoundRobinOrder
import Arws.Upstream.IpHashChange
import Arws.Proxy.NodeTarget
import Arws.Gateway.StoredRoutes
import Arws.Library.EvenSpread
import Arws.Gateway.RouteSpread
import Arws.Config.HostMatching
import Arws.Library.GreedyFill
import Arws.Library.JsonText
import Arws.Library.HeaderBlock
import Arws.Library.NestedEscapes
import Arws.Proxy.Upgrade
import Arws.Server.Redirector
import Arws.Server.HeaderBlocks
import Arws.Server.NestedTargets
import Arws.Session.Tokens
import Arws.Session.SharedPointer
import Arws.Config.MissingFile
import Arws.Config.FileLines
import Arws.Config.LineOrder
import Arws.Config.LongLines
import Arws.Gateway.NamedClients
import Arws.Gateway.RegistryRuns
import Arws.Library.ByteStream
import Arws.Ipc.Frame
import Arws.Upstream.EffectiveWeights
import Arws.Gateway.RouteDump
import Arws.Proxy.HeaderSearch
import Arws.Proxy.HeaderParser
import Arws.Server.InPlaceDecode
import Arws.Proxy.TargetUrls
import Arws.Library.LinkedList
import Arws.Gateway.BulkRemoval
import Arws.Gateway.BoundedAppend
import Arws.Library.Checked
import Arws.Json.Parser
import Arws.Library.Ledger
import Arws.Json.ParserSafety
import Arws.Json.Printer
import Arws.Json.PrintedText
import Arws.Json.Strings
import Arws.Json.Characters
import Arws.Json.Grammar
import Arws.Json.RoundTrip
import Arws.Proxy.Forwarding
import Arws.Proxy.ForwardedResponse
import Arws.Gateway.CachedAnswers
import Arws.Library.Paths
import Arws.Bemf.Api
import Arws.Bemf.Containment
import Arws.Library.LockOrder
import Arws.Gateway.Mutexes
import Arws.Json.ReadStrings
import Arws.Json.Soundness
import Arws.Config.MaintenanceIps
import Arws.Server.JsonBodies
