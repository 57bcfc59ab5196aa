import HyperMatch.Wire
import HyperMatch.CppCodec
import HyperMatch.RustCodec
import HyperMatch.WireFormat
import HyperMatch.Codecs
import HyperMatch.Links
import HyperMatch.OrderBook
import HyperMatch.BookLayout
import HyperMatch.LevelQueue
import HyperMatch.BookOps
import HyperMatch.BookInvariant
import HyperMatch.Probing
import HyperMatch.RetiredIdSet
import HyperMatch.BookWalk
import HyperMatch.Matching
import HyperMatch.KeySort
import HyperMatch.Reference
import HyperMatch.Market
import HyperMatch.Arrival
import HyperMatch.Ledger
import HyperMatch.RingBuffer
import HyperMatch.IntegrityGuard
import HyperMatch.EngineProcessor
import HyperMatch.Processing
import HyperMatch.Conservation
import HyperMatch.FrameBuffer
import HyperMatch.Framing
import HyperMatch.ServerPipeline
import HyperMatch.DataPath
import HyperMatch.Routing
import HyperMatch.Terminators
import HyperMatch.Retirement
import HyperMatch.AppState
import HyperMatch.GatewayServer
import HyperMatch.Runs
import HyperMatch.Streams
import HyperMatch.Outstanding
import HyperMatch.Correlation
import HyperMatch.LateReaders
import HyperMatch.Journaling
import HyperMatch.Orphans
import HyperMatch.Mirror
import HyperMatch.GatewayBook
import HyperMatch.Replays
import HyperMatch.Reconnection
import HyperMatch.Histories
import HyperMatch.Restart
import HyperMatch.Accounting
import HyperMatch.WirePath
import HyperMatch.BookRefinement
import HyperMatch.EngineFrames
import HyperMatch.Permutations
import HyperMatch.Identifiers
import HyperMatch.TcpServer
import HyperMatch.Connections
import HyperMatch.Snapshots
import HyperMatch.Outbound
import HyperMatch.Descriptors
import HyperMatch.Reservations
import HyperMatch.Suppression
import HyperMatch.Sessions
import HyperMatch.Guarding
import HyperMatch.Ranks
import HyperMatch.Stats
import HyperMatch.Publishing
import HyperMatch.Feed
import HyperMatch.Answers
import HyperMatch.Draining
import HyperMatch.EndToEnd
import HyperMatch.Delivery
import HyperMatch.Wiring
import HyperMatch.Depth
import HyperMatch.Brackets
import HyperMatch.JournalText
