import HyperMatch.EngineProcessor
import HyperMatch.FrameBuffer

/-!
The connection registry of `cpp/network/include/hme/connection_registry.hpp` and the
data path of `cpp/server/include/hme/server_pipeline.hpp`: the bytes of one socket
read go through the framing buffer of their connection, the command ring, the
engine and the event ring, and come back as encoded frames for the same socket.
What a sink is given is returned as a list; what the poller is told is kept as a
list of calls.
-/
namespace HyperMatch
open HyperMatch.Wire HyperMatch.OrderBook HyperMatch.CppCodec

abbrev SocketHandle := Int

inductive AcceptResult where
  | Registered
  | RejectedAtCapacity
  deriving Repr, DecidableEq

inductive TeardownReason where
  | OversizeFrame
  | PeerClosed
  | SocketError
  deriving Repr, DecidableEq

/-- A call of the readiness poller. -/
inductive PollerCall where
  | registerReadiness (fd : SocketHandle)
  | deregisterReadiness (fd : SocketHandle)
  | closeSocket (fd : SocketHandle)
  deriving Repr, DecidableEq

def kMaxConnections : UInt32 := 10000

/-! ### Connections -/

/-- The map from sockets to their framing buffers is the list of its entries. -/
structure ConnectionRegistry where
  maxConnections : UInt32
  connections : List (SocketHandle × FrameBuffer)
  poller : List PollerCall

namespace ConnectionRegistry

def new (maxConnections : UInt32) : ConnectionRegistry := ⟨maxConnections,[],[]⟩

def find (registry : ConnectionRegistry) (fd : SocketHandle) : Option FrameBuffer :=
  (registry.connections.find? (fun c => decide (c.1 = fd))).map Prod.snd

def isRegistered (registry : ConnectionRegistry) (fd : SocketHandle) : Bool := (registry.find fd).isSome
def activeCount (registry : ConnectionRegistry) : UInt32 := UInt32.ofNat registry.connections.length
def buffered (registry : ConnectionRegistry) (fd : SocketHandle) : Nat :=
  match registry.find fd with
  | none => 0
  | some framer => framer.buffered

/-- `try_emplace` keeps an entry that is there. -/
def accept (registry : ConnectionRegistry) (fd : SocketHandle) : AcceptResult × ConnectionRegistry :=
  if registry.connections.length ≥ registry.maxConnections.toNat then
    (.RejectedAtCapacity,{ registry with poller := registry.poller ++ [.closeSocket fd] })
  else
    (.Registered,{ registry with
                   connections :=
                    if registry.isRegistered fd then registry.connections
                    else registry.connections ++ [(fd,FrameBuffer.new)]
                   poller := registry.poller ++ [.registerReadiness fd] })

def teardown (registry : ConnectionRegistry) (fd : SocketHandle) (_reason : TeardownReason) : ConnectionRegistry :=
  if registry.isRegistered fd then
    { registry with
      connections := registry.connections.filter (fun c => decide (c.1 ≠ fd))
      poller := registry.poller ++ [.deregisterReadiness fd,.closeSocket fd] }
  else registry

/-- The framing buffer of a connection after `consume` has changed it. -/
def withFramer (registry : ConnectionRegistry) (fd : SocketHandle) (framer : FrameBuffer) : ConnectionRegistry :=
  { registry with connections := registry.connections.map (fun c => if c.1 = fd then (fd,framer) else c) }

/-- Whether the connection remains open, and the messages delivered. -/
def onReadable (registry : ConnectionRegistry) (fd : SocketHandle) (bytes : List UInt8) :
    Option (Bool × List BinaryMessage × ConnectionRegistry) :=
  match registry.find fd with
  | none => some (false,[],registry)
  | some framer => do
    let (status,msgs,framer) ← framer.consume bytes
    let registry := registry.withFramer fd framer
    if status = .Closed then return (false,msgs,registry.teardown fd .OversizeFrame)
    return (true,msgs,registry)

end ConnectionRegistry

/-! ### The pipeline -/

def kDefaultMaxOrders : PoolCapacity := ⟨65536,by decide,by decide⟩
def kDefaultMaxPriceLevels : PoolCapacity := ⟨16384,by decide,by decide⟩
def kDefaultRingCapacity : RingCapacity := ⟨4096,by decide⟩

/-- The default template arguments of `ServerPipeline`. -/
def defaultCapacities : Capacities :=
  ⟨kDefaultMaxOrders,kDefaultMaxPriceLevels,kDefaultRingCapacity,kDefaultRingCapacity⟩

structure ServerPipeline (capacities : Capacities) where
  processor : EngineProcessor capacities
  registry : ConnectionRegistry
  ingressBackpressureCount : UInt64
  responsesEmitted : UInt64

namespace ServerPipeline
variable {capacities : Capacities}

def new (maxConnections : UInt32) : ServerPipeline capacities :=
  ⟨EngineProcessor.new,ConnectionRegistry.new maxConnections,0,0⟩

def initializeWith (s : ServerPipeline capacities) (config : EngineConfig capacities) : Bool × ServerPipeline capacities :=
  let (done,processor) := s.processor.initializeWith config
  (done,{ s with processor := processor })

def accept (s : ServerPipeline capacities) (fd : SocketHandle) : AcceptResult × ServerPipeline capacities :=
  let (result,registry) := s.registry.accept fd
  (result,{ s with registry := registry })

def teardown (s : ServerPipeline capacities) (fd : SocketHandle) (reason : TeardownReason) : ServerPipeline capacities :=
  { s with registry := s.registry.teardown fd reason }

/-- The callback that `submit_client_bytes` gives to the registry. -/
def deliver (s : ServerPipeline capacities) (msg : BinaryMessage) : ServerPipeline capacities :=
  match s.processor.submit msg with
  | (true,processor) => { s with processor := processor }
  | (false,processor) =>
    { s with processor := processor, ingressBackpressureCount := s.ingressBackpressureCount + 1 }

/-- The loop of `drain_events`: at most one event for each slot of the ring, and a
    last test. -/
def drainEventsFrom (fd : SocketHandle) :
    Nat → ServerPipeline capacities → Option (List (SocketHandle × List UInt8) × ServerPipeline capacities)
  | 0,_ => none
  | bound+1,s =>
    match s.processor.nextEvent with
    | (none,processor) => some ([],{ s with processor := processor })
    | (some event,processor) =>
      match encode event (List.replicate kMaxMessageLen 0) with
      | (.ok written,frame) => do
        let (outs,s) ← drainEventsFrom fd bound
          { s with processor := processor, responsesEmitted := s.responsesEmitted + 1 }
        return ((fd,frame.take written) :: outs,s)
      | (.error _,_) => drainEventsFrom fd bound { s with processor := processor }
def drainEvents (s : ServerPipeline capacities) (fd : SocketHandle) :
    Option (List (SocketHandle × List UInt8) × ServerPipeline capacities) :=
  drainEventsFrom fd (capacities.egress.size + 1) s

/-- The framing status, what `out` is given, and the pipeline. -/
def submitClientBytes (s : ServerPipeline capacities) (fd : SocketHandle) (bytes : List UInt8) :
    Option (FrameStatus × List (SocketHandle × List UInt8) × ServerPipeline capacities) := do
  if !s.processor.operational then return (.Closed,[],s)
  let (isOpen,msgs,registry) ← s.registry.onReadable fd bytes
  let s := msgs.foldl deliver { s with registry := registry }
  let (_,processor) ← s.processor.processAll
  let (outs,s) ← drainEvents { s with processor := processor } fd
  return (if isOpen then .Ok else .Closed,outs,s)

end ServerPipeline
end HyperMatch
