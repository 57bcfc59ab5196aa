import Mathlib.Data.Finmap
import HyperMatch.ServerPipeline

/-!
The event loop of `cpp/network/include/hme/tcp_server.hpp` on POSIX and the poller of
`cpp/network/src/tcp_server.cpp`. The loop moves bytes between its sockets and the
pipeline; what `select`, `accept`, `recv` and `send` answer is an argument of each pass.
-/
namespace HyperMatch

/-! ### The poller -/

structure SelectReadinessPoller where
  monitored : Finset SocketHandle
  closedCount : UInt64

namespace SelectReadinessPoller

def new : SelectReadinessPoller := ⟨∅,0⟩

def registerReadiness (poller : SelectReadinessPoller) (fd : SocketHandle) : SelectReadinessPoller :=
  { poller with monitored := insert fd poller.monitored }
def deregisterReadiness (poller : SelectReadinessPoller) (fd : SocketHandle) : SelectReadinessPoller :=
  { poller with monitored := poller.monitored.erase fd }
def closeSocket (poller : SelectReadinessPoller) (_fd : SocketHandle) : SelectReadinessPoller :=
  { poller with closedCount := poller.closedCount + 1 }

def call (poller : SelectReadinessPoller) : PollerCall → SelectReadinessPoller
  | .registerReadiness fd => poller.registerReadiness fd
  | .deregisterReadiness fd => poller.deregisterReadiness fd
  | .closeSocket fd => poller.closeSocket fd

/-- The poller that the registry has told these things. -/
def told (calls : List PollerCall) : SelectReadinessPoller := calls.foldl call new

end SelectReadinessPoller

/-! ### What the operating system answers -/

/-- A descriptor that `accept` returned, and whether `set_nonblocking` succeeded on it. -/
structure Accepted where
  fd : SocketHandle
  nonblocking : Bool
  deriving Repr, DecidableEq

/-- No byte received is the end of the peer's stream. -/
inductive Received where
  | bytes (data : List UInt8)
  | wouldBlock
  | failed
  deriving Repr, DecidableEq

/-- `took n` takes at most `n` bytes of what `send` is offered. -/
inductive Sent where
  | took (n : Nat)
  | wouldBlock
  | failed
  deriving Repr, DecidableEq

/-- What one `select` and the calls after it answer. A connection can be flushed once
    while it is read and once while it is written, and each has its own answers, one for
    each call of `send`. The two orders are those in which the unordered containers are
    walked; `accepts` is empty when the listening socket is not ready. -/
structure Readiness where
  accepts : List Accepted
  readable : SocketHandle → Bool
  readOrder : List SocketHandle
  received : SocketHandle → Received
  flushed : SocketHandle → Nat → Sent
  writable : SocketHandle → Bool
  writeOrder : List SocketHandle
  sent : SocketHandle → Nat → Sent

/-! ### The server -/

/-- What the loop did to a connection. -/
inductive Happening where
  | offered (fd : SocketHandle) (result : AcceptResult)
  | discarded (fd : SocketHandle)
  | handed (fd : SocketHandle) (frame : List UInt8)
  | sent (fd : SocketHandle) (bytes : List UInt8)
  | dropped (fd : SocketHandle)
  deriving Repr, DecidableEq

/-- `log` is no field of the source: it remembers what the loop did, and nothing reads it. -/
structure TcpServer (capacities : Capacities) where
  listenFd : SocketHandle
  pipeline : ServerPipeline capacities
  outbound : Finmap (fun _ : SocketHandle => List UInt8)
  accepted : UInt64
  rejected : UInt64
  closed : UInt64
  log : List Happening

namespace TcpServer
variable {capacities : Capacities}

def kReadBufferSize : Nat := 64 * 1024

def new (listenFd : SocketHandle) (pipeline : ServerPipeline capacities) : TcpServer capacities :=
  ⟨listenFd,pipeline,∅,0,0,0,[]⟩

/-- The poller that the pipeline was built over. -/
def poller (server : TcpServer capacities) : SelectReadinessPoller :=
  SelectReadinessPoller.told server.pipeline.registry.poller

/-- Whether the connection has an outbound queue with bytes in it. -/
def queued (server : TcpServer capacities) (fd : SocketHandle) : Bool :=
  match server.outbound.lookup fd with
  | none => false
  | some queue => !queue.isEmpty

/-- One turn of the loop of `drain_accept`; `try_emplace` keeps a queue that is there. -/
def acceptOne (server : TcpServer capacities) (client : Accepted) : TcpServer capacities :=
  if client.nonblocking then
    match server.pipeline.accept client.fd with
    | (.Registered,pipeline) =>
      { server with
        pipeline := pipeline
        accepted := server.accepted + 1
        outbound := server.outbound.insert client.fd ((server.outbound.lookup client.fd).getD [])
        log := server.log ++ [.offered client.fd .Registered] }
    | (.RejectedAtCapacity,pipeline) =>
      { server with
        pipeline := pipeline
        rejected := server.rejected + 1
        log := server.log ++ [.offered client.fd .RejectedAtCapacity] }
  else { server with log := server.log ++ [.discarded client.fd] }
def drainAccept (server : TcpServer capacities) (accepts : List Accepted) : TcpServer capacities :=
  accepts.foldl acceptOne server

/-- The sink that `handle_readable` gives to the pipeline. -/
def queueFrame (server : TcpServer capacities) (out : SocketHandle × List UInt8) : TcpServer capacities :=
  { server with
    outbound := server.outbound.insert out.1 ((server.outbound.lookup out.1).getD [] ++ out.2)
    log := server.log ++ [.handed out.1 out.2] }

def dropConnection (server : TcpServer capacities) (fd : SocketHandle) : TcpServer capacities :=
  { server with
    outbound := server.outbound.erase fd
    closed := server.closed + 1
    log := server.log ++ [.dropped fd] }

def teardown (server : TcpServer capacities) (fd : SocketHandle) (reason : TeardownReason) : TcpServer capacities :=
  { server with pipeline := server.pipeline.teardown fd reason }

/-- The count that `send` is given: the cast to `int` keeps the low 32 bits, and a
    negative count is a `size_t` beyond all that is left. -/
def offeredCount (left : Nat) : Nat := if left % 2^32 < 2^31 then left % 2^32 else left

/-- The loop of `handle_writable` over a queue of `size` bytes: the bytes sent, and
    whether no `send` failed. -/
def sendFrom (sent : Nat → Sent) (size : Nat) : Nat → Nat → Nat → Option (Nat × Bool)
  | 0,_,_ => none
  | bound+1,calls,sentTotal =>
    if sentTotal < size then
      match sent calls with
      | .took n =>
        let n := min n (offeredCount (size - sentTotal))
        if n > 0 then sendFrom sent size bound (calls + 1) (sentTotal + n)
        else some (sentTotal,false)
      | .wouldBlock => some (sentTotal,true)
      | .failed => some (sentTotal,false)
    else some (sentTotal,true)

/-- Every turn of the loop but the last takes a byte, so the size of the queue bounds it. -/
def handleWritable (server : TcpServer capacities) (fd : SocketHandle) (sent : Nat → Sent) :
    Option (TcpServer capacities) :=
  match server.outbound.lookup fd with
  | none => some server
  | some queue =>
    if queue.isEmpty then some server else do
      let (sentTotal,whole) ← sendFrom sent queue.length (queue.length + 1) 0 0
      let server : TcpServer capacities := { server with log := server.log ++ [.sent fd (queue.take sentTotal)] }
      if whole then return { server with outbound := server.outbound.insert fd (queue.drop sentTotal) }
      return (server.teardown fd .SocketError).dropConnection fd

def handleReadable (server : TcpServer capacities) (fd : SocketHandle) (received : Received) (flushed : Nat → Sent) :
    Option (TcpServer capacities) :=
  match received with
  | .wouldBlock => some server
  | .failed => some ((server.teardown fd .SocketError).dropConnection fd)
  | .bytes data =>
    if data.isEmpty then some ((server.teardown fd .PeerClosed).dropConnection fd) else do
      let (status,outs,pipeline) ← server.pipeline.submitClientBytes fd (data.take kReadBufferSize)
      let server := outs.foldl queueFrame { server with pipeline := pipeline }
      if status = .Closed then return server.dropConnection fd
      if server.queued fd then server.handleWritable fd flushed else return server

/-! ### One pass of the loop -/

/-- `select` leaves a descriptor in the read set only where the loop had put it. -/
def readSet (server : TcpServer capacities) (ready : Readiness) (fd : SocketHandle) : Bool :=
  decide (fd ∈ server.poller.monitored) && ready.readable fd
def writeSet (server : TcpServer capacities) (ready : Readiness) (fd : SocketHandle) : Bool :=
  server.queued fd && ready.writable fd

/-- The pass up to the snapshot of the writable connections. -/
def runReads (server : TcpServer capacities) (ready : Readiness) : Option (TcpServer capacities) :=
  (ready.readOrder.filter (server.readSet ready)).foldlM
    (fun s fd => s.handleReadable fd (ready.received fd) (ready.flushed fd)) (server.drainAccept ready.accepts)

/-- One pass of the loop of `run`; without an answer `select` failed or timed out. -/
def runOnce (server : TcpServer capacities) : Option Readiness → Option (TcpServer capacities)
  | none => some server
  | some ready => do
    let read ← server.runReads ready
    (ready.writeOrder.filter (fun fd => read.queued fd && server.writeSet ready fd)).foldlM
      (fun s fd => s.handleWritable fd (ready.sent fd)) read

end TcpServer
end HyperMatch
