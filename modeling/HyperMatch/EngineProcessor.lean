import HyperMatch.MatchingEngine
import HyperMatch.RingBuffer

/-!
The processing loop of `cpp/engine/include/hme/engine_processor.hpp`: a command
ring, the matching core, and an event ring. An event that finds the event ring
full is counted and lost.
-/
namespace HyperMatch
open HyperMatch.Wire HyperMatch.OrderBook HyperMatch.MatchingEngine

/-- The template arguments of `EngineProcessor`. -/
structure Capacities where
  orders : PoolCapacity
  levels : PoolCapacity
  ingress : RingCapacity
  egress : RingCapacity

inductive StartupError where
  | None
  | InsufficientMemory
  deriving Repr, DecidableEq

structure EngineConfig (capacities : Capacities) where
  maxOrders : Nat := capacities.orders.size
  maxPriceLevels : Nat := capacities.levels.size
  ingressCapacity : Nat := capacities.ingress.size
  egressCapacity : Nat := capacities.egress.size
  forceReservationFailure : Bool := false

structure EngineProcessor (capacities : Capacities) where
  engine : MatchingEngine capacities.orders capacities.levels
  ingress : RingBuffer BinaryMessage capacities.ingress
  egress : RingBuffer BinaryMessage capacities.egress
  processedCount : UInt64
  errorEventCount : UInt64
  egressOverflowCount : UInt64
  operational : Bool
  startupError : StartupError

namespace EngineProcessor
variable {capacities : Capacities}

/-- A default-constructed message, as it fills the slots of a ring. -/
def defaultMessage : BinaryMessage := .newOrder ⟨0,.Buy,0,0,0⟩

def new : EngineProcessor capacities :=
  { engine := MatchingEngine.new
    ingress := RingBuffer.new defaultMessage
    egress := RingBuffer.new defaultMessage
    processedCount := 0
    errorEventCount := 0
    egressOverflowCount := 0
    operational := true
    startupError := .None }

/-- The book and the retired identifiers are cleared; the rings, the counts and
    the next execution number stay. -/
def initializeWith (p : EngineProcessor capacities) (config : EngineConfig capacities) : Bool × EngineProcessor capacities :=
  if config.forceReservationFailure ∨ config.maxOrders > capacities.orders.size ∨
      config.maxPriceLevels > capacities.levels.size ∨ config.ingressCapacity > capacities.ingress.size ∨
      config.egressCapacity > capacities.egress.size then
    (false,{ p with operational := false, startupError := .InsufficientMemory })
  else
    (true,{ p with
            engine := clearRetired { p.engine with book := p.engine.book.clear }
            operational := true
            startupError := .None })

def submit (p : EngineProcessor capacities) (msg : BinaryMessage) : Bool × EngineProcessor capacities :=
  let (done,ingress) := p.ingress.tryPush msg
  (done,{ p with ingress := ingress })

def emit (p : EngineProcessor capacities) (event : BinaryMessage) : EngineProcessor capacities :=
  match p.egress.tryPush event with
  | (true,egress) => { p with egress := egress }
  | (false,egress) => { p with egress := egress, egressOverflowCount := p.egressOverflowCount + 1 }

def kInvalidMessageReason : RejectReason := .IntegrityViolation

def invalidMessageOrderId : BinaryMessage → UInt64
  | .trade t => t.incomingId
  | .ack a => a.orderId
  | .reject r => r.orderId
  | _ => 0

def emitInvalidMessageError (p : EngineProcessor capacities) (msg : BinaryMessage) : EngineProcessor capacities :=
  let p := p.emit (.reject ⟨invalidMessageOrderId msg,kInvalidMessageReason⟩)
  { p with errorEventCount := p.errorEventCount + 1 }

/-- The sinks of `dispatch` touch nothing that the matching core reads, so what
    they are given is emitted after it has run. -/
def dispatch (p : EngineProcessor capacities) : BinaryMessage → Option (EngineProcessor capacities)
  | .newOrder order => do
    let (outcome,engine) ← p.engine.processNewOrderChecked order
    let p := { p with engine := engine }
    let p := outcome.trades.foldl (fun p t => p.emit (.trade t)) p
    let p := outcome.rejects.foldl
      (fun p r => { p.emit (.reject r) with errorEventCount := (p.emit (.reject r)).errorEventCount + 1 }) p
    if outcome.accepted then return p.emit (.ack ⟨order.orderId,.Accepted⟩)
    return p
  | .cancelOrder cancel => do
    let (outcome,engine) ← p.engine.processCancelOrder cancel
    let p := { p with engine := engine }
    let p := outcome.acks.foldl (fun p a => p.emit (.ack a)) p
    return outcome.rejects.foldl (fun p r => p.emit (.reject r)) p
  | msg => some (p.emitInvalidMessageError msg)

def processNext (p : EngineProcessor capacities) : Option (Bool × EngineProcessor capacities) :=
  if !p.operational then some (false,p)
  else
    match p.ingress.tryPop with
    | (none,_) => some (false,p)
    | (some msg,ingress) => do
      let p ← dispatch { p with ingress := ingress, processedCount := p.processedCount + 1 } msg
      return (true,p)

/-- `process_all`: at most one message for each slot of the ring, and a last
    call. -/
def processAllFrom : Nat → EngineProcessor capacities → Option (Nat × EngineProcessor capacities)
  | 0,_ => none
  | bound+1,p => do
    let (more,p) ← p.processNext
    if more then
      let (count,p) ← processAllFrom bound p
      return (count + 1,p)
    return (0,p)
def processAll (p : EngineProcessor capacities) : Option (Nat × EngineProcessor capacities) :=
  processAllFrom (capacities.ingress.size + 1) p

def nextEvent (p : EngineProcessor capacities) : Option BinaryMessage × EngineProcessor capacities :=
  let (event,egress) := p.egress.tryPop
  (event,{ p with egress := egress })

end EngineProcessor
end HyperMatch
