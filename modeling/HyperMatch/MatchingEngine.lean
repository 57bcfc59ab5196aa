import HyperMatch.OrderBook
import HyperMatch.RetiredIdSet

/-!
The matching core of `cpp/engine/include/hme/matching_engine.hpp`. What a sink is
given is returned as a list, in the order of the calls. The matching loop makes at
most one step for each slot of the order pool and a last test; `none` says that
some loop ran out of its bound, which the invariant of the engine rules out.
-/
namespace HyperMatch
open HyperMatch.Wire HyperMatch.OrderBook

structure MatchingEngine (maxOrders maxPriceLevels : PoolCapacity) where
  book : OrderBook maxOrders maxPriceLevels
  nextExecSeq : UInt64
  retired : RetiredIdSet maxOrders.size

namespace MatchingEngine
variable {maxOrders maxPriceLevels : PoolCapacity}

def new : MatchingEngine maxOrders maxPriceLevels := ⟨OrderBook.new,1,RetiredIdSet.new⟩

/-- `std::min`. -/
def stdMin (a b : UInt32) : UInt32 := if b < a then b else a

/-- The best level of a side; a null pointer is `none`. -/
def bestLevel (book : OrderBook maxOrders maxPriceLevels) : Side → Option PriceLevel
  | .Buy => book.bestBid
  | .Sell => book.bestAsk

def priceCrosses (incomingSide : Side) (incomingPrice restingPrice : UInt64) : Bool :=
  match incomingSide with
  | .Buy => decide (restingPrice ≤ incomingPrice)
  | .Sell => decide (restingPrice ≥ incomingPrice)

/-- The trade of the incoming order with a resting one. -/
def tradeWith (incoming : NewOrder) (execSeq : UInt64) (tradeQty : UInt32) (resting : RestingOrder) : Trade :=
  { execSeq := execSeq, priceTicks := resting.priceTicks, quantity := tradeQty, incomingId := incoming.orderId,
    restingId := resting.orderId }

/-- The part of a loop step after the trade: the resting order's new quantity,
    and its removal at zero. -/
def settle (engine : MatchingEngine maxOrders maxPriceLevels) (node : NodeIndex) (left : UInt32) :
    Option (MatchingEngine maxOrders maxPriceLevels) := do
  let book := engine.book.setRemainingQty node left
  if left = 0 then
    let retired ← engine.retired.insert (book.orderAt node).orderId
    let book ← book.removeOrder node
    return { engine with book := book, retired := retired }
  else return { engine with book := book }

/-- The matching loop: the trades, what remains of the incoming order, and the
    engine. -/
def matchLoop (incoming : NewOrder) : Nat → MatchingEngine maxOrders maxPriceLevels → UInt32 →
    Option (List Trade × UInt32 × MatchingEngine maxOrders maxPriceLevels)
  | 0,_,_ => none
  | bound+1,engine,remaining =>
    if remaining > 0 then
      match bestLevel engine.book (opposite incoming.side) with
      | none => some ([],remaining,engine)
      | some best =>
        if !priceCrosses incoming.side incoming.priceTicks best.priceTicks then some ([],remaining,engine)
        else do
          let node := levelHead best
          let resting := engine.book.orderAt node
          let tradeQty := stdMin remaining resting.remainingQty
          let trade := tradeWith incoming engine.nextExecSeq tradeQty resting
          let engine ← settle { engine with nextExecSeq := engine.nextExecSeq + 1 } node (resting.remainingQty - tradeQty)
          let (trades,left,engine) ← matchLoop incoming bound engine (remaining - tradeQty)
          return (trade :: trades,left,engine)
    else some ([],remaining,engine)

/-- `process_new_order` with one sink. -/
def processNewOrder (engine : MatchingEngine maxOrders maxPriceLevels) (incoming : NewOrder) :
    Option (List Trade × MatchingEngine maxOrders maxPriceLevels) := do
  let (trades,remaining,engine) ← matchLoop incoming (maxOrders.size + 1) engine incoming.quantity
  if remaining > 0 then
    let (_,book) ← engine.book.insertOrder incoming.orderId incoming.side incoming.priceTicks incoming.seq remaining
    return (trades,{ engine with book := book })
  return (trades,engine)

/-- `validate_new_order`: the first violation, quantity before price. -/
def validateNewOrder (incoming : NewOrder) : Option RejectReason :=
  if incoming.quantity < limits.kMinEngineQuantity ∨ incoming.quantity > limits.kMaxEngineQuantity then
    some .InvalidQuantity
  else if incoming.priceTicks < limits.kMinPriceTicks ∨ incoming.priceTicks > limits.kMaxPriceTicks then
    some .InvalidPrice
  else none

/-- What a call returns and what it gives to its sinks. -/
structure Outcome where
  accepted : Bool
  trades : List Trade := []
  acks : List Ack := []
  rejects : List Reject := []
  deriving Repr, DecidableEq

/-- `process_new_order` with two sinks. -/
def processNewOrderChecked (engine : MatchingEngine maxOrders maxPriceLevels) (incoming : NewOrder) :
    Option (Outcome × MatchingEngine maxOrders maxPriceLevels) := do
  match validateNewOrder incoming with
  | some reason =>
    return ({ accepted := false, rejects := [{ orderId := incoming.orderId, reason := reason }] },engine)
  | none =>
    let (trades,engine) ← engine.processNewOrder incoming
    return ({ accepted := true, trades := trades },engine)

def processCancelOrder (engine : MatchingEngine maxOrders maxPriceLevels) (cancel : CancelOrder) :
    Option (Outcome × MatchingEngine maxOrders maxPriceLevels) := do
  let node ← engine.book.findOrder cancel.orderId
  if node = kNullNode then
    let reason := if ← engine.retired.contains cancel.orderId then RejectReason.NoLongerResting else .OrderNotFound
    return ({ accepted := false, rejects := [{ orderId := cancel.orderId, reason := reason }] },engine)
  let book ← engine.book.removeOrder node
  let retired ← engine.retired.insert cancel.orderId
  return ({ accepted := true, acks := [{ orderId := cancel.orderId, kind := .Cancelled }] },
    { engine with book := book, retired := retired })

def clearRetired (engine : MatchingEngine maxOrders maxPriceLevels) : MatchingEngine maxOrders maxPriceLevels :=
  { engine with retired := engine.retired.clear }

end MatchingEngine
end HyperMatch
