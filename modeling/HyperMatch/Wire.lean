import Mathlib.Data.List.Basic

/-!
The messages of the wire protocol and their permitted ranges, as
`cpp/codec/include/hme/wire_protocol.hpp`, `binary_message.hpp` and the Rust
crate `codec` declare them. Both languages declare the same five variants with
the same fields, so the codecs of both speak about one message type; their byte
tables, lengths and range checks are modelled separately, each in its own codec.
-/
namespace HyperMatch.Wire

/-- The direction of an order. -/
inductive Side where
  | Buy
  | Sell
  deriving Repr, DecidableEq

def opposite : Side → Side
  | .Buy => .Sell
  | .Sell => .Buy

/-- The kind of acknowledgement carried by an `Ack`. -/
inductive AckKind where
  | Accepted
  | Cancelled
  deriving Repr, DecidableEq

/-- The reason carried by a `Reject`. -/
inductive RejectReason where
  | InvalidPrice
  | InvalidQuantity
  | OrderNotFound
  | NoLongerResting
  | IntegrityViolation
  deriving Repr, DecidableEq

/-- The discriminator of a message, in the order of the variants. -/
inductive MessageType where
  | NewOrder
  | CancelOrder
  | Trade
  | Ack
  | Reject
  deriving Repr, DecidableEq

structure NewOrder where
  orderId : UInt64
  side : Side
  priceTicks : UInt64
  quantity : UInt32
  seq : UInt64
  deriving Repr, DecidableEq

structure CancelOrder where
  orderId : UInt64
  deriving Repr, DecidableEq

structure Trade where
  execSeq : UInt64
  priceTicks : UInt64
  quantity : UInt32
  incomingId : UInt64
  restingId : UInt64
  deriving Repr, DecidableEq

structure Ack where
  orderId : UInt64
  kind : AckKind
  deriving Repr, DecidableEq

structure Reject where
  orderId : UInt64
  reason : RejectReason
  deriving Repr, DecidableEq

/-- One unit of the wire protocol. -/
inductive BinaryMessage where
  | newOrder (m : NewOrder)
  | cancelOrder (m : CancelOrder)
  | trade (m : Trade)
  | ack (m : Ack)
  | reject (m : Reject)
  deriving Repr, DecidableEq

namespace limits
def kMinPriceTicks : UInt64 := 1
def kMaxPriceTicks : UInt64 := 99999999999
def kMinGatewayQuantity : UInt32 := 1
def kMaxGatewayQuantity : UInt32 := 1000000000
def kMinEngineQuantity : UInt32 := 1
def kMaxEngineQuantity : UInt32 := 1000000
end limits

/-- The prices that the protocol permits. -/
def PriceOk (priceTicks : UInt64) : Prop :=
  limits.kMinPriceTicks ≤ priceTicks ∧ priceTicks ≤ limits.kMaxPriceTicks
/-- The quantities that the protocol permits. -/
def QuantityOk (quantity : UInt32) : Prop :=
  limits.kMinGatewayQuantity ≤ quantity ∧ quantity ≤ limits.kMaxGatewayQuantity

instance (p : UInt64) : Decidable (PriceOk p) := inferInstanceAs (Decidable (_ ∧ _))
instance (q : UInt32) : Decidable (QuantityOk q) := inferInstanceAs (Decidable (_ ∧ _))

/-- A message whose price and quantity, where it has them, are in range. -/
def InRange : BinaryMessage → Prop
  | .newOrder m => PriceOk m.priceTicks ∧ QuantityOk m.quantity
  | .trade m => PriceOk m.priceTicks ∧ QuantityOk m.quantity
  | .cancelOrder _ => True
  | .ack _ => True
  | .reject _ => True

instance : DecidablePred InRange
  | .newOrder m => inferInstanceAs (Decidable (PriceOk m.priceTicks ∧ QuantityOk m.quantity))
  | .trade m => inferInstanceAs (Decidable (PriceOk m.priceTicks ∧ QuantityOk m.quantity))
  | .cancelOrder _ => .isTrue trivial
  | .ack _ => .isTrue trivial
  | .reject _ => .isTrue trivial

/-- The variant of a message. -/
def messageType : BinaryMessage → MessageType
  | .newOrder _ => .NewOrder
  | .cancelOrder _ => .CancelOrder
  | .trade _ => .Trade
  | .ack _ => .Ack
  | .reject _ => .Reject

end HyperMatch.Wire
