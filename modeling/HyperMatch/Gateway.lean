import HyperMatch.Wire
import Mathlib.Data.Finset.Insert
import Mathlib.Data.Finset.Card

/-!
The request half of the crate `gateway` (`gateway/src/lib.rs`): the checks of the
fields of an order, its identifier and its stamp. What `serde_json` makes of a body
is given; so is the conversion of a price to ticks in floating point. The loop that
looks for a free identifier makes at most one round for each identifier in use and a
last one; `none` says that this was not enough.
-/
namespace HyperMatch
open HyperMatch.Wire

/-- A JSON value, by what the checks ask of it: `as_str`, `as_u64`, and the ticks of
    a finite number between `MIN_PRICE` and `MAX_PRICE`. -/
inductive JsonValue where
  | null
  | string (text : String)
  | number (asU64 : Option UInt64) (ticks : Option UInt64)
  | other
  deriving Repr, DecidableEq

/-- What `serde_json::from_slice` makes of a body; of an object, the fields that are
    looked up. -/
inductive JsonBody where
  | malformed (message : String)
  | notObject
  | object (side price quantity orderId : Option JsonValue)
  deriving Repr, DecidableEq

inductive GatewayError where
  | InvalidJson (message : String)
  | MissingField (field : String)
  | InvalidField (field : String)
  | DuplicateOrderId (orderId : UInt64)
  | EngineUnavailable
  deriving Repr, DecidableEq

structure ValidatedOrder where
  orderId : UInt64
  side : Side
  priceTicks : UInt64
  quantity : UInt32
  deriving Repr, DecidableEq

structure Gateway where
  inUse : Finset UInt64
  nextAutoId : UInt64
  nextSeq : UInt64

namespace Gateway

def new : Gateway := ⟨∅,1,0⟩

def isInUse (gateway : Gateway) (orderId : UInt64) : Bool := decide (orderId ∈ gateway.inUse)

def reserve (gateway : Gateway) (orderId : UInt64) : Bool × Gateway :=
  if orderId ∈ gateway.inUse then (false,gateway)
  else
    let gateway := { gateway with inUse := insert orderId gateway.inUse }
    if orderId ≥ gateway.nextAutoId then (true,{ gateway with nextAutoId := orderId + 1 }) else (true,gateway)

/-! ### Fields -/

/-- `None | Some(Value::Null)`. -/
def present : Option JsonValue → Option JsonValue
  | some .null => none
  | field => field

def parseSide (field : Option JsonValue) : Except GatewayError Side :=
  match present field with
  | none => .error (.MissingField "side")
  | some (.string "buy") => .ok .Buy
  | some (.string "sell") => .ok .Sell
  | some _ => .error (.InvalidField "side")

def parsePrice (field : Option JsonValue) : Except GatewayError UInt64 :=
  match present field with
  | none => .error (.MissingField "price")
  | some (.number _ (some ticks)) =>
    if limits.kMinPriceTicks ≤ ticks ∧ ticks ≤ limits.kMaxPriceTicks then .ok ticks else .error (.InvalidField "price")
  | some _ => .error (.InvalidField "price")

def parseQuantity (field : Option JsonValue) : Except GatewayError UInt32 :=
  match present field with
  | none => .error (.MissingField "quantity")
  | some (.number (some quantity) _) =>
    if limits.kMinGatewayQuantity.toUInt64 ≤ quantity ∧ quantity ≤ limits.kMaxGatewayQuantity.toUInt64 then
      .ok quantity.toUInt32
    else .error (.InvalidField "quantity")
  | some _ => .error (.InvalidField "quantity")

/-! ### Identifiers -/

/-- The first identifier from one on that is not in use. -/
def firstFree (inUse : Finset UInt64) : Nat → UInt64 → Option UInt64
  | 0,_ => none
  | bound+1,id => if id ∈ inUse then firstFree inUse bound (id + 1) else some id

def assignUniqueId (gateway : Gateway) : Option (UInt64 × Gateway) := do
  let id ← firstFree gateway.inUse (gateway.inUse.card + 1) gateway.nextAutoId
  return (id,{ gateway with nextAutoId := id + 1 })

def resolveOrderId (gateway : Gateway) (field : Option JsonValue) : Option (Except GatewayError UInt64 × Gateway) :=
  match present field with
  | none => do
    let (id,gateway) ← gateway.assignUniqueId
    return (.ok id,gateway)
  | some (.number (some supplied) _) =>
    if supplied ∈ gateway.inUse then some (.error (.DuplicateOrderId supplied),gateway) else some (.ok supplied,gateway)
  | some _ => some (.error (.InvalidField "order_id"),gateway)

/-- The fields of a body, in the order of their checks. -/
def parseFields : JsonBody → Except GatewayError (Side × UInt64 × UInt32 × Option JsonValue)
  | .malformed message => .error (.InvalidJson message)
  | .notObject => .error (.InvalidJson "expected a JSON object")
  | .object side price quantity orderId => do
    let side ← parseSide side
    let priceTicks ← parsePrice price
    let quantity ← parseQuantity quantity
    return (side,priceTicks,quantity,orderId)

def handleNewOrder (gateway : Gateway) (body : JsonBody) : Option (Except GatewayError ValidatedOrder × Gateway) :=
  match parseFields body with
  | .error e => some (.error e,gateway)
  | .ok (side,priceTicks,quantity,orderId) => do
    let (resolved,gateway) ← gateway.resolveOrderId orderId
    match resolved with
    | .error e => return (.error e,gateway)
    | .ok orderId =>
      return (.ok ⟨orderId,side,priceTicks,quantity⟩,{ gateway with inUse := insert orderId gateway.inUse })

def newOrderMessage (gateway : Gateway) (order : ValidatedOrder) : NewOrder × Gateway :=
  (⟨order.orderId,order.side,order.priceTicks,order.quantity,gateway.nextSeq⟩,{ gateway with nextSeq := gateway.nextSeq + 1 })

def acceptNewOrder (gateway : Gateway) (body : JsonBody) : Option (Except GatewayError NewOrder × Gateway) := do
  let (handled,gateway) ← gateway.handleNewOrder body
  match handled with
  | .error e => return (.error e,gateway)
  | .ok order =>
    let (message,gateway) := gateway.newOrderMessage order
    return (.ok message,gateway)

/-! ### What a call does -/

theorem firstFree_free {inUse : Finset UInt64} {bound : Nat} {start id : UInt64}
    (found : firstFree inUse bound start = some id) : id ∉ inUse := by
  induction bound generalizing start with
  | zero => cases found
  | succ bound ih =>
    rw [firstFree] at found
    split_ifs at found with taken
    · exact ih found
    · cases found
      exact taken

/-- An identifier that is resolved is not in use, and nothing but the next candidate
    changes. -/
theorem resolveOrderId_spec {gateway gateway' : Gateway} {field : Option JsonValue}
    {resolved : Except GatewayError UInt64} (ran : gateway.resolveOrderId field = some (resolved,gateway')) :
    gateway'.inUse = gateway.inUse ∧ gateway'.nextSeq = gateway.nextSeq ∧
      (∀ id, resolved = .ok id → id ∉ gateway.inUse) ∧ ((∃ e, resolved = .error e) → gateway' = gateway) := by
  rw [resolveOrderId] at ran
  split at ran
  · rw [assignUniqueId] at ran
    cases found : firstFree gateway.inUse (gateway.inUse.card + 1) gateway.nextAutoId with
    | none => simp [found] at ran
    | some id =>
      simp only [found,Option.bind_eq_bind,Option.bind_some] at ran
      obtain ⟨rfl,rfl⟩ := Prod.mk.inj (Option.some.inj ran)
      refine ⟨rfl,rfl,?_,?_⟩
      · rintro _ ⟨rfl⟩
        exact firstFree_free found
      · rintro ⟨e,⟨⟩⟩
  · split_ifs at ran with taken
    · obtain ⟨rfl,rfl⟩ := Prod.mk.inj (Option.some.inj ran)
      exact ⟨rfl,rfl,by rintro _ ⟨⟩,fun _ => rfl⟩
    · obtain ⟨rfl,rfl⟩ := Prod.mk.inj (Option.some.inj ran)
      refine ⟨rfl,rfl,?_,fun _ => rfl⟩
      rintro _ ⟨rfl⟩
      exact taken
  · obtain ⟨rfl,rfl⟩ := Prod.mk.inj (Option.some.inj ran)
    exact ⟨rfl,rfl,by rintro _ ⟨⟩,fun _ => rfl⟩

/-- An accepted order has an identifier that was not in use and the next stamp; a
    refused one changes nothing. -/
theorem acceptNewOrder_spec {gateway gateway' : Gateway} {body : JsonBody} {accepted : Except GatewayError NewOrder}
    (ran : gateway.acceptNewOrder body = some (accepted,gateway')) :
    (∃ e, accepted = .error e ∧ gateway' = gateway) ∨
      ∃ m, accepted = .ok m ∧ m.orderId ∉ gateway.inUse ∧ gateway'.inUse = insert m.orderId gateway.inUse ∧
        m.seq = gateway.nextSeq ∧ gateway'.nextSeq = gateway.nextSeq + 1 := by
  rw [acceptNewOrder,handleNewOrder] at ran
  split at ran
  · obtain ⟨rfl,rfl⟩ := Prod.mk.inj (Option.some.inj ran)
    exact .inl ⟨_,rfl,rfl⟩
  · rename_i side priceTicks quantity field _
    cases resolving : gateway.resolveOrderId field with
    | none => simp [resolving] at ran
    | some result =>
      obtain ⟨inUse,nextSeq,free,unchanged⟩ :=
        resolveOrderId_spec (show gateway.resolveOrderId field = some (result.1,result.2) from resolving)
      rw [resolving] at ran
      cases resolved : result.1 with
      | error e =>
        simp only [resolved,Option.bind_eq_bind,Option.bind_some] at ran
        obtain ⟨rfl,rfl⟩ := Prod.mk.inj (Option.some.inj ran)
        exact .inl ⟨e,rfl,unchanged ⟨e,resolved⟩⟩
      | ok id =>
        simp only [resolved,Option.bind_eq_bind,Option.bind_some,newOrderMessage] at ran
        obtain ⟨rfl,rfl⟩ := Prod.mk.inj (Option.some.inj ran)
        exact .inr ⟨_,rfl,free id resolved,by simp [inUse],nextSeq,by simp [nextSeq]⟩

theorem reserve_spec (gateway : Gateway) (orderId : UInt64) :
    (gateway.reserve orderId).2.inUse = insert orderId gateway.inUse ∧
      (gateway.reserve orderId).2.nextSeq = gateway.nextSeq := by
  rw [reserve]
  split_ifs with taken
  · exact ⟨(Finset.insert_eq_of_mem taken).symm,rfl⟩
  · simp only
    split_ifs
    · exact ⟨rfl,rfl⟩
    · exact ⟨rfl,rfl⟩

end Gateway
end HyperMatch
