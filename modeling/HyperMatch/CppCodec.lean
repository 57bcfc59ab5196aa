import HyperMatch.LittleEndian
import HyperMatch.Wire

/-!
The C++ codec, `hme::encode` and `hme::decode` of `cpp/codec/src/codec.cpp`,
with the byte tables and lengths of `wire_protocol.hpp` and the typed errors of
`binary_message.hpp`. A caller's buffer is the list of its bytes; `encode`
returns the buffer as it leaves it next to its result, on success and on error.
-/
namespace HyperMatch.CppCodec
open HyperMatch.Wire

def sideAsByte : Side → UInt8
  | .Buy => 0
  | .Sell => 1
def sideFromByte (byte : UInt8) : Option Side :=
  match byte with
  | 0 => some .Buy
  | 1 => some .Sell
  | _ => none

def ackKindAsByte : AckKind → UInt8
  | .Accepted => 0
  | .Cancelled => 1
def ackKindFromByte (byte : UInt8) : Option AckKind :=
  match byte with
  | 0 => some .Accepted
  | 1 => some .Cancelled
  | _ => none

def rejectReasonAsByte : RejectReason → UInt8
  | .InvalidPrice => 0
  | .InvalidQuantity => 1
  | .OrderNotFound => 2
  | .NoLongerResting => 3
  | .IntegrityViolation => 4
def rejectReasonFromByte (byte : UInt8) : Option RejectReason :=
  match byte with
  | 0 => some .InvalidPrice
  | 1 => some .InvalidQuantity
  | 2 => some .OrderNotFound
  | 3 => some .NoLongerResting
  | 4 => some .IntegrityViolation
  | _ => none

def messageTypeAsByte : MessageType → UInt8
  | .NewOrder => 0
  | .CancelOrder => 1
  | .Trade => 2
  | .Ack => 3
  | .Reject => 4
def messageTypeFromByte (byte : UInt8) : Option MessageType :=
  match byte with
  | 0 => some .NewOrder
  | 1 => some .CancelOrder
  | 2 => some .Trade
  | 3 => some .Ack
  | 4 => some .Reject
  | _ => none

/-! ### Layout -/

def kMessageTypeBytes : Nat := 1
def kOrderIdBytes : Nat := 8
def kSideBytes : Nat := 1
def kPriceTicksBytes : Nat := 8
def kQuantityBytes : Nat := 4
def kSeqBytes : Nat := 8
def kExecSeqBytes : Nat := 8
def kAckKindBytes : Nat := 1
def kRejectReasonBytes : Nat := 1

def kNewOrderLen : Nat :=
  kMessageTypeBytes + kOrderIdBytes + kSideBytes + kPriceTicksBytes + kQuantityBytes + kSeqBytes
def kCancelOrderLen : Nat := kMessageTypeBytes + kOrderIdBytes
def kTradeLen : Nat :=
  kMessageTypeBytes + kExecSeqBytes + kPriceTicksBytes + kQuantityBytes + kOrderIdBytes + kOrderIdBytes
def kAckLen : Nat := kMessageTypeBytes + kOrderIdBytes + kAckKindBytes
def kRejectLen : Nat := kMessageTypeBytes + kOrderIdBytes + kRejectReasonBytes
def kMaxMessageLen : Nat := kTradeLen

/-- Every enumerator has a length; the C++ function answers `nullopt` only for
    values that are none of them. -/
def messageLen : MessageType → Option Nat
  | .NewOrder => some kNewOrderLen
  | .CancelOrder => some kCancelOrderLen
  | .Trade => some kTradeLen
  | .Ack => some kAckLen
  | .Reject => some kRejectLen

def encodedLenOf : BinaryMessage → Nat
  | .newOrder _ => kNewOrderLen
  | .cancelOrder _ => kCancelOrderLen
  | .trade _ => kTradeLen
  | .ack _ => kAckLen
  | .reject _ => kRejectLen

/-! ### Errors -/

inductive CodecErrorKind where
  | UnknownType
  | InsufficientLength
  | ExcessTrailingBytes
  | FieldOutOfRange
  deriving Repr, DecidableEq

/-- The three members of the C++ error; a null `field` pointer is `none`. -/
structure CodecError where
  kind : CodecErrorKind
  unknownType : UInt8
  field : Option String
  deriving Repr, DecidableEq

def CodecError.unknownTypeError (typeByte : UInt8) : CodecError := ⟨.UnknownType,typeByte,none⟩
def CodecError.insufficientLength : CodecError := ⟨.InsufficientLength,0,none⟩
def CodecError.excessTrailingBytes : CodecError := ⟨.ExcessTrailingBytes,0,none⟩
def CodecError.fieldOutOfRange (fieldName : String) : CodecError := ⟨.FieldOutOfRange,0,some fieldName⟩

/-- `CodecResult<T>`, a variant of a value and an error. -/
abbrev CodecResult (α : Type) := Except CodecError α

/-! ### Cursors -/

/-- The write cursor: the buffer and the offset of the next byte. -/
structure LeWriter where
  out : List UInt8
  pos : Nat
  deriving Repr, DecidableEq

def LeWriter.u8 (w : LeWriter) (v : UInt8) : LeWriter := ⟨w.out.set w.pos v,w.pos+1⟩
def LeWriter.u32 (w : LeWriter) (v : UInt32) : LeWriter :=
  (((w.u8 (v &&& 0xFF).toUInt8).u8 ((v >>> 8) &&& 0xFF).toUInt8).u8
    ((v >>> 16) &&& 0xFF).toUInt8).u8 ((v >>> 24) &&& 0xFF).toUInt8
def LeWriter.u64 (w : LeWriter) (v : UInt64) : LeWriter :=
  (List.range 8).foldl (fun w i => w.u8 ((v >>> UInt64.ofNat (8*i)) &&& 0xFF).toUInt8) w

/-- The read cursor. The decoder checks the exact length first, so no read runs
    past the bytes; a read past them is 0 here. -/
structure LeReader where
  bytes : List UInt8
  pos : Nat
  deriving Repr, DecidableEq

def LeReader.u8 (r : LeReader) : UInt8 × LeReader := (r.bytes.getD r.pos 0,⟨r.bytes,r.pos+1⟩)
def LeReader.u32 (r : LeReader) : UInt32 × LeReader :=
  (List.range 4).foldl (fun (v,r) i => (v ||| (r.u8.1.toUInt32 <<< UInt32.ofNat (8*i)),r.u8.2)) (0,r)
def LeReader.u64 (r : LeReader) : UInt64 × LeReader :=
  (List.range 8).foldl (fun (v,r) i => (v ||| (r.u8.1.toUInt64 <<< UInt64.ofNat (8*i)),r.u8.2)) (0,r)

/-! ### Range checks -/

def priceTicksInRange (priceTicks : UInt64) : Bool :=
  decide (priceTicks ≥ limits.kMinPriceTicks) && decide (priceTicks ≤ limits.kMaxPriceTicks)
def quantityInRange (quantity : UInt32) : Bool :=
  decide (quantity ≥ limits.kMinGatewayQuantity) && decide (quantity ≤ limits.kMaxGatewayQuantity)

/-! ### Encode and decode -/

/-- The visitor of `encode`, run with the type byte already written. -/
def encodeFields (w : LeWriter) : BinaryMessage → CodecResult Nat × List UInt8
  | .newOrder m =>
    if !priceTicksInRange m.priceTicks then (.error (.fieldOutOfRange "price_ticks"),w.out)
    else if !quantityInRange m.quantity then (.error (.fieldOutOfRange "quantity"),w.out)
    else
      let w := ((((w.u64 m.orderId).u8 (sideAsByte m.side)).u64 m.priceTicks).u32 m.quantity).u64 m.seq
      (.ok w.pos,w.out)
  | .cancelOrder m =>
    let w := w.u64 m.orderId
    (.ok w.pos,w.out)
  | .trade m =>
    if !priceTicksInRange m.priceTicks then (.error (.fieldOutOfRange "price_ticks"),w.out)
    else if !quantityInRange m.quantity then (.error (.fieldOutOfRange "quantity"),w.out)
    else
      let w := ((((w.u64 m.execSeq).u64 m.priceTicks).u32 m.quantity).u64 m.incomingId).u64 m.restingId
      (.ok w.pos,w.out)
  | .ack m =>
    let w := (w.u64 m.orderId).u8 (ackKindAsByte m.kind)
    (.ok w.pos,w.out)
  | .reject m =>
    let w := (w.u64 m.orderId).u8 (rejectReasonAsByte m.reason)
    (.ok w.pos,w.out)

/-- `hme::encode`: the length check, then the type byte, then the fields with
    their range checks. -/
def encode (msg : BinaryMessage) (out : List UInt8) : CodecResult Nat × List UInt8 :=
  if out.length < encodedLenOf msg then (.error .insufficientLength,out)
  else encodeFields (LeWriter.u8 ⟨out,0⟩ (messageTypeAsByte (messageType msg))) msg

/-- The switch of `decode`, on bytes of exactly the type's length, with the type
    byte already read. -/
def decodeFields (type : MessageType) (r : LeReader) : CodecResult BinaryMessage :=
  match type with
  | .NewOrder =>
    let (orderId,r) := r.u64
    let (sideByte,r) := r.u8
    match sideFromByte sideByte with
    | none => .error (.fieldOutOfRange "side")
    | some side =>
      let (priceTicks,r) := r.u64
      let (quantity,r) := r.u32
      let (seq,_) := r.u64
      if !priceTicksInRange priceTicks then .error (.fieldOutOfRange "price_ticks")
      else if !quantityInRange quantity then .error (.fieldOutOfRange "quantity")
      else .ok (.newOrder ⟨orderId,side,priceTicks,quantity,seq⟩)
  | .CancelOrder =>
    let (orderId,_) := r.u64
    .ok (.cancelOrder ⟨orderId⟩)
  | .Trade =>
    let (execSeq,r) := r.u64
    let (priceTicks,r) := r.u64
    let (quantity,r) := r.u32
    let (incomingId,r) := r.u64
    let (restingId,_) := r.u64
    if !priceTicksInRange priceTicks then .error (.fieldOutOfRange "price_ticks")
    else if !quantityInRange quantity then .error (.fieldOutOfRange "quantity")
    else .ok (.trade ⟨execSeq,priceTicks,quantity,incomingId,restingId⟩)
  | .Ack =>
    let (orderId,r) := r.u64
    let (kindByte,_) := r.u8
    match ackKindFromByte kindByte with
    | none => .error (.fieldOutOfRange "kind")
    | some kind => .ok (.ack ⟨orderId,kind⟩)
  | .Reject =>
    let (orderId,r) := r.u64
    let (reasonByte,_) := r.u8
    match rejectReasonFromByte reasonByte with
    | none => .error (.fieldOutOfRange "reason")
    | some reason => .ok (.reject ⟨orderId,reason⟩)

/-- `hme::decode`. -/
def decode (bytes : List UInt8) : CodecResult BinaryMessage :=
  match bytes with
  | [] => .error .insufficientLength
  | typeByte :: _ =>
    match messageTypeFromByte typeByte with
    | none => .error (.unknownTypeError typeByte)
    | some type =>
      match messageLen type with
      | none => .error (.unknownTypeError typeByte)
      | some needed =>
        if bytes.length < needed then .error .insufficientLength
        else if bytes.length > needed then .error .excessTrailingBytes
        else decodeFields type (LeReader.u8 ⟨bytes,0⟩).2

end HyperMatch.CppCodec
