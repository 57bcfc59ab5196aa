import HyperMatch.LittleEndian
import HyperMatch.Wire

/-!
The Rust codec, `BinaryMessage::encode` and `codec::decode` of
`codec/src/lib.rs`. `to_le_bytes` and `from_le_bytes` of the standard library
are the little-endian bytes of a number and the number that bytes spell.
-/
namespace HyperMatch.RustCodec
open HyperMatch.Wire HyperMatch.LittleEndian

def Side.asByte : Side → UInt8
  | .Buy => 0
  | .Sell => 1
def Side.fromByte (byte : UInt8) : Option Side :=
  match byte with
  | 0 => some .Buy
  | 1 => some .Sell
  | _ => none

def AckKind.asByte : AckKind → UInt8
  | .Accepted => 0
  | .Cancelled => 1
def AckKind.fromByte (byte : UInt8) : Option AckKind :=
  match byte with
  | 0 => some .Accepted
  | 1 => some .Cancelled
  | _ => none

def RejectReason.asByte : RejectReason → UInt8
  | .InvalidPrice => 0
  | .InvalidQuantity => 1
  | .OrderNotFound => 2
  | .NoLongerResting => 3
  | .IntegrityViolation => 4
def RejectReason.fromByte (byte : UInt8) : Option RejectReason :=
  match byte with
  | 0 => some .InvalidPrice
  | 1 => some .InvalidQuantity
  | 2 => some .OrderNotFound
  | 3 => some .NoLongerResting
  | 4 => some .IntegrityViolation
  | _ => none

def MessageType.asByte : MessageType → UInt8
  | .NewOrder => 0
  | .CancelOrder => 1
  | .Trade => 2
  | .Ack => 3
  | .Reject => 4
def MessageType.fromByte (byte : UInt8) : Option MessageType :=
  match byte with
  | 0 => some .NewOrder
  | 1 => some .CancelOrder
  | 2 => some .Trade
  | 3 => some .Ack
  | 4 => some .Reject
  | _ => none

namespace layout
def MESSAGE_TYPE_BYTES : Nat := 1
def ORDER_ID_BYTES : Nat := 8
def SIDE_BYTES : Nat := 1
def PRICE_TICKS_BYTES : Nat := 8
def QUANTITY_BYTES : Nat := 4
def SEQ_BYTES : Nat := 8
def EXEC_SEQ_BYTES : Nat := 8
def ACK_KIND_BYTES : Nat := 1
def REJECT_REASON_BYTES : Nat := 1
def NEW_ORDER_LEN : Nat :=
  MESSAGE_TYPE_BYTES + ORDER_ID_BYTES + SIDE_BYTES + PRICE_TICKS_BYTES + QUANTITY_BYTES + SEQ_BYTES
def CANCEL_ORDER_LEN : Nat := MESSAGE_TYPE_BYTES + ORDER_ID_BYTES
def TRADE_LEN : Nat :=
  MESSAGE_TYPE_BYTES + EXEC_SEQ_BYTES + PRICE_TICKS_BYTES + QUANTITY_BYTES + ORDER_ID_BYTES + ORDER_ID_BYTES
def ACK_LEN : Nat := MESSAGE_TYPE_BYTES + ORDER_ID_BYTES + ACK_KIND_BYTES
def REJECT_LEN : Nat := MESSAGE_TYPE_BYTES + ORDER_ID_BYTES + REJECT_REASON_BYTES
end layout

namespace limits
def MIN_PRICE_TICKS : UInt64 := 1
def MAX_PRICE_TICKS : UInt64 := 99999999999
def MIN_GATEWAY_QUANTITY : UInt32 := 1
def MAX_GATEWAY_QUANTITY : UInt32 := 1000000000
end limits

def MessageType.encodedLen : MessageType → Nat
  | .NewOrder => layout.NEW_ORDER_LEN
  | .CancelOrder => layout.CANCEL_ORDER_LEN
  | .Trade => layout.TRADE_LEN
  | .Ack => layout.ACK_LEN
  | .Reject => layout.REJECT_LEN

/-- `BinaryMessage::encoded_len`. -/
def encodedLen (msg : BinaryMessage) : Nat := MessageType.encodedLen (messageType msg)

inductive CodecError where
  | UnknownType (byte : UInt8)
  | InsufficientLength
  | ExcessTrailingBytes
  | FieldOutOfRange (field : String)
  deriving Repr, DecidableEq

def checkPrice (priceTicks : UInt64) : Except CodecError Unit :=
  if priceTicks < limits.MIN_PRICE_TICKS ∨ priceTicks > limits.MAX_PRICE_TICKS
  then .error (.FieldOutOfRange "price_ticks") else .ok ()
def checkQuantity (quantity : UInt32) : Except CodecError Unit :=
  if quantity < limits.MIN_GATEWAY_QUANTITY ∨ quantity > limits.MAX_GATEWAY_QUANTITY
  then .error (.FieldOutOfRange "quantity") else .ok ()

/-! ### Cursors -/

/-- The writer: the caller's buffer and the offset of the next byte. -/
structure Writer where
  buf : List UInt8
  pos : Nat
  deriving Repr, DecidableEq

/-- `buf[pos..pos + n].copy_from_slice(bytes)`, for the `n` given bytes. -/
def Writer.copyFromSlice (w : Writer) (bytes : List UInt8) : Writer :=
  ⟨w.buf.take w.pos ++ bytes ++ w.buf.drop (w.pos + bytes.length),w.pos + bytes.length⟩
def Writer.putU8 (w : Writer) (value : UInt8) : Writer := ⟨w.buf.set w.pos value,w.pos+1⟩
def Writer.putU32 (w : Writer) (value : UInt32) : Writer := w.copyFromSlice (leBytes 4 value.toNat)
def Writer.putU64 (w : Writer) (value : UInt64) : Writer := w.copyFromSlice (leBytes 8 value.toNat)

/-- The reader over the bytes after the type byte. `decode` checks the exact
    length first, so every slice that it takes is whole. -/
structure Reader where
  buf : List UInt8
  pos : Nat
  deriving Repr, DecidableEq

def Reader.getU8 (r : Reader) : UInt8 × Reader := (r.buf.getD r.pos 0,⟨r.buf,r.pos+1⟩)
def Reader.getU32 (r : Reader) : UInt32 × Reader :=
  (UInt32.ofNat (ofLeBytes ((r.buf.drop r.pos).take 4)),⟨r.buf,r.pos+4⟩)
def Reader.getU64 (r : Reader) : UInt64 × Reader :=
  (UInt64.ofNat (ofLeBytes ((r.buf.drop r.pos).take 8)),⟨r.buf,r.pos+8⟩)

/-! ### Encode and decode -/

def validateFields : BinaryMessage → Except CodecError Unit
  | .newOrder m => do
    checkPrice m.priceTicks
    checkQuantity m.quantity
  | .trade m => do
    checkPrice m.priceTicks
    checkQuantity m.quantity
  | .cancelOrder _ => .ok ()
  | .ack _ => .ok ()
  | .reject _ => .ok ()

/-- The fields of a message, written after its type byte. -/
def putFields (w : Writer) : BinaryMessage → Writer
  | .newOrder m =>
    ((((w.putU64 m.orderId).putU8 (Side.asByte m.side)).putU64 m.priceTicks).putU32 m.quantity).putU64 m.seq
  | .cancelOrder m => w.putU64 m.orderId
  | .trade m =>
    ((((w.putU64 m.execSeq).putU64 m.priceTicks).putU32 m.quantity).putU64 m.incomingId).putU64 m.restingId
  | .ack m => (w.putU64 m.orderId).putU8 (AckKind.asByte m.kind)
  | .reject m => (w.putU64 m.orderId).putU8 (RejectReason.asByte m.reason)

/-- `BinaryMessage::encode`: the range checks, then the length check, then the
    writes. The buffer as it is left stands next to the result. -/
def encode (msg : BinaryMessage) (out : List UInt8) : Except CodecError Nat × List UInt8 :=
  match validateFields msg with
  | .error e => (.error e,out)
  | .ok () =>
    if out.length < encodedLen msg then (.error .InsufficientLength,out)
    else
      let w := putFields (Writer.putU8 ⟨out,0⟩ (MessageType.asByte (messageType msg))) msg
      (.ok (encodedLen msg),w.buf)

/-- The match of `decode` on a reader over the bytes after the type byte. -/
def decodeFields (msgType : MessageType) (r : Reader) : Except CodecError BinaryMessage :=
  match msgType with
  | .NewOrder => do
    let (orderId,r) := r.getU64
    let (sideByte,r) := r.getU8
    let side ← (Side.fromByte sideByte).elim (.error (.FieldOutOfRange "side")) .ok
    let (priceTicks,r) := r.getU64
    let (quantity,r) := r.getU32
    let (seq,_) := r.getU64
    checkPrice priceTicks
    checkQuantity quantity
    .ok (.newOrder ⟨orderId,side,priceTicks,quantity,seq⟩)
  | .CancelOrder => do
    let (orderId,_) := r.getU64
    .ok (.cancelOrder ⟨orderId⟩)
  | .Trade => do
    let (execSeq,r) := r.getU64
    let (priceTicks,r) := r.getU64
    let (quantity,r) := r.getU32
    let (incomingId,r) := r.getU64
    let (restingId,_) := r.getU64
    checkPrice priceTicks
    checkQuantity quantity
    .ok (.trade ⟨execSeq,priceTicks,quantity,incomingId,restingId⟩)
  | .Ack => do
    let (orderId,r) := r.getU64
    let (kindByte,_) := r.getU8
    let kind ← (AckKind.fromByte kindByte).elim (.error (.FieldOutOfRange "kind")) .ok
    .ok (.ack ⟨orderId,kind⟩)
  | .Reject => do
    let (orderId,r) := r.getU64
    let (reasonByte,_) := r.getU8
    let reason ← (RejectReason.fromByte reasonByte).elim (.error (.FieldOutOfRange "reason")) .ok
    .ok (.reject ⟨orderId,reason⟩)

/-- `codec::decode`. -/
def decode (bytes : List UInt8) : Except CodecError BinaryMessage := do
  let typeByte ← bytes.head?.elim (.error .InsufficientLength) .ok
  let msgType ← (MessageType.fromByte typeByte).elim (.error (.UnknownType typeByte)) .ok
  let required := MessageType.encodedLen msgType
  if bytes.length < required then .error .InsufficientLength
  else if bytes.length > required then .error .ExcessTrailingBytes
  else decodeFields msgType ⟨bytes.drop layout.MESSAGE_TYPE_BYTES,0⟩

end HyperMatch.RustCodec
