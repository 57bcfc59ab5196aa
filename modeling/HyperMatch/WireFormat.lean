import HyperMatch.CppCodec
import HyperMatch.RustCodec

/-!
The wire format as a table, and what both codecs owe to it. The table lists the
fields of every message type with their names, widths and permitted values; the
bytes of a message (`bytesOf`) and the first fault of a byte string (`fault`)
are read off the table, not off a codec.
-/
namespace HyperMatch.WireFormat
open HyperMatch.Wire HyperMatch.LittleEndian
open HyperMatch.RustCodec (CodecError)
set_option linter.unusedSimpArgs false

/-- One field of a message: its name in errors, its width in bytes and the
    values that it may hold. -/
structure Field where
  name : String
  width : Nat
  permitted : Nat → Bool

def idField (name : String) : Field := ⟨name,8,fun _ => true⟩
def choiceField (name : String) (choices : Nat) : Field := ⟨name,1,fun v => decide (v < choices)⟩
def priceField : Field := ⟨"price_ticks",8,fun v => decide (1 ≤ v ∧ v ≤ 99999999999)⟩
def quantityField : Field := ⟨"quantity",4,fun v => decide (1 ≤ v ∧ v ≤ 1000000000)⟩

/-- The fields of a message type after its type byte, in wire order. -/
def fields : MessageType → List Field
  | .NewOrder => [idField "order_id",choiceField "side" 2,priceField,quantityField,idField "seq"]
  | .CancelOrder => [idField "order_id"]
  | .Trade => [idField "exec_seq",priceField,quantityField,idField "incoming_id",idField "resting_id"]
  | .Ack => [idField "order_id",choiceField "kind" 2]
  | .Reject => [idField "order_id",choiceField "reason" 5]

/-- The message types in the order of their type bytes. -/
def messageTypes : List MessageType := [.NewOrder,.CancelOrder,.Trade,.Ack,.Reject]

def typeLength (type : MessageType) : Nat := 1 + ((fields type).map Field.width).sum

def sideIndex : Side → Nat
  | .Buy => 0
  | .Sell => 1
def kindIndex : AckKind → Nat
  | .Accepted => 0
  | .Cancelled => 1
def reasonIndex : RejectReason → Nat
  | .InvalidPrice => 0
  | .InvalidQuantity => 1
  | .OrderNotFound => 2
  | .NoLongerResting => 3
  | .IntegrityViolation => 4

/-- The field values of a message, in wire order. -/
def fieldValues : BinaryMessage → List Nat
  | .newOrder m => [m.orderId.toNat,sideIndex m.side,m.priceTicks.toNat,m.quantity.toNat,m.seq.toNat]
  | .cancelOrder m => [m.orderId.toNat]
  | .trade m => [m.execSeq.toNat,m.priceTicks.toNat,m.quantity.toNat,m.incomingId.toNat,m.restingId.toNat]
  | .ack m => [m.orderId.toNat,kindIndex m.kind]
  | .reject m => [m.orderId.toNat,reasonIndex m.reason]

/-- The encoding of a message. -/
def bytesOf (msg : BinaryMessage) : List UInt8 :=
  UInt8.ofNat (messageTypes.idxOf (messageType msg)) ::
    ((fields (messageType msg)).zip (fieldValues msg)).flatMap (fun (f,v) => leBytes f.width v)

/-- The name of the first field that holds a value it may not hold. -/
def firstOffending : List Field → List UInt8 → Option String
  | [],_ => none
  | f :: rest,bytes =>
    if f.permitted (ofLeBytes (bytes.take f.width)) then firstOffending rest (bytes.drop f.width) else some f.name

/-- What is wrong with a byte string, in order of precedence: no type byte, an
    unknown type byte, too few bytes, too many, the first offending field. -/
def fault (bytes : List UInt8) : Option CodecError :=
  match bytes with
  | [] => some .InsufficientLength
  | typeByte :: rest =>
    match messageTypes[typeByte.toNat]? with
    | none => some (.UnknownType typeByte)
    | some type =>
      if bytes.length < typeLength type then some .InsufficientLength
      else if bytes.length > typeLength type then some .ExcessTrailingBytes
      else (firstOffending (fields type) rest).map .FieldOutOfRange

/-- What an encoder and a decoder owe to the wire format. -/
structure Contract (encode : BinaryMessage → List UInt8 → Except CodecError Nat × List UInt8)
    (decode : List UInt8 → Except CodecError BinaryMessage) : Prop where
  /-- A message in range goes to the front of a buffer with room for it, and the
      bytes behind it stay. -/
  encodes : ∀ msg out, InRange msg → typeLength (messageType msg) ≤ out.length →
    encode msg out = (.ok (typeLength (messageType msg)),bytesOf msg ++ out.drop (typeLength (messageType msg)))
  exactLength : ∀ msg, (bytesOf msg).length = typeLength (messageType msg)
  decodes : ∀ msg, InRange msg → decode (bytesOf msg) = .ok msg
  reencodes : ∀ bytes msg out, decode bytes = .ok msg → bytes.length ≤ out.length →
    encode msg out = (.ok bytes.length,bytes ++ out.drop bytes.length)
  accepts : ∀ bytes, (∃ msg, decode bytes = .ok msg) ↔ ∃ msg, InRange msg ∧ bytes = bytesOf msg
  faults : ∀ bytes error, decode bytes = .error error ↔ fault bytes = some error

/-- The C++ error as the Rust error that it mirrors. -/
def asRust (e : CppCodec.CodecError) : CodecError :=
  match e.kind with
  | .UnknownType => .UnknownType e.unknownType
  | .InsufficientLength => .InsufficientLength
  | .ExcessTrailingBytes => .ExcessTrailingBytes
  | .FieldOutOfRange => .FieldOutOfRange (e.field.getD "")

/-- `hme::encode` with its errors read as the Rust errors. -/
def cppEncode (msg : BinaryMessage) (out : List UInt8) : Except CodecError Nat × List UInt8 :=
  let (result,after) := CppCodec.encode msg out
  (result.mapError asRust,after)
/-- `hme::decode` with its errors read as the Rust errors. -/
def cppDecode (bytes : List UInt8) : Except CodecError BinaryMessage := (CppCodec.decode bytes).mapError asRust

/-- The values that the fields hold in a byte string. -/
def readValues : List Field → List UInt8 → List Nat
  | [],_ => []
  | f :: rest,bytes => ofLeBytes (bytes.take f.width) :: readValues rest (bytes.drop f.width)

/-- Writing the values that were read gives the bytes again. -/
theorem write_readValues (fs : List Field) (bytes : List UInt8) (whole : bytes.length = (fs.map Field.width).sum) :
    (fs.zip (readValues fs bytes)).flatMap (fun (f,v) => leBytes f.width v) = bytes := by
  induction fs generalizing bytes with
  | nil => simpa [readValues,eq_comm] using whole
  | cons f rest ih =>
    simp only [List.map_cons,List.sum_cons] at whole
    have taken : (bytes.take f.width).length = f.width := by simp; omega
    have first := leBytes_ofLeBytes (bytes.take f.width)
    rw [taken] at first
    simp only [readValues,List.zip_cons_cons,List.flatMap_cons,first]
    rw [ih (bytes.drop f.width) (by simp; omega),List.take_append_drop]

/-- Reading what was written gives the values again, when they fit. -/
theorem readValues_write (fs : List Field) (values : List Nat)
    (fits : List.Forall₂ (fun f v => v < 256 ^ f.width) fs values) :
    readValues fs ((fs.zip values).flatMap (fun (f,v) => leBytes f.width v)) = values := by
  induction fits with
  | nil => rfl
  | @cons f v rest more small _ ih =>
    simp only [List.zip_cons_cons,List.flatMap_cons,readValues]
    rw [List.take_left' (leBytes_length _ _),List.drop_left' (leBytes_length _ _),ih,ofLeBytes_leBytes,
      Nat.mod_eq_of_lt small]

theorem fieldValues_fit (msg : BinaryMessage) :
    List.Forall₂ (fun f v => v < 256 ^ f.width) (fields (messageType msg)) (fieldValues msg) := by
  have u64 : ∀ v : UInt64, v.toNat < 18446744073709551616 := fun v => v.toNat_lt
  have u32 : ∀ v : UInt32, v.toNat < 4294967296 := fun v => v.toNat_lt
  cases msg with
  | newOrder m =>
    have side : sideIndex m.side < 256 := by cases m.side <;> decide
    simp [messageType,fields,fieldValues,idField,choiceField,priceField,quantityField,side,u64,u32]
  | cancelOrder m => simp [messageType,fields,fieldValues,idField,u64]
  | trade m => simp [messageType,fields,fieldValues,idField,priceField,quantityField,u64,u32]
  | ack m =>
    have kind : kindIndex m.kind < 256 := by cases m.kind <;> decide
    simp [messageType,fields,fieldValues,idField,choiceField,kind,u64]
  | reject m =>
    have reason : reasonIndex m.reason < 256 := by cases m.reason <;> decide
    simp [messageType,fields,fieldValues,idField,choiceField,reason,u64]

/-- A message is determined by its type and its field values. -/
theorem fieldValues_injective {a b : BinaryMessage} (type : messageType a = messageType b)
    (values : fieldValues a = fieldValues b) : a = b := by
  cases a with
  | newOrder m =>
    cases b <;> simp only [messageType,reduceCtorEq] at type
    rename_i n
    obtain ⟨id,side,price,quantity,seq⟩ := m
    obtain ⟨id',side',price',quantity',seq'⟩ := n
    simp only [fieldValues,List.cons.injEq,and_true,UInt64.toNat_inj,UInt32.toNat_inj] at values
    obtain ⟨rfl,sides,rfl,rfl,rfl⟩ := values
    cases side <;> cases side' <;> simp_all [sideIndex]
  | cancelOrder m =>
    cases b <;> simp only [messageType,reduceCtorEq] at type
    rename_i n
    obtain ⟨id⟩ := m
    obtain ⟨id'⟩ := n
    simp only [fieldValues,List.cons.injEq,and_true,UInt64.toNat_inj] at values
    rw [values]
  | trade m =>
    cases b <;> simp only [messageType,reduceCtorEq] at type
    rename_i n
    obtain ⟨exec,price,quantity,incoming,resting⟩ := m
    obtain ⟨exec',price',quantity',incoming',resting'⟩ := n
    simp only [fieldValues,List.cons.injEq,and_true,UInt64.toNat_inj,UInt32.toNat_inj] at values
    obtain ⟨rfl,rfl,rfl,rfl,rfl⟩ := values
    rfl
  | ack m =>
    cases b <;> simp only [messageType,reduceCtorEq] at type
    rename_i n
    obtain ⟨id,kind⟩ := m
    obtain ⟨id',kind'⟩ := n
    simp only [fieldValues,List.cons.injEq,and_true,UInt64.toNat_inj] at values
    obtain ⟨rfl,kinds⟩ := values
    cases kind <;> cases kind' <;> simp_all [kindIndex]
  | reject m =>
    cases b <;> simp only [messageType,reduceCtorEq] at type
    rename_i n
    obtain ⟨id,reason⟩ := m
    obtain ⟨id',reason'⟩ := n
    simp only [fieldValues,List.cons.injEq,and_true,UInt64.toNat_inj] at values
    obtain ⟨rfl,reasons⟩ := values
    cases reason <;> cases reason' <;> simp_all [reasonIndex]

theorem firstOffending_none (fs : List Field) (bytes : List UInt8) :
    firstOffending fs bytes = none ↔ List.Forall₂ (fun f v => f.permitted v = true) fs (readValues fs bytes) := by
  induction fs generalizing bytes with
  | nil => simp [firstOffending,readValues]
  | cons f rest ih =>
    simp only [firstOffending,readValues,List.forall₂_cons]
    by_cases ok : f.permitted (ofLeBytes (bytes.take f.width)) = true
    · simp [ok,ih]
    · simp [ok]

/-- The values of a message in range are the permitted ones. -/
theorem fieldValues_permitted {msg : BinaryMessage} (ok : InRange msg) :
    List.Forall₂ (fun f v => f.permitted v = true) (fields (messageType msg)) (fieldValues msg) := by
  have price : ∀ p : UInt64, PriceOk p → priceField.permitted p.toNat = true := by
    intro p ⟨low,high⟩
    rw [UInt64.le_iff_toNat_le] at low high
    exact decide_eq_true ⟨low,high⟩
  have quantity : ∀ q : UInt32, QuantityOk q → quantityField.permitted q.toNat = true := by
    intro q ⟨low,high⟩
    rw [UInt32.le_iff_toNat_le] at low high
    exact decide_eq_true ⟨low,high⟩
  cases msg with
  | newOrder m =>
    have side : (choiceField "side" 2).permitted (sideIndex m.side) = true := by cases m.side <;> rfl
    simp [messageType,fields,fieldValues,idField,side,price _ ok.1,quantity _ ok.2]
  | cancelOrder m => simp [messageType,fields,fieldValues,idField]
  | trade m => simp [messageType,fields,fieldValues,idField,price _ ok.1,quantity _ ok.2]
  | ack m =>
    have kind : (choiceField "kind" 2).permitted (kindIndex m.kind) = true := by cases m.kind <;> rfl
    simp [messageType,fields,fieldValues,idField,kind]
  | reject m =>
    have reason : (choiceField "reason" 5).permitted (reasonIndex m.reason) = true := by cases m.reason <;> rfl
    simp [messageType,fields,fieldValues,idField,reason]

/-- The fields of a message as they stand on the wire. -/
def fieldBytes (msg : BinaryMessage) : List UInt8 :=
  ((fields (messageType msg)).zip (fieldValues msg)).flatMap (fun (f,v) => leBytes f.width v)

theorem fieldBytes_newOrder (m : NewOrder) :
    fieldBytes (.newOrder m) = leBytes 8 m.orderId.toNat ++ [UInt8.ofNat (sideIndex m.side)] ++
      leBytes 8 m.priceTicks.toNat ++ leBytes 4 m.quantity.toNat ++ leBytes 8 m.seq.toNat := by
  simp [fieldBytes,messageType,fields,fieldValues,idField,choiceField,priceField,quantityField,leBytes]
theorem fieldBytes_cancelOrder (m : CancelOrder) : fieldBytes (.cancelOrder m) = leBytes 8 m.orderId.toNat := by
  simp [fieldBytes,messageType,fields,fieldValues,idField]
theorem fieldBytes_trade (m : Trade) :
    fieldBytes (.trade m) = leBytes 8 m.execSeq.toNat ++ leBytes 8 m.priceTicks.toNat ++
      leBytes 4 m.quantity.toNat ++ leBytes 8 m.incomingId.toNat ++ leBytes 8 m.restingId.toNat := by
  simp [fieldBytes,messageType,fields,fieldValues,idField,priceField,quantityField]
theorem fieldBytes_ack (m : Ack) :
    fieldBytes (.ack m) = leBytes 8 m.orderId.toNat ++ [UInt8.ofNat (kindIndex m.kind)] := by
  simp [fieldBytes,messageType,fields,fieldValues,idField,choiceField,leBytes]
theorem fieldBytes_reject (m : Reject) :
    fieldBytes (.reject m) = leBytes 8 m.orderId.toNat ++ [UInt8.ofNat (reasonIndex m.reason)] := by
  simp [fieldBytes,messageType,fields,fieldValues,idField,choiceField,leBytes]

theorem bytesOf_eq (msg : BinaryMessage) :
    bytesOf msg = UInt8.ofNat (messageTypes.idxOf (messageType msg)) :: fieldBytes msg := rfl

theorem readValues_fieldBytes (msg : BinaryMessage) :
    readValues (fields (messageType msg)) (fieldBytes msg) = fieldValues msg :=
  readValues_write _ _ (fieldValues_fit msg)

theorem typeByte_index (type : MessageType) :
    messageTypes[(UInt8.ofNat (messageTypes.idxOf type)).toNat]? = some type := by
  cases type <;> decide

/-- No two messages have the same bytes. -/
theorem bytesOf_injective {a b : BinaryMessage} (same : bytesOf a = bytesOf b) : a = b := by
  rw [bytesOf_eq,bytesOf_eq,List.cons.injEq] at same
  have type : messageType a = messageType b := by
    have index := typeByte_index (messageType a)
    rw [same.1,typeByte_index] at index
    exact (Option.some.inj index).symm
  apply fieldValues_injective type
  rw [← readValues_fieldBytes a,← readValues_fieldBytes b,type,same.2]

theorem bytesOf_length (msg : BinaryMessage) : (bytesOf msg).length = typeLength (messageType msg) := by
  cases msg <;> simp [bytesOf,messageType,fields,fieldValues,typeLength,idField,choiceField,priceField,quantityField]

/-- The bytes of a message in range have no fault. -/
theorem fault_bytesOf {msg : BinaryMessage} (ok : InRange msg) : fault (bytesOf msg) = none := by
  have whole := bytesOf_length msg
  have clean : firstOffending (fields (messageType msg)) (fieldBytes msg) = none := by
    rw [firstOffending_none,readValues_fieldBytes]
    exact fieldValues_permitted ok
  rw [bytesOf_eq] at whole ⊢
  simp only [fault,typeByte_index,whole,lt_irrefl,if_false,gt_iff_lt,clean,Option.map_none]

end HyperMatch.WireFormat
