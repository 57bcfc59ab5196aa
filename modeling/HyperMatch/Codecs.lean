import HyperMatch.WireFormat

/-!
The two codecs against the wire format and against each other. Both readers
read the same number from the same bytes, so the decoders agree on every byte
string; both writers lay down the same bytes. The encoders differ in the order
of their checks and in the type byte that the C++ encoder writes first.
-/
namespace HyperMatch.Codecs
open HyperMatch.Wire HyperMatch.LittleEndian HyperMatch.WireFormat
open HyperMatch.RustCodec (CodecError)
set_option linter.unusedSimpArgs false

/-! ### Reading -/

private theorem or_byte_u64 (bytes : List UInt8) (n : Nat) (small : n < 8) :
    UInt64.ofNat (ofLeBytes (bytes.take n)) ||| ((bytes.getD n 0).toUInt64 <<< UInt64.ofNat (8*n)) =
      UInt64.ofNat (ofLeBytes (bytes.take (n+1))) := by
  have below := ofLeBytes_take_lt bytes (n+1)
  have belowN := ofLeBytes_take_lt bytes n
  have wide : 2 ^ (8*(n+1)) ≤ 2 ^ 64 := Nat.pow_le_pow_right (by norm_num) (by omega)
  have wideN : 2 ^ (8*n) ≤ 2 ^ 64 := Nat.pow_le_pow_right (by norm_num) (by omega)
  have shifted := shift_byte_lt (bytes.getD n 0) small
  have shift : (UInt64.ofNat (8*n)).toNat % 64 = 8*n := by
    rw [UInt64.toNat_ofNat']; omega
  apply UInt64.toNat_inj.mp
  rw [UInt64.toNat_or,UInt64.toNat_shiftLeft,shift,UInt8.toNat_toUInt64,Nat.mod_eq_of_lt shifted,
    UInt64.toNat_ofNat',UInt64.toNat_ofNat',Nat.mod_eq_of_lt (by omega),Nat.mod_eq_of_lt (by omega),
    ofLeBytes_take_succ]

private theorem or_byte_u32 (bytes : List UInt8) (n : Nat) (small : n < 4) :
    UInt32.ofNat (ofLeBytes (bytes.take n)) ||| ((bytes.getD n 0).toUInt32 <<< UInt32.ofNat (8*n)) =
      UInt32.ofNat (ofLeBytes (bytes.take (n+1))) := by
  have below := ofLeBytes_take_lt bytes (n+1)
  have belowN := ofLeBytes_take_lt bytes n
  have wide : 2 ^ (8*(n+1)) ≤ 2 ^ 32 := Nat.pow_le_pow_right (by norm_num) (by omega)
  have wideN : 2 ^ (8*n) ≤ 2 ^ 32 := Nat.pow_le_pow_right (by norm_num) (by omega)
  have shifted := shift_byte_lt (bytes.getD n 0) small
  have shift : (UInt32.ofNat (8*n)).toNat % 32 = 8*n := by
    rw [UInt32.toNat_ofNat']; omega
  apply UInt32.toNat_inj.mp
  rw [UInt32.toNat_or,UInt32.toNat_shiftLeft,shift,UInt8.toNat_toUInt32,Nat.mod_eq_of_lt shifted,
    UInt32.toNat_ofNat',UInt32.toNat_ofNat',Nat.mod_eq_of_lt (by omega),Nat.mod_eq_of_lt (by omega),
    ofLeBytes_take_succ]

private theorem getD_pos (bytes : List UInt8) (pos n : Nat) :
    bytes.getD (pos+n) 0 = (bytes.drop pos).getD n 0 := by
  simp [List.getD_eq_getElem?_getD]

/-- The C++ loop over eight bytes reads the number that they spell. -/
theorem cpp_u64 (r : CppCodec.LeReader) :
    r.u64 = (UInt64.ofNat (ofLeBytes ((r.bytes.drop r.pos).take 8)),⟨r.bytes,r.pos+8⟩) := by
  -- The loop invariant: after `n` bytes, their number and the moved cursor.
  have upTo : ∀ n ≤ 8, (List.range n).foldl (fun (p : UInt64 × CppCodec.LeReader) i =>
      (p.1 ||| (p.2.u8.1.toUInt64 <<< UInt64.ofNat (8*i)),p.2.u8.2)) (0,r) =
        (UInt64.ofNat (ofLeBytes ((r.bytes.drop r.pos).take n)),⟨r.bytes,r.pos+n⟩) := by
    intro n
    induction n with
    | zero => intro _; simp [ofLeBytes]
    | succ n ih =>
      intro small
      rw [List.range_succ,List.foldl_append,ih (by omega)]
      simp only [List.foldl_cons,List.foldl_nil,CppCodec.LeReader.u8,getD_pos]
      rw [or_byte_u64 _ n (by omega),Nat.add_assoc]
  exact upTo 8 le_rfl

/-- The C++ loop over four bytes reads the number that they spell. -/
theorem cpp_u32 (r : CppCodec.LeReader) :
    r.u32 = (UInt32.ofNat (ofLeBytes ((r.bytes.drop r.pos).take 4)),⟨r.bytes,r.pos+4⟩) := by
  have upTo : ∀ n ≤ 4, (List.range n).foldl (fun (p : UInt32 × CppCodec.LeReader) i =>
      (p.1 ||| (p.2.u8.1.toUInt32 <<< UInt32.ofNat (8*i)),p.2.u8.2)) (0,r) =
        (UInt32.ofNat (ofLeBytes ((r.bytes.drop r.pos).take n)),⟨r.bytes,r.pos+n⟩) := by
    intro n
    induction n with
    | zero => intro _; simp [ofLeBytes]
    | succ n ih =>
      intro small
      rw [List.range_succ,List.foldl_append,ih (by omega)]
      simp only [List.foldl_cons,List.foldl_nil,CppCodec.LeReader.u8,getD_pos]
      rw [or_byte_u32 _ n (by omega),Nat.add_assoc]
  exact upTo 4 le_rfl

theorem side_tables (byte : UInt8) : CppCodec.sideFromByte byte = RustCodec.Side.fromByte byte := rfl
theorem kind_tables (byte : UInt8) : CppCodec.ackKindFromByte byte = RustCodec.AckKind.fromByte byte := rfl
theorem reason_tables (byte : UInt8) :
    CppCodec.rejectReasonFromByte byte = RustCodec.RejectReason.fromByte byte := rfl
theorem type_tables (byte : UInt8) :
    CppCodec.messageTypeFromByte byte = RustCodec.MessageType.fromByte byte := rfl

theorem messageLen_eq (type : MessageType) :
    CppCodec.messageLen type = some (RustCodec.MessageType.encodedLen type) := by
  cases type <;> rfl
theorem encodedLenOf_eq (msg : BinaryMessage) : CppCodec.encodedLenOf msg = typeLength (messageType msg) := by
  cases msg <;> rfl
theorem encodedLen_eq (msg : BinaryMessage) : RustCodec.encodedLen msg = typeLength (messageType msg) := by
  cases msg <;> rfl

theorem priceTicksInRange_iff (p : UInt64) : CppCodec.priceTicksInRange p = true ↔ PriceOk p := by
  simp [CppCodec.priceTicksInRange,PriceOk]
theorem quantityInRange_iff (q : UInt32) : CppCodec.quantityInRange q = true ↔ QuantityOk q := by
  simp [CppCodec.quantityInRange,QuantityOk]

theorem checkPrice_eq (p : UInt64) :
    RustCodec.checkPrice p = if PriceOk p then .ok () else .error (.FieldOutOfRange "price_ticks") := by
  have same : (p < RustCodec.limits.MIN_PRICE_TICKS ∨ p > RustCodec.limits.MAX_PRICE_TICKS) ↔ ¬ PriceOk p := by
    simp only [PriceOk,RustCodec.limits.MIN_PRICE_TICKS,RustCodec.limits.MAX_PRICE_TICKS,limits.kMinPriceTicks,
      limits.kMaxPriceTicks,UInt64.lt_iff_toNat_lt,UInt64.le_iff_toNat_le,gt_iff_lt]
    omega
  by_cases ok : PriceOk p
  · simp [RustCodec.checkPrice,same,ok]
  · simp [RustCodec.checkPrice,same,ok]
theorem checkQuantity_eq (q : UInt32) :
    RustCodec.checkQuantity q = if QuantityOk q then .ok () else .error (.FieldOutOfRange "quantity") := by
  have same : (q < RustCodec.limits.MIN_GATEWAY_QUANTITY ∨ q > RustCodec.limits.MAX_GATEWAY_QUANTITY) ↔
      ¬ QuantityOk q := by
    simp only [QuantityOk,RustCodec.limits.MIN_GATEWAY_QUANTITY,RustCodec.limits.MAX_GATEWAY_QUANTITY,
      limits.kMinGatewayQuantity,limits.kMaxGatewayQuantity,UInt32.lt_iff_toNat_lt,UInt32.le_iff_toNat_le,gt_iff_lt]
    omega
  by_cases ok : QuantityOk q
  · simp [RustCodec.checkQuantity,same,ok]
  · simp [RustCodec.checkQuantity,same,ok]

/-- The two range checks at the end of a message with a price and a quantity. -/
private theorem range_checks_agree (p : UInt64) (q : UInt32) (msg : BinaryMessage) :
    (if !CppCodec.priceTicksInRange p then
        (.error (.fieldOutOfRange "price_ticks") : CppCodec.CodecResult BinaryMessage)
      else if !CppCodec.quantityInRange q then .error (.fieldOutOfRange "quantity") else .ok msg).mapError asRust =
    (do RustCodec.checkPrice p; RustCodec.checkQuantity q; .ok msg) := by
  rw [checkPrice_eq,checkQuantity_eq]
  by_cases price : PriceOk p
  · by_cases quantity : QuantityOk q
    · simp [price,quantity,(priceTicksInRange_iff p).mpr price,(quantityInRange_iff q).mpr quantity,Except.mapError,
        bind,Except.bind]
    · have bad : CppCodec.quantityInRange q = false := by
        simpa using mt (quantityInRange_iff q).mp quantity
      simp [price,quantity,(priceTicksInRange_iff p).mpr price,bad,Except.mapError,bind,Except.bind,asRust,
        CppCodec.CodecError.fieldOutOfRange]
  · have bad : CppCodec.priceTicksInRange p = false := by
      simpa using mt (priceTicksInRange_iff p).mp price
    simp [price,bad,Except.mapError,bind,Except.bind,asRust,CppCodec.CodecError.fieldOutOfRange]

/-- The two switches read a message alike: the C++ cursor stands one byte
    further, past the type byte that the Rust reader does not see. -/
theorem decodeFields_agree (type : MessageType) (first : UInt8) (rest : List UInt8) :
    (CppCodec.decodeFields type ⟨first :: rest,1⟩).mapError asRust = RustCodec.decodeFields type ⟨rest,0⟩ := by
  have byteAt : ∀ n, CppCodec.LeReader.u8 ⟨first :: rest,n+1⟩ = (rest.getD n 0,⟨first :: rest,n+2⟩) := by
    intro n; simp [CppCodec.LeReader.u8]
  cases type with
  | NewOrder =>
    simp only [CppCodec.decodeFields,RustCodec.decodeFields,cpp_u64,cpp_u32,byteAt,RustCodec.Reader.getU64,
      RustCodec.Reader.getU32,RustCodec.Reader.getU8,side_tables]
    cases RustCodec.Side.fromByte (rest.getD 8 0) with
    | none => rfl
    | some side => exact range_checks_agree _ _ _
  | CancelOrder => simp [CppCodec.decodeFields,RustCodec.decodeFields,cpp_u64,RustCodec.Reader.getU64,Except.mapError]
  | Trade =>
    simp only [CppCodec.decodeFields,RustCodec.decodeFields,cpp_u64,cpp_u32,RustCodec.Reader.getU64,
      RustCodec.Reader.getU32]
    exact range_checks_agree _ _ _
  | Ack =>
    simp only [CppCodec.decodeFields,RustCodec.decodeFields,cpp_u64,byteAt,RustCodec.Reader.getU64,
      RustCodec.Reader.getU8,kind_tables]
    cases RustCodec.AckKind.fromByte (rest.getD 8 0) with
    | none => rfl
    | some kind => rfl
  | Reject =>
    simp only [CppCodec.decodeFields,RustCodec.decodeFields,cpp_u64,byteAt,RustCodec.Reader.getU64,
      RustCodec.Reader.getU8,reason_tables]
    cases RustCodec.RejectReason.fromByte (rest.getD 8 0) with
    | none => rfl
    | some reason => rfl

/-- Both decoders give the same message or the same error on every byte string. -/
theorem cppDecode_eq (bytes : List UInt8) : cppDecode bytes = RustCodec.decode bytes := by
  cases bytes with
  | nil => rfl
  | cons first rest =>
    simp only [cppDecode,CppCodec.decode,RustCodec.decode,type_tables,messageLen_eq,List.head?_cons,Option.elim_some]
    cases known : RustCodec.MessageType.fromByte first with
    | none => simp [known,Except.mapError,asRust,CppCodec.CodecError.unknownTypeError,bind,Except.bind]
    | some type =>
      simp only [known,Option.elim_some,bind,Except.bind]
      by_cases short : (first :: rest).length < RustCodec.MessageType.encodedLen type
      · rw [if_pos short,if_pos short]; rfl
      · rw [if_neg short,if_neg short]
        by_cases long : (first :: rest).length > RustCodec.MessageType.encodedLen type
        · rw [if_pos long,if_pos long]; rfl
        · rw [if_neg long,if_neg long]
          exact decodeFields_agree type first rest

/-! ### The Rust decoder and the format -/

private theorem byte_cases (b : UInt8) (n : Nat) (small : n < 256) : b = UInt8.ofNat n ↔ b.toNat = n := by
  rw [← UInt8.toNat_inj,UInt8.toNat_ofNat']
  have : n % 2 ^ 8 = n := Nat.mod_eq_of_lt small
  rw [this]

private theorem two_le {byte : UInt8} (h0 : byte ≠ 0) (h1 : byte ≠ 1) : 2 ≤ byte.toNat := by
  have n0 := mt (byte_cases byte 0 (by omega)).mpr h0
  have n1 := mt (byte_cases byte 1 (by omega)).mpr h1
  omega

private theorem five_le {byte : UInt8} (h0 : byte ≠ 0) (h1 : byte ≠ 1) (h2 : byte ≠ 2) (h3 : byte ≠ 3) (h4 : byte ≠ 4) :
    5 ≤ byte.toNat := by
  have n1 := two_le h0 h1
  have n2 := mt (byte_cases byte 2 (by omega)).mpr h2
  have n3 := mt (byte_cases byte 3 (by omega)).mpr h3
  have n4 := mt (byte_cases byte 4 (by omega)).mpr h4
  omega

theorem type_fromByte (byte : UInt8) : RustCodec.MessageType.fromByte byte = messageTypes[byte.toNat]? := by
  unfold RustCodec.MessageType.fromByte
  split
  · rfl
  · rfl
  · rfl
  · rfl
  · rfl
  · rename_i h0 h1 h2 h3 h4
    have big : messageTypes.length ≤ byte.toNat := five_le h0 h1 h2 h3 h4
    exact (List.getElem?_eq_none_iff.mpr big).symm

/-- An enumeration byte names a choice exactly when it is below their number. -/
theorem side_choice (byte : UInt8) : (RustCodec.Side.fromByte byte = none ∧ ¬ byte.toNat < 2) ∨
    ∃ side, RustCodec.Side.fromByte byte = some side ∧ byte.toNat < 2 ∧ sideIndex side = byte.toNat := by
  unfold RustCodec.Side.fromByte
  split
  · exact .inr ⟨.Buy,rfl,by decide,rfl⟩
  · exact .inr ⟨.Sell,rfl,by decide,rfl⟩
  · rename_i h0 h1
    exact .inl ⟨rfl,Nat.not_lt.mpr (two_le h0 h1)⟩

theorem kind_choice (byte : UInt8) : (RustCodec.AckKind.fromByte byte = none ∧ ¬ byte.toNat < 2) ∨
    ∃ kind, RustCodec.AckKind.fromByte byte = some kind ∧ byte.toNat < 2 ∧ kindIndex kind = byte.toNat := by
  unfold RustCodec.AckKind.fromByte
  split
  · exact .inr ⟨.Accepted,rfl,by decide,rfl⟩
  · exact .inr ⟨.Cancelled,rfl,by decide,rfl⟩
  · rename_i h0 h1
    exact .inl ⟨rfl,Nat.not_lt.mpr (two_le h0 h1)⟩

theorem reason_choice (byte : UInt8) : (RustCodec.RejectReason.fromByte byte = none ∧ ¬ byte.toNat < 5) ∨
    ∃ reason, RustCodec.RejectReason.fromByte byte = some reason ∧ byte.toNat < 5 ∧
      reasonIndex reason = byte.toNat := by
  unfold RustCodec.RejectReason.fromByte
  split
  · exact .inr ⟨.InvalidPrice,rfl,by decide,rfl⟩
  · exact .inr ⟨.InvalidQuantity,rfl,by decide,rfl⟩
  · exact .inr ⟨.OrderNotFound,rfl,by decide,rfl⟩
  · exact .inr ⟨.NoLongerResting,rfl,by decide,rfl⟩
  · exact .inr ⟨.IntegrityViolation,rfl,by decide,rfl⟩
  · rename_i h0 h1 h2 h3 h4
    exact .inl ⟨rfl,Nat.not_lt.mpr (five_le h0 h1 h2 h3 h4)⟩

theorem ofLeBytes_take_one (bytes : List UInt8) : ofLeBytes (bytes.take 1) = (bytes.headD 0).toNat := by
  cases bytes <;> simp [ofLeBytes]

theorem priceOk_read (bytes : List UInt8) :
    PriceOk (UInt64.ofNat (ofLeBytes (bytes.take 8))) ↔ priceField.permitted (ofLeBytes (bytes.take 8)) = true := by
  have small : ofLeBytes (bytes.take 8) < 2 ^ 64 := ofLeBytes_take_lt bytes 8
  simp only [PriceOk,limits.kMinPriceTicks,limits.kMaxPriceTicks,UInt64.le_iff_toNat_le,UInt64.toNat_ofNat',
    Nat.mod_eq_of_lt small,priceField,decide_eq_true_eq]
  rfl

theorem quantityOk_read (bytes : List UInt8) :
    QuantityOk (UInt32.ofNat (ofLeBytes (bytes.take 4))) ↔
      quantityField.permitted (ofLeBytes (bytes.take 4)) = true := by
  have small : ofLeBytes (bytes.take 4) < 2 ^ 32 := ofLeBytes_take_lt bytes 4
  simp only [QuantityOk,limits.kMinGatewayQuantity,limits.kMaxGatewayQuantity,UInt32.le_iff_toNat_le,
    UInt32.toNat_ofNat',Nat.mod_eq_of_lt small,quantityField,decide_eq_true_eq]
  rfl

/-- The two range checks of the Rust switch, by the table. -/
private theorem range_checks (prices quantities : List UInt8) (msg : BinaryMessage) :
    (do RustCodec.checkPrice (UInt64.ofNat (ofLeBytes (prices.take 8)))
        RustCodec.checkQuantity (UInt32.ofNat (ofLeBytes (quantities.take 4)))
        .ok msg : Except CodecError BinaryMessage) =
      if priceField.permitted (ofLeBytes (prices.take 8)) then
        if quantityField.permitted (ofLeBytes (quantities.take 4)) then .ok msg
        else .error (.FieldOutOfRange "quantity")
      else .error (.FieldOutOfRange "price_ticks") := by
  rw [checkPrice_eq,checkQuantity_eq]
  simp only [priceOk_read,quantityOk_read]
  split
  · split <;> simp [bind,Except.bind]
  · simp [bind,Except.bind]

/-- What the Rust switch makes of the bytes after the type byte, by the table:
    the first offending field, or the message with the values of the fields. -/
def Switched (type : MessageType) (rest : List UInt8) (result : Except CodecError BinaryMessage) : Prop :=
  match firstOffending (fields type) rest with
  | some name => result = .error (.FieldOutOfRange name)
  | none => ∃ msg, result = .ok msg ∧ messageType msg = type ∧ fieldValues msg = readValues (fields type) rest ∧
      InRange msg

theorem decodeFields_switched (type : MessageType) (rest : List UInt8) :
    Switched type rest (RustCodec.decodeFields type ⟨rest,0⟩) := by
  have u64 : ∀ bytes : List UInt8, (UInt64.ofNat (ofLeBytes (bytes.take 8))).toNat = ofLeBytes (bytes.take 8) := by
    intro bytes
    rw [UInt64.toNat_ofNat',Nat.mod_eq_of_lt (ofLeBytes_take_lt bytes 8)]
  have u32 : ∀ bytes : List UInt8, (UInt32.ofNat (ofLeBytes (bytes.take 4))).toNat = ofLeBytes (bytes.take 4) := by
    intro bytes
    rw [UInt32.toNat_ofNat',Nat.mod_eq_of_lt (ofLeBytes_take_lt bytes 4)]
  have u8 : ofLeBytes ((rest.drop 8).take 1) = (rest.getD 8 0).toNat := by
    rw [ofLeBytes_take_one]; simp [List.headD_eq_head?_getD]
  cases type with
  | NewOrder =>
    simp only [Switched,fields,firstOffending,idField,choiceField,readValues,RustCodec.decodeFields,
      RustCodec.Reader.getU64,RustCodec.Reader.getU32,RustCodec.Reader.getU8,if_true,List.drop_drop,List.drop_zero,
      Nat.zero_add,Nat.reduceAdd,u8,show priceField.width = 8 from rfl,show quantityField.width = 4 from rfl]
    rcases side_choice (rest.getD 8 0) with ⟨bad,large⟩ | ⟨side,good,small,index⟩
    · simp only [bad,large,decide_false,Bool.false_eq_true,if_false]; rfl
    · simp only [good,small,decide_true,if_true,Option.elim_some,bind,Except.bind]
      have checks := range_checks (rest.drop 9) (rest.drop 17)
      simp only [bind,Except.bind] at checks
      rw [checks]
      by_cases price : priceField.permitted (ofLeBytes ((rest.drop 9).take 8)) = true
      · by_cases quantity : quantityField.permitted (ofLeBytes ((rest.drop 17).take 4)) = true
        · simp only [price,quantity,if_true]
          refine ⟨_,rfl,rfl,?_,(priceOk_read _).mpr price,(quantityOk_read _).mpr quantity⟩
          simp only [fieldValues,u64,u32,index]
        · simp only [price,quantity,if_true,if_false]; rfl
      · simp only [price,if_false]; rfl
  | CancelOrder =>
    simp only [Switched,fields,firstOffending,idField,readValues,RustCodec.decodeFields,RustCodec.Reader.getU64,
      if_true,List.drop_zero]
    exact ⟨_,rfl,rfl,by simp only [fieldValues,u64],trivial⟩
  | Trade =>
    simp only [Switched,fields,firstOffending,idField,readValues,RustCodec.decodeFields,RustCodec.Reader.getU64,
      RustCodec.Reader.getU32,if_true,List.drop_drop,List.drop_zero,Nat.zero_add,Nat.reduceAdd,
      show priceField.width = 8 from rfl,show quantityField.width = 4 from rfl]
    rw [range_checks (rest.drop 8) (rest.drop 16)]
    by_cases price : priceField.permitted (ofLeBytes ((rest.drop 8).take 8)) = true
    · by_cases quantity : quantityField.permitted (ofLeBytes ((rest.drop 16).take 4)) = true
      · simp only [price,quantity,if_true]
        refine ⟨_,rfl,rfl,?_,(priceOk_read _).mpr price,(quantityOk_read _).mpr quantity⟩
        simp only [fieldValues,u64,u32]
      · simp only [price,quantity,if_true,if_false]; rfl
    · simp only [price,if_false]; rfl
  | Ack =>
    simp only [Switched,fields,firstOffending,idField,choiceField,readValues,RustCodec.decodeFields,
      RustCodec.Reader.getU64,RustCodec.Reader.getU8,if_true,List.drop_zero,Nat.zero_add,u8]
    rcases kind_choice (rest.getD 8 0) with ⟨bad,large⟩ | ⟨kind,good,small,index⟩
    · simp only [bad,large,decide_false,Bool.false_eq_true,if_false]; rfl
    · simp only [good,small,decide_true,if_true,Option.elim_some,bind,Except.bind]
      exact ⟨_,rfl,rfl,by simp only [fieldValues,u64,index],trivial⟩
  | Reject =>
    simp only [Switched,fields,firstOffending,idField,choiceField,readValues,RustCodec.decodeFields,
      RustCodec.Reader.getU64,RustCodec.Reader.getU8,if_true,List.drop_zero,Nat.zero_add,u8]
    rcases reason_choice (rest.getD 8 0) with ⟨bad,large⟩ | ⟨reason,good,small,index⟩
    · simp only [bad,large,decide_false,Bool.false_eq_true,if_false]; rfl
    · simp only [good,small,decide_true,if_true,Option.elim_some,bind,Except.bind]
      exact ⟨_,rfl,rfl,by simp only [fieldValues,u64,index],trivial⟩

theorem typeLength_eq (type : MessageType) : RustCodec.MessageType.encodedLen type = typeLength type := by
  cases type <;> rfl

private theorem typeByte_of_index {byte : UInt8} {type : MessageType} (known : messageTypes[byte.toNat]? = some type) :
    UInt8.ofNat (messageTypes.idxOf type) = byte := by
  have distinct : messageTypes.Nodup := by decide
  obtain ⟨inside,value⟩ := List.getElem?_eq_some_iff.mp known
  rw [← value,distinct.idxOf_getElem,UInt8.ofNat_toNat]

/-- The Rust decoder gives the fault of a byte string, or the message that has
    these bytes. -/
theorem decode_decided (bytes : List UInt8) :
    match fault bytes with
    | some error => RustCodec.decode bytes = .error error
    | none => ∃ msg, RustCodec.decode bytes = .ok msg ∧ InRange msg ∧ bytes = bytesOf msg := by
  cases bytes with
  | nil => rfl
  | cons first rest =>
    simp only [fault,RustCodec.decode,List.head?_cons,Option.elim_some,type_fromByte,bind,Except.bind]
    cases known : messageTypes[first.toNat]? with
    | none => rfl
    | some type =>
      simp only [Option.elim_some,typeLength_eq]
      by_cases short : (first :: rest).length < typeLength type
      · rw [if_pos short,if_pos short]
      · rw [if_neg short,if_neg short]
        by_cases long : (first :: rest).length > typeLength type
        · rw [if_pos long,if_pos long]
        · rw [if_neg long,if_neg long]
          have switched := decodeFields_switched type rest
          unfold Switched at switched
          cases clean : firstOffending (fields type) rest with
          | some name => rw [clean] at switched; exact switched
          | none =>
            rw [clean] at switched
            obtain ⟨msg,read,isType,values,ok⟩ := switched
            refine ⟨msg,read,ok,?_⟩
            have whole : rest.length = ((fields type).map Field.width).sum := by
              simp only [List.length_cons,typeLength] at short long; omega
            have written := write_readValues (fields type) rest whole
            rw [bytesOf_eq,fieldBytes,isType,values,written,typeByte_of_index known]

/-! ### Writing -/

/-- A buffer whose front was overwritten by the given bytes. -/
def Overwritten (out written after : List UInt8) : Prop := after = written ++ out.drop written.length

private theorem set_overwritten {out written after : List UInt8} (front : Overwritten out written after)
    (room : written.length < out.length) (v : UInt8) :
    Overwritten out (written ++ [v]) (after.set written.length v) := by
  unfold Overwritten at *
  have rest : (out.drop written.length).set 0 v = v :: out.drop (written.length+1) := by
    rw [List.drop_eq_getElem_cons room,List.set_cons_zero]
  rw [front,List.set_append_right _ _ le_rfl,Nat.sub_self,rest]
  simp

/-- The C++ cursor stands behind the bytes written so far. -/
def CppWrote (out written : List UInt8) (w : CppCodec.LeWriter) : Prop :=
  Overwritten out written w.out ∧ w.pos = written.length

theorem cpp_wrote_u8 {out written : List UInt8} {w : CppCodec.LeWriter} (wrote : CppWrote out written w)
    (room : written.length < out.length) (v : UInt8) : CppWrote out (written ++ [v]) (w.u8 v) := by
  obtain ⟨front,pos⟩ := wrote
  refine ⟨?_,by simp [CppCodec.LeWriter.u8,pos]⟩
  rw [CppCodec.LeWriter.u8,pos]
  exact set_overwritten front room v

private theorem shift_byte_u64 (v : UInt64) {i : Nat} (small : i < 8) :
    ((v >>> UInt64.ofNat (8*i)) &&& 0xFF).toUInt8 = UInt8.ofNat (v.toNat >>> (8*i)) := by
  have shift : (UInt64.ofNat (8*i)).toNat % 64 = 8*i := by
    rw [UInt64.toNat_ofNat']; omega
  apply UInt8.toNat_inj.mp
  rw [UInt64.toNat_toUInt8,UInt64.toNat_and,UInt64.toNat_shiftRight,shift,UInt8.toNat_ofNat',
    show (0xFF : UInt64).toNat = 2 ^ 8 - 1 from rfl,Nat.and_two_pow_sub_one_eq_mod,Nat.mod_mod]

private theorem shift_byte_u32 (v : UInt32) {i : Nat} (small : i < 4) :
    ((v >>> UInt32.ofNat (8*i)) &&& 0xFF).toUInt8 = UInt8.ofNat (v.toNat >>> (8*i)) := by
  have shift : (UInt32.ofNat (8*i)).toNat % 32 = 8*i := by
    rw [UInt32.toNat_ofNat']; omega
  apply UInt8.toNat_inj.mp
  rw [UInt32.toNat_toUInt8,UInt32.toNat_and,UInt32.toNat_shiftRight,shift,UInt8.toNat_ofNat',
    show (0xFF : UInt32).toNat = 2 ^ 8 - 1 from rfl,Nat.and_two_pow_sub_one_eq_mod,Nat.mod_mod]

theorem cpp_wrote_u64 {out written : List UInt8} {w : CppCodec.LeWriter} (wrote : CppWrote out written w)
    (room : written.length + 8 ≤ out.length) (v : UInt64) :
    CppWrote out (written ++ leBytes 8 v.toNat) (w.u64 v) := by
  -- After `n` turns of the loop the low `n` bytes are written.
  have upTo : ∀ n ≤ 8, CppWrote out (written ++ leBytes n v.toNat)
      ((List.range n).foldl (fun w i => w.u8 ((v >>> UInt64.ofNat (8*i)) &&& 0xFF).toUInt8) w) := by
    intro n
    induction n with
    | zero => intro _; simpa [leBytes] using wrote
    | succ n ih =>
      intro small
      have next := cpp_wrote_u8 (ih (by omega)) (by simp; omega) ((v >>> UInt64.ofNat (8*n)) &&& 0xFF).toUInt8
      rw [List.range_succ,List.foldl_append,leBytes_eq_map_shift,List.range_succ,List.map_append,← List.append_assoc,
        ← leBytes_eq_map_shift]
      simpa only [List.foldl_cons,List.foldl_nil,List.map_cons,List.map_nil,shift_byte_u64 v (by omega : n < 8)]
        using next
  exact upTo 8 le_rfl

theorem cpp_wrote_u32 {out written : List UInt8} {w : CppCodec.LeWriter} (wrote : CppWrote out written w)
    (room : written.length + 4 ≤ out.length) (v : UInt32) :
    CppWrote out (written ++ leBytes 4 v.toNat) (w.u32 v) := by
  have b0 := shift_byte_u32 v (by omega : 0 < 4)
  have b1 := shift_byte_u32 v (by omega : 1 < 4)
  have b2 := shift_byte_u32 v (by omega : 2 < 4)
  have b3 := shift_byte_u32 v (by omega : 3 < 4)
  have bytes : leBytes 4 v.toNat = [(v &&& 0xFF).toUInt8] ++ [((v >>> 8) &&& 0xFF).toUInt8] ++
      [((v >>> 16) &&& 0xFF).toUInt8] ++ [((v >>> 24) &&& 0xFF).toUInt8] := by
    rw [leBytes_eq_map_shift]
    simp only [List.range,List.range.loop,List.map_cons,List.map_nil,← b0,← b1,← b2,← b3]
    simp
  have first := cpp_wrote_u8 wrote (by omega) (v &&& 0xFF).toUInt8
  have second := cpp_wrote_u8 first (by simp; omega) ((v >>> 8) &&& 0xFF).toUInt8
  have third := cpp_wrote_u8 second (by simp; omega) ((v >>> 16) &&& 0xFF).toUInt8
  have fourth := cpp_wrote_u8 third (by simp; omega) ((v >>> 24) &&& 0xFF).toUInt8
  rw [bytes,CppCodec.LeWriter.u32]
  simpa only [List.append_assoc] using fourth

/-- The Rust cursor stands behind the bytes written so far. -/
def RustWrote (out written : List UInt8) (w : RustCodec.Writer) : Prop :=
  Overwritten out written w.buf ∧ w.pos = written.length

theorem rust_wrote_u8 {out written : List UInt8} {w : RustCodec.Writer} (wrote : RustWrote out written w)
    (room : written.length < out.length) (v : UInt8) : RustWrote out (written ++ [v]) (w.putU8 v) := by
  obtain ⟨front,pos⟩ := wrote
  refine ⟨?_,by simp [RustCodec.Writer.putU8,pos]⟩
  rw [RustCodec.Writer.putU8,pos]
  exact set_overwritten front room v

theorem rust_wrote_slice {out written : List UInt8} {w : RustCodec.Writer} (wrote : RustWrote out written w)
    (bytes : List UInt8) : RustWrote out (written ++ bytes) (w.copyFromSlice bytes) := by
  obtain ⟨front,pos⟩ := wrote
  refine ⟨?_,by simp [RustCodec.Writer.copyFromSlice,pos]⟩
  unfold Overwritten at *
  simp only [RustCodec.Writer.copyFromSlice,pos,front,List.take_left',List.length_append]
  rw [List.drop_append,List.drop_of_length_le (by omega)]
  simp [Nat.add_comm]

theorem fieldBytes_length (msg : BinaryMessage) : (fieldBytes msg).length + 1 = typeLength (messageType msg) := by
  have whole := bytesOf_length msg
  rwa [bytesOf_eq,List.length_cons] at whole

theorem cpp_side_byte (side : Side) : CppCodec.sideAsByte side = UInt8.ofNat (sideIndex side) := by
  cases side <;> rfl
theorem cpp_kind_byte (kind : AckKind) : CppCodec.ackKindAsByte kind = UInt8.ofNat (kindIndex kind) := by
  cases kind <;> rfl
theorem cpp_reason_byte (reason : RejectReason) :
    CppCodec.rejectReasonAsByte reason = UInt8.ofNat (reasonIndex reason) := by
  cases reason <;> rfl
theorem cpp_type_byte (type : MessageType) :
    CppCodec.messageTypeAsByte type = UInt8.ofNat (messageTypes.idxOf type) := by
  cases type <;> rfl

/-- The C++ visitor writes the fields of a message in range behind its type
    byte. -/
theorem cpp_encodeFields {out : List UInt8} (msg : BinaryMessage) (room : typeLength (messageType msg) ≤ out.length)
    {w : CppCodec.LeWriter} {first : UInt8} (wrote : CppWrote out [first] w) (ok : InRange msg) :
    CppCodec.encodeFields w msg =
      (.ok (typeLength (messageType msg)),(first :: fieldBytes msg) ++ out.drop (typeLength (messageType msg))) := by
  have finish : ∀ w' : CppCodec.LeWriter, CppWrote out ([first] ++ fieldBytes msg) w' →
      ((.ok w'.pos,w'.out) : CppCodec.CodecResult Nat × List UInt8) =
        (.ok (typeLength (messageType msg)),(first :: fieldBytes msg) ++ out.drop (typeLength (messageType msg))) := by
    intro w' ⟨front,pos⟩
    have whole := fieldBytes_length msg
    rw [front,pos]
    simp [whole,Nat.add_comm 1]
  cases msg with
  | newOrder m =>
    have space : 30 ≤ out.length := room
    simp only [CppCodec.encodeFields,(priceTicksInRange_iff _).mpr ok.1,(quantityInRange_iff _).mpr ok.2,Bool.not_true,
      Bool.false_eq_true,if_false]
    apply finish
    have id := cpp_wrote_u64 wrote (by simp; omega) m.orderId
    have side := cpp_wrote_u8 id (by simp; omega) (CppCodec.sideAsByte m.side)
    have price := cpp_wrote_u64 side (by simp; omega) m.priceTicks
    have quantity := cpp_wrote_u32 price (by simp; omega) m.quantity
    have seq := cpp_wrote_u64 quantity (by simp; omega) m.seq
    simpa only [fieldBytes_newOrder,List.append_assoc,cpp_side_byte] using seq
  | cancelOrder m =>
    have space : 9 ≤ out.length := room
    apply finish
    simpa only [fieldBytes_cancelOrder] using cpp_wrote_u64 wrote (by simp; omega) m.orderId
  | trade m =>
    have space : 37 ≤ out.length := room
    simp only [CppCodec.encodeFields,(priceTicksInRange_iff _).mpr ok.1,(quantityInRange_iff _).mpr ok.2,Bool.not_true,
      Bool.false_eq_true,if_false]
    apply finish
    have exec := cpp_wrote_u64 wrote (by simp; omega) m.execSeq
    have price := cpp_wrote_u64 exec (by simp; omega) m.priceTicks
    have quantity := cpp_wrote_u32 price (by simp; omega) m.quantity
    have incoming := cpp_wrote_u64 quantity (by simp; omega) m.incomingId
    have resting := cpp_wrote_u64 incoming (by simp; omega) m.restingId
    simpa only [fieldBytes_trade,List.append_assoc] using resting
  | ack m =>
    have space : 10 ≤ out.length := room
    apply finish
    have id := cpp_wrote_u64 wrote (by simp; omega) m.orderId
    have kind := cpp_wrote_u8 id (by simp; omega) (CppCodec.ackKindAsByte m.kind)
    simpa only [fieldBytes_ack,List.append_assoc,cpp_kind_byte] using kind
  | reject m =>
    have space : 10 ≤ out.length := room
    apply finish
    have id := cpp_wrote_u64 wrote (by simp; omega) m.orderId
    have reason := cpp_wrote_u8 id (by simp; omega) (CppCodec.rejectReasonAsByte m.reason)
    simpa only [fieldBytes_reject,List.append_assoc,cpp_reason_byte] using reason

/-- The name of the field that both encoders refuse first. -/
def refusedField (msg : BinaryMessage) : String :=
  match msg with
  | .newOrder m => if PriceOk m.priceTicks then "quantity" else "price_ticks"
  | .trade m => if PriceOk m.priceTicks then "quantity" else "price_ticks"
  | _ => ""

/-- The C++ visitor refuses a message out of range and leaves the buffer as it
    finds it, with the type byte already in it. -/
theorem cpp_encodeFields_refuses (msg : BinaryMessage) (w : CppCodec.LeWriter) (bad : ¬ InRange msg) :
    CppCodec.encodeFields w msg = (.error (.fieldOutOfRange (refusedField msg)),w.out) := by
  have step : ∀ (p : UInt64) (q : UInt32) (after : CppCodec.CodecResult Nat × List UInt8),
      ¬ (PriceOk p ∧ QuantityOk q) →
      (if !CppCodec.priceTicksInRange p then (.error (.fieldOutOfRange "price_ticks"),w.out)
        else if !CppCodec.quantityInRange q then (.error (.fieldOutOfRange "quantity"),w.out) else after) =
      (.error (.fieldOutOfRange (if PriceOk p then "quantity" else "price_ticks")),w.out) := by
    intro p q after bad
    by_cases price : PriceOk p
    · have quantity : CppCodec.quantityInRange q = false := by
        simpa using mt (quantityInRange_iff q).mp (fun ok => bad ⟨price,ok⟩)
      simp [price,(priceTicksInRange_iff p).mpr price,quantity]
    · have refused : CppCodec.priceTicksInRange p = false := by
        simpa using mt (priceTicksInRange_iff p).mp price
      simp [price,refused]
  cases msg with
  | newOrder m => exact step m.priceTicks m.quantity _ bad
  | trade m => exact step m.priceTicks m.quantity _ bad
  | cancelOrder m => exact absurd trivial bad
  | ack m => exact absurd trivial bad
  | reject m => exact absurd trivial bad

theorem rust_side_byte (side : Side) : RustCodec.Side.asByte side = UInt8.ofNat (sideIndex side) := by
  cases side <;> rfl
theorem rust_kind_byte (kind : AckKind) : RustCodec.AckKind.asByte kind = UInt8.ofNat (kindIndex kind) := by
  cases kind <;> rfl
theorem rust_reason_byte (reason : RejectReason) :
    RustCodec.RejectReason.asByte reason = UInt8.ofNat (reasonIndex reason) := by
  cases reason <;> rfl
theorem rust_type_byte (type : MessageType) :
    RustCodec.MessageType.asByte type = UInt8.ofNat (messageTypes.idxOf type) := by
  cases type <;> rfl

/-- The Rust writer puts the fields of a message behind its type byte. -/
theorem rust_putFields {out : List UInt8} (msg : BinaryMessage) (room : typeLength (messageType msg) ≤ out.length)
    {w : RustCodec.Writer} {first : UInt8} (wrote : RustWrote out [first] w) :
    RustWrote out ([first] ++ fieldBytes msg) (RustCodec.putFields w msg) := by
  have u64 : ∀ {written : List UInt8} {w : RustCodec.Writer}, RustWrote out written w → ∀ v : UInt64,
      RustWrote out (written ++ leBytes 8 v.toNat) (w.putU64 v) := fun wrote v => rust_wrote_slice wrote _
  have u32 : ∀ {written : List UInt8} {w : RustCodec.Writer}, RustWrote out written w → ∀ v : UInt32,
      RustWrote out (written ++ leBytes 4 v.toNat) (w.putU32 v) := fun wrote v => rust_wrote_slice wrote _
  cases msg with
  | newOrder m =>
    have space : 30 ≤ out.length := room
    have side := rust_wrote_u8 (u64 wrote m.orderId) (by simp; omega) (RustCodec.Side.asByte m.side)
    have seq := u64 (u32 (u64 side m.priceTicks) m.quantity) m.seq
    simpa only [RustCodec.putFields,fieldBytes_newOrder,List.append_assoc,rust_side_byte] using seq
  | cancelOrder m => simpa only [RustCodec.putFields,fieldBytes_cancelOrder] using u64 wrote m.orderId
  | trade m =>
    have resting := u64 (u64 (u32 (u64 (u64 wrote m.execSeq) m.priceTicks) m.quantity) m.incomingId) m.restingId
    simpa only [RustCodec.putFields,fieldBytes_trade,List.append_assoc] using resting
  | ack m =>
    have space : 10 ≤ out.length := room
    have kind := rust_wrote_u8 (u64 wrote m.orderId) (by simp; omega) (RustCodec.AckKind.asByte m.kind)
    simpa only [RustCodec.putFields,fieldBytes_ack,List.append_assoc,rust_kind_byte] using kind
  | reject m =>
    have space : 10 ≤ out.length := room
    have reason := rust_wrote_u8 (u64 wrote m.orderId) (by simp; omega) (RustCodec.RejectReason.asByte m.reason)
    simpa only [RustCodec.putFields,fieldBytes_reject,List.append_assoc,rust_reason_byte] using reason

theorem validateFields_eq (msg : BinaryMessage) :
    RustCodec.validateFields msg =
      if InRange msg then .ok () else .error (.FieldOutOfRange (refusedField msg)) := by
  have step : ∀ (p : UInt64) (q : UInt32),
      (do RustCodec.checkPrice p; RustCodec.checkQuantity q : Except CodecError Unit) =
        if PriceOk p ∧ QuantityOk q then .ok ()
        else .error (.FieldOutOfRange (if PriceOk p then "quantity" else "price_ticks")) := by
    intro p q
    rw [checkPrice_eq,checkQuantity_eq]
    by_cases price : PriceOk p
    · by_cases quantity : QuantityOk q
      · simp [price,quantity,bind,Except.bind]
      · simp [price,quantity,bind,Except.bind]
    · simp [price,bind,Except.bind]
  cases msg with
  | newOrder m => exact step m.priceTicks m.quantity
  | trade m => exact step m.priceTicks m.quantity
  | cancelOrder m => rfl
  | ack m => rfl
  | reject m => rfl

private theorem wrote_type (out : List UInt8) (first : UInt8) (room : 0 < out.length) :
    CppWrote out [first] (CppCodec.LeWriter.u8 ⟨out,0⟩ first) ∧
      RustWrote out [first] (RustCodec.Writer.putU8 ⟨out,0⟩ first) := by
  have untouched : Overwritten out [] out := rfl
  have front := set_overwritten untouched room first
  exact ⟨⟨front,rfl⟩,⟨front,rfl⟩⟩

theorem typeLength_pos (type : MessageType) : 0 < typeLength type := by
  cases type <;> decide

/-- What `hme::encode` does, on every message and buffer: a short buffer is
    refused first; a message out of range is refused after its type byte was
    written. -/
theorem cppEncode_eq (msg : BinaryMessage) (out : List UInt8) :
    cppEncode msg out =
      if out.length < typeLength (messageType msg) then (.error .InsufficientLength,out)
      else if InRange msg then
        (.ok (typeLength (messageType msg)),bytesOf msg ++ out.drop (typeLength (messageType msg)))
      else (.error (.FieldOutOfRange (refusedField msg)),
        out.set 0 (UInt8.ofNat (messageTypes.idxOf (messageType msg)))) := by
  simp only [cppEncode,CppCodec.encode,encodedLenOf_eq]
  by_cases short : out.length < typeLength (messageType msg)
  · simp [short,Except.mapError,asRust,CppCodec.CodecError.insufficientLength]
  · have room : 0 < out.length := by have := typeLength_pos (messageType msg); omega
    have wrote := (wrote_type out (CppCodec.messageTypeAsByte (messageType msg)) room).1
    simp only [short,if_false]
    by_cases ok : InRange msg
    · rw [cpp_encodeFields msg (by omega) wrote ok,if_pos ok,bytesOf_eq,cpp_type_byte]
      rfl
    · rw [cpp_encodeFields_refuses msg _ ok,if_neg ok,cpp_type_byte]
      rfl

/-- What the Rust encoder does, on every message and buffer: a message out of
    range is refused first, then a short buffer. -/
theorem rustEncode_eq (msg : BinaryMessage) (out : List UInt8) :
    RustCodec.encode msg out =
      if InRange msg then
        if out.length < typeLength (messageType msg) then (.error .InsufficientLength,out)
        else (.ok (typeLength (messageType msg)),bytesOf msg ++ out.drop (typeLength (messageType msg)))
      else (.error (.FieldOutOfRange (refusedField msg)),out) := by
  simp only [RustCodec.encode,validateFields_eq,encodedLen_eq]
  by_cases ok : InRange msg
  · simp only [ok,if_true]
    by_cases short : out.length < typeLength (messageType msg)
    · simp only [short,if_true]
    · have room : 0 < out.length := by have := typeLength_pos (messageType msg); omega
      have wrote := (wrote_type out (RustCodec.MessageType.asByte (messageType msg)) room).2
      have whole := fieldBytes_length msg
      obtain ⟨front,_⟩ := rust_putFields msg (by omega) wrote
      simp only [short,if_false]
      rw [front,bytesOf_eq,rust_type_byte]
      simp [whole]
  · simp only [ok,if_false]

/-! ### The contracts -/

/-- A decoder that gives the fault of a byte string or the message with these
    bytes, and an encoder that writes messages in range, keep the contract. -/
theorem contract_of_decided (encode : BinaryMessage → List UInt8 → Except CodecError Nat × List UInt8)
    (encodes : ∀ msg out, InRange msg → typeLength (messageType msg) ≤ out.length →
      encode msg out =
        (.ok (typeLength (messageType msg)),bytesOf msg ++ out.drop (typeLength (messageType msg)))) :
    Contract encode RustCodec.decode := by
  have accepted : ∀ bytes msg, RustCodec.decode bytes = .ok msg → InRange msg ∧ bytes = bytesOf msg := by
    intro bytes msg read
    have decided := decode_decided bytes
    cases found : fault bytes with
    | some error => rw [found] at decided; simp [decided] at read
    | none =>
      rw [found] at decided
      obtain ⟨other,readOther,ok,isBytes⟩ := decided
      rw [readOther] at read
      cases read
      exact ⟨ok,isBytes⟩
  have decodes : ∀ msg, InRange msg → RustCodec.decode (bytesOf msg) = .ok msg := by
    intro msg ok
    have decided := decode_decided (bytesOf msg)
    rw [fault_bytesOf ok] at decided
    obtain ⟨other,read,_,same⟩ := decided
    rw [read,bytesOf_injective same]
  refine ⟨encodes,bytesOf_length,decodes,?_,?_,?_⟩
  · intro bytes msg out read room
    obtain ⟨ok,rfl⟩ := accepted bytes msg read
    rw [bytesOf_length] at room ⊢
    exact encodes msg out ok room
  · intro bytes
    constructor
    · rintro ⟨msg,read⟩; exact ⟨msg,accepted bytes msg read⟩
    · rintro ⟨msg,ok,rfl⟩; exact ⟨msg,decodes msg ok⟩
  · intro bytes error
    have decided := decode_decided bytes
    cases found : fault bytes with
    | some other =>
      rw [found] at decided
      rw [decided]
      simp
    | none =>
      rw [found] at decided
      obtain ⟨msg,read,_⟩ := decided
      rw [read]
      simp

/-- Each codec is a bijection between the messages in range and the byte strings
    that its decoder accepts, and reports every other byte string by its first
    fault. -/
theorem codecs_keep_contract :
    Contract cppEncode cppDecode ∧ Contract RustCodec.encode RustCodec.decode := by
  constructor
  · rw [show cppDecode = RustCodec.decode from funext cppDecode_eq]
    apply contract_of_decided
    intro msg out ok room
    rw [cppEncode_eq,if_neg (by omega),if_pos ok]
  · apply contract_of_decided
    intro msg out ok room
    rw [rustEncode_eq,if_pos ok,if_neg (by omega)]

/-- The decoders agree on every byte string. -/
theorem decoders_agree (bytes : List UInt8) :
    (CppCodec.decode bytes).mapError asRust = RustCodec.decode bytes := cppDecode_eq bytes

/-- What the two encoders should agree on: the result and the buffer, and no
    byte written on an error. -/
def EncodersAgree (msg : BinaryMessage) (out : List UInt8) : Prop :=
  cppEncode msg out = RustCodec.encode msg out ∧
    (∀ error after, cppEncode msg out = (.error error,after) → after = out) ∧
    (∀ error after, RustCodec.encode msg out = (.error error,after) → after = out)

/-- The encoders agree exactly on messages in range, and on messages out of
    range whose buffer has room and happens to begin with their type byte. -/
theorem encoders_agree_iff (msg : BinaryMessage) (out : List UInt8) :
    EncodersAgree msg out ↔ InRange msg ∨
      (typeLength (messageType msg) ≤ out.length ∧
        out.head? = some (UInt8.ofNat (messageTypes.idxOf (messageType msg)))) := by
  have long := typeLength_pos (messageType msg)
  unfold EncodersAgree
  rw [cppEncode_eq,rustEncode_eq]
  by_cases ok : InRange msg
  · simp only [ok,if_true,true_or,iff_true,true_and]
    split
    · simp
    · simp
  · by_cases short : out.length < typeLength (messageType msg)
    · have noRoom : ¬ typeLength (messageType msg) ≤ out.length := by omega
      simp [ok,short,noRoom]
    · have room : typeLength (messageType msg) ≤ out.length := by omega
      cases out with
      | nil => simp at room; omega
      | cons first rest =>
        simp only [ok,short,if_false,List.set_cons_zero,Prod.mk.injEq,true_and,List.cons.injEq,and_true,false_or,room,
          List.head?_cons,Option.some.injEq]
        constructor
        · rintro ⟨same,_⟩; exact same.symm
        · intro same
          subst same
          simp

/-- An order of quantity 0 in a buffer of 30 bytes of 255: both report the
    quantity, and the C++ encoder has written the type byte. -/
theorem encoders_disagree_on_zero_quantity :
    ¬ EncodersAgree (.newOrder ⟨1,.Buy,1,0,1⟩) (List.replicate 30 255) := by
  intro ⟨same,_⟩
  have buffers := congrArg Prod.snd same
  revert buffers
  decide

end HyperMatch.Codecs
