import HyperMatch.Framing
import HyperMatch.Terminators

/-!
Messages between the two programs. The gateway reads the events of the engine with
`read_loop` of `engine_client.rs`: a type byte, the rest of the frame that it tells the
length of, `codec::decode`. On every stream that loop makes the greedy parse that the
framer of the engine makes, so what one side encodes the other side reads.
-/
namespace HyperMatch.WirePath
open HyperMatch.Wire HyperMatch.FrameBuffer HyperMatch.Terminators
open HyperMatch.WireFormat (bytesOf typeLength)
open HyperMatch.RustCodec (CodecError)

/-! ### `read_loop` -/

/-- `read_exact`: the next bytes of the stream, as many as asked for. It fails where
    the stream ends before. -/
def readExact (count : Nat) (stream : List UInt8) : Option (List UInt8 × List UInt8) :=
  if stream.length < count then none else some (stream.take count,stream.drop count)

/-- Where the loop returns: the stream ends within the given bytes of a frame, or a
    frame is refused. -/
inductive ReadEnd where
  | exhausted (begun : List UInt8)
  | unknownType (byte : UInt8)
  | undecodable (error : CodecError)
  deriving Repr, DecidableEq

/-- The bytes left over at a stream's end. -/
def ReadEnd.left : ReadEnd → Option (List UInt8)
  | .exhausted begun => some begun
  | .unknownType _ => none
  | .undecodable _ => none

variable {σ : Type}

/-- A round of `read_loop`: a message and the rest of the stream, or its end. -/
inductive Round where
  | message (msg : BinaryMessage) (rest : List UInt8)
  | ends (ending : ReadEnd)
  deriving Repr, DecidableEq

def readRound (stream : List UInt8) : Round :=
  match readExact 1 stream with
  | none => .ends (.exhausted stream)
  | some (typeByte,stream) =>
    match RustCodec.MessageType.fromByte (typeByte.headD 0) with
    | none => .ends (.unknownType (typeByte.headD 0))
    | some messageType =>
      let totalLen := RustCodec.MessageType.encodedLen messageType
      match readExact (totalLen - 1) stream with
      | none => .ends (.exhausted (typeByte ++ stream))
      | some (body,stream) =>
        match RustCodec.decode (typeByte ++ body) with
        | .ok message => .message message stream
        | .error err => .ends (.undecodable err)

/-- The rounds of `read_loop`. `handle` stands for `handle_engine_event`, which the
    loop calls with each decoded message. -/
def readLoopFrom (handle : σ → BinaryMessage → σ) : Nat → σ → List UInt8 → Option (σ × ReadEnd)
  | 0,_,_ => none
  | bound+1,state,stream =>
    match readRound stream with
    | .message msg rest => readLoopFrom handle bound (handle state msg) rest
    | .ends ending => some (state,ending)

/-- `read_loop`. Every round takes at least the type byte. -/
def readLoop (handle : σ → BinaryMessage → σ) (state : σ) (stream : List UInt8) : Option (σ × ReadEnd) :=
  readLoopFrom handle (stream.length + 1) state stream

/-! ### The loop is the greedy parse -/

/-- Both length tables are one. -/
theorem frameLength_fromByte (byte : UInt8) :
    frameLength byte = (RustCodec.MessageType.fromByte byte).map RustCodec.MessageType.encodedLen := by
  unfold frameLength
  rw [Codecs.type_tables]
  cases RustCodec.MessageType.fromByte byte with
  | none => rfl
  | some type => cases type <;> rfl

/-- What the C++ decoder makes of a frame, the Rust decoder makes of it. -/
theorem decode_ok_iff (frame : List UInt8) (msg : BinaryMessage) :
    CppCodec.decode frame = .ok msg ↔ RustCodec.decode frame = .ok msg := by
  rw [← Codecs.cppDecode_eq,WireFormat.cppDecode]
  cases CppCodec.decode frame with
  | error e => simp [Except.mapError]
  | ok other => simp [Except.mapError]

theorem readExact_short {count : Nat} {stream : List UInt8} (short : stream.length < count) :
    readExact count stream = none := by
  simp [readExact,short]
theorem readExact_whole {count : Nat} {stream : List UInt8} (whole : ¬ stream.length < count) :
    readExact count stream = some (stream.take count,stream.drop count) := by
  simp [readExact,whole]

/-- One round on a stream that goes on, with the frame as one piece. -/
theorem readRound_cons (first : UInt8) (rest : List UInt8) :
    readRound (first :: rest) =
      match frameLength first with
      | none => .ends (.unknownType first)
      | some needed =>
        if (first :: rest).length < needed then .ends (.exhausted (first :: rest))
        else match RustCodec.decode ((first :: rest).take needed) with
          | .ok message => .message message ((first :: rest).drop needed)
          | .error err => .ends (.undecodable err) := by
  have typeByte : readExact 1 (first :: rest) = some ([first],rest) := by simp [readExact]
  rw [readRound,typeByte,frameLength_fromByte]
  simp only [List.headD_cons]
  cases RustCodec.MessageType.fromByte first with
  | none => rfl
  | some type =>
    obtain ⟨more,size⟩ : ∃ more, RustCodec.MessageType.encodedLen type = more + 1 := by
      cases type <;> exact ⟨_,rfl⟩
    simp only [Option.map_some,size,Nat.add_sub_cancel,List.length_cons,Nat.add_lt_add_iff_right]
    by_cases short : rest.length < more
    · rw [readExact_short short,if_pos short]
      rfl
    · rw [readExact_whole short,if_neg short]
      rfl

/-- On every stream the loop makes the calls of the greedy parse and ends as it does. -/
theorem readLoopFrom_parse (handle : σ → BinaryMessage → σ) (stream : List UInt8) :
    ∀ bound state, stream.length < bound →
      ∃ ending, readLoopFrom handle bound state stream = some ((parse stream).1.foldl handle state,ending) ∧
        ending.left = (parse stream).2 := by
  fun_induction parse stream with
  | case1 =>
    intro bound state enough
    obtain ⟨bound,rfl⟩ := Nat.exists_eq_succ_of_ne_zero (Nat.ne_zero_of_lt enough)
    exact ⟨.exhausted [],rfl,rfl⟩
  | case2 stream proper unknown =>
    intro bound state enough
    obtain ⟨bound,rfl⟩ := Nat.exists_eq_succ_of_ne_zero (Nat.ne_zero_of_lt enough)
    obtain ⟨first,rest,rfl⟩ := List.exists_cons_of_ne_nil proper
    rw [List.headD_cons] at unknown
    exact ⟨.unknownType first,by rw [readLoopFrom,readRound_cons,unknown]; rfl,rfl⟩
  | case3 stream proper needed known short =>
    intro bound state enough
    obtain ⟨bound,rfl⟩ := Nat.exists_eq_succ_of_ne_zero (Nat.ne_zero_of_lt enough)
    obtain ⟨first,rest,rfl⟩ := List.exists_cons_of_ne_nil proper
    rw [List.headD_cons] at known
    refine ⟨.exhausted (first :: rest),?_,rfl⟩
    rw [readLoopFrom,readRound_cons,known]
    simp only [short,if_true]
    rfl
  | case4 stream proper needed known whole error failed =>
    intro bound state enough
    obtain ⟨bound,rfl⟩ := Nat.exists_eq_succ_of_ne_zero (Nat.ne_zero_of_lt enough)
    obtain ⟨first,rest,rfl⟩ := List.exists_cons_of_ne_nil proper
    rw [List.headD_cons] at known
    cases decoded : RustCodec.decode ((first :: rest).take needed) with
    | ok msg =>
      rw [(decode_ok_iff _ msg).mpr decoded] at failed
      cases failed
    | error err =>
      refine ⟨.undecodable err,?_,rfl⟩
      rw [readLoopFrom,readRound_cons,known]
      simp only [whole,if_false,decoded]
      rfl
  | case5 stream proper needed known whole msg decoded ih =>
    intro bound state enough
    obtain ⟨bound,rfl⟩ := Nat.exists_eq_succ_of_ne_zero (Nat.ne_zero_of_lt enough)
    have shorter : (stream.drop needed).length < bound := by
      have wide := (frameLength_bounds known).1
      rw [List.length_drop]
      omega
    obtain ⟨ending,later,leaves⟩ := ih bound (handle state msg) shorter
    obtain ⟨first,rest,rfl⟩ := List.exists_cons_of_ne_nil proper
    rw [List.headD_cons] at known
    refine ⟨ending,?_,leaves⟩
    rw [readLoopFrom,readRound_cons,known]
    simp only [whole,if_false,(decode_ok_iff _ msg).mp decoded,List.foldl_cons]
    exact later

theorem readLoop_parse (handle : σ → BinaryMessage → σ) (state : σ) (stream : List UInt8) :
    ∃ ending, readLoop handle state stream = some ((parse stream).1.foldl handle state,ending) ∧
      ending.left = (parse stream).2 :=
  readLoopFrom_parse handle stream _ state (Nat.lt_succ_self _)

/-! ### Both directions -/

/-- The bytes that the C++ encoder writes for a message, in some buffer. -/
def CppEncoded (msg : BinaryMessage) (bytes : List UInt8) : Prop :=
  ∃ out written after, CppCodec.encode msg out = (.ok written,after) ∧ bytes = after.take written
/-- The bytes that the Rust encoder writes for a message, in some buffer. -/
def RustEncoded (msg : BinaryMessage) (bytes : List UInt8) : Prop :=
  ∃ out written after, RustCodec.encode msg out = (.ok written,after) ∧ bytes = after.take written

theorem cppEncoded_iff {msg : BinaryMessage} (ranged : InRange msg) (bytes : List UInt8) :
    CppEncoded msg bytes ↔ bytes = bytesOf msg := by
  constructor
  · rintro ⟨out,written,after,encoded,rfl⟩
    have result := Codecs.cppEncode_eq msg out
    rw [WireFormat.cppEncode,encoded,if_pos ranged] at result
    by_cases short : out.length < typeLength (messageType msg)
    · rw [if_pos short] at result
      cases (Prod.mk.inj result).1
    · rw [if_neg short] at result
      obtain ⟨count,rfl⟩ := Prod.mk.inj result
      obtain rfl := Except.ok.inj count
      rw [← WireFormat.bytesOf_length,List.take_left]
  · rintro rfl
    obtain ⟨written,frame,encoded,front⟩ := DataPath.encode_event ranged
    exact ⟨_,written,frame,encoded,front.symm⟩

theorem rustEncoded_iff {msg : BinaryMessage} (ranged : InRange msg) (bytes : List UInt8) :
    RustEncoded msg bytes ↔ bytes = bytesOf msg := by
  have result : ∀ out, RustCodec.encode msg out = _ := Codecs.rustEncode_eq msg
  simp only [if_pos ranged] at result
  constructor
  · rintro ⟨out,written,after,encoded,rfl⟩
    rw [result] at encoded
    by_cases short : out.length < typeLength (messageType msg)
    · rw [if_pos short] at encoded
      cases (Prod.mk.inj encoded).1
    · rw [if_neg short] at encoded
      obtain ⟨count,rfl⟩ := Prod.mk.inj encoded
      obtain rfl := Except.ok.inj count
      rw [← WireFormat.bytesOf_length,List.take_left]
  · rintro rfl
    have room : ¬ (bytesOf msg).length < typeLength (messageType msg) := by simp [WireFormat.bytesOf_length]
    refine ⟨bytesOf msg,_,_,(result _).trans (if_neg room),?_⟩
    rw [← WireFormat.bytesOf_length,List.take_left]

/-- The frames that an encoder writes for messages in range, all of them there. -/
theorem encoded_frames {encoded : BinaryMessage → List UInt8 → Prop} {msgs : List BinaryMessage}
    (exactly : ∀ msg ∈ msgs, ∀ bytes, encoded msg bytes ↔ bytes = bytesOf msg) (frames : List (List UInt8)) :
    List.Forall₂ encoded msgs frames ↔ frames = msgs.map bytesOf := by
  induction msgs generalizing frames with
  | nil => simp
  | cons msg rest ih =>
    have here := exactly msg List.mem_cons_self
    have later := ih (fun m inside => exactly m (List.mem_cons_of_mem _ inside))
    simp only [List.forall₂_cons_left_iff,here,later,List.map_cons]
    constructor
    · rintro ⟨_,_,rfl,rfl,rfl⟩
      rfl
    · rintro rfl
      exact ⟨_,_,rfl,rfl,rfl⟩

/-- For messages in range, encoded one after another: the gateway's loop hands exactly
    these messages of the engine to its handler, whatever that does, and ends with no
    byte left over; the engine's framer delivers exactly these messages of the gateway,
    however the bytes are cut, and is open and empty at the end. -/
theorem wire_path (msgs : List BinaryMessage) (ranged : ∀ msg ∈ msgs, InRange msg) :
    (∃ frames, List.Forall₂ CppEncoded msgs frames) ∧ (∃ frames, List.Forall₂ RustEncoded msgs frames) ∧
    (∀ frames, List.Forall₂ CppEncoded msgs frames →
      ∀ (σ : Type) (handle : σ → BinaryMessage → σ) (state : σ),
        readLoop handle state frames.flatten = some (msgs.foldl handle state,.exhausted [])) ∧
    (∀ frames, List.Forall₂ RustEncoded msgs frames → ∀ chunks : List (List UInt8), chunks.flatten = frames.flatten →
      ∃ framer, FrameBuffer.new.consumeAll chunks = some (msgs,framer) ∧ framer.closed = false ∧
        framer.buffered = 0) := by
  have cpp := encoded_frames (fun msg inside => cppEncoded_iff (ranged msg inside))
  have rust := encoded_frames (fun msg inside => rustEncoded_iff (ranged msg inside))
  have read : readBytes [] (msgs.map bytesOf).flatten = (msgs,some []) := by
    rw [← List.flatMap_def]
    exact readBytes_messages msgs ranged
  refine ⟨⟨_,(cpp _).mpr rfl⟩,⟨_,(rust _).mpr rfl⟩,?_,?_⟩
  · intro frames written σ handle state
    obtain rfl := (cpp frames).mp written
    obtain ⟨ending,loop,leaves⟩ := readLoop_parse handle state (msgs.map bytesOf).flatten
    rw [← readBytes_parse,read] at loop leaves
    cases ending with
    | exhausted begun =>
      obtain rfl := Option.some.inj leaves
      exact loop
    | unknownType byte => cases leaves
    | undecodable error => cases leaves
  · intro frames written chunks cut
    obtain rfl := (rust frames).mp written
    obtain ⟨framer,fed,after⟩ := consumeAll_retains retains_new chunks
    rw [cut,read] at fed after
    have retains : Retains framer [] := after
    exact ⟨framer,fed,retains.isOpen,retains.length⟩

/-- One message of every type. -/
def mixed : List BinaryMessage :=
  [.newOrder ⟨7,.Sell,10050,3,1⟩,.trade ⟨1,10050,2,8,7⟩,.cancelOrder ⟨7⟩,.ack ⟨7,.Cancelled⟩,.reject ⟨7,.OrderNotFound⟩]

/-- The messages of every type, read back by the gateway, and by the engine from single
    bytes. -/
theorem wire_path_mixed :
    (∀ msg ∈ mixed, InRange msg) ∧
    (∃ frames, List.Forall₂ CppEncoded mixed frames ∧
      readLoop (fun calls msg => calls ++ [msg]) [] frames.flatten = some (mixed,.exhausted [])) ∧
    ∃ frames framer, List.Forall₂ RustEncoded mixed frames ∧
      FrameBuffer.new.consumeAll (frames.flatten.map (fun byte => [byte])) = some (mixed,framer) ∧
      framer.closed = false := by
  have ranged : ∀ msg ∈ mixed, InRange msg := by decide
  obtain ⟨⟨cpp,cppWrote⟩,⟨rust,rustWrote⟩,toGateway,toEngine⟩ := wire_path mixed ranged
  have bytewise : (rust.flatten.map (fun byte => [byte])).flatten = rust.flatten := by
    rw [← List.flatMap_def,List.flatMap_singleton']
  obtain ⟨framer,fed,running,-⟩ := toEngine rust rustWrote _ bytewise
  exact ⟨ranged,⟨cpp,cppWrote,toGateway cpp cppWrote _ _ []⟩,rust,framer,rustWrote,fed,running⟩

end HyperMatch.WirePath
