import HyperMatch.CppCodec
import Mathlib.Data.List.TakeDrop

/-!
The framing buffer of `cpp/network/include/hme/frame_buffer.hpp`. What `deliver` is
given is returned as a list. The loop of `consume` takes at least one byte of the
chunk in each round but the last. Whatever chunks a stream is cut into, the buffer
reads it byte by byte (`readByte`): a byte extends the unfinished frame, completes
it, or closes the connection.
-/
namespace HyperMatch
open HyperMatch.Wire HyperMatch.CppCodec

def kMaxMessageSize : Nat := 65536

inductive FrameStatus where
  | Ok
  | Closed
  deriving Repr, DecidableEq

structure FrameBuffer where
  buf : Nat → UInt8
  len : Nat
  closed : Bool

namespace FrameBuffer

def new : FrameBuffer := ⟨fun _ => 0,0,false⟩

def buffered (framer : FrameBuffer) : Nat := framer.len

def frameLength (typeByte : UInt8) : Option Nat :=
  match messageTypeFromByte typeByte with
  | none => none
  | some type =>
    match messageLen type with
    | none => none
    | some len => if len > kMaxMessageSize then none else some len

/-- `std::copy_n` to a position of the buffer. -/
def copyTo (framer : FrameBuffer) (pos : Nat) (bytes : List UInt8) : FrameBuffer :=
  { framer with buf := fun i => if pos ≤ i ∧ i < pos + bytes.length then bytes.getD (i - pos) 0 else framer.buf i }

/-- The first bytes of the buffer. -/
def bytes (framer : FrameBuffer) (count : Nat) : List UInt8 := (List.range count).map framer.buf

def close (framer : FrameBuffer) : FrameStatus × List BinaryMessage × FrameBuffer :=
  (.Closed,[],{ framer with closed := true })

/-- The loop of `consume` from an offset of the chunk. -/
def consumeFrom (chunk : List UInt8) : Nat → FrameBuffer → Nat → Option (FrameStatus × List BinaryMessage × FrameBuffer)
  | 0,_,_ => none
  | bound+1,framer,off =>
    if framer.len = 0 then
      let avail := chunk.length - off
      if avail = 0 then some (.Ok,[],framer)
      else
        match frameLength (chunk.getD off 0) with
        | none => some framer.close
        | some needed =>
          if avail < needed then
            some (.Ok,[],{ framer.copyTo 0 ((chunk.drop off).take avail) with len := avail })
          else
            match decode ((chunk.drop off).take needed) with
            | .error _ => some framer.close
            | .ok msg => do
              let (status,msgs,framer) ← consumeFrom chunk bound framer (off + needed)
              return (status,msg :: msgs,framer)
    else
      match frameLength (framer.buf 0) with
      | none => some framer.close
      | some needed =>
        let missing := needed - framer.len
        let avail := chunk.length - off
        let take := min missing avail
        let framer := { framer.copyTo framer.len ((chunk.drop off).take take) with len := framer.len + take }
        let off := off + take
        if framer.len < needed then some (.Ok,[],framer)
        else
          match decode (framer.bytes needed) with
          | .error _ => some framer.close
          | .ok msg => do
            let (status,msgs,framer) ← consumeFrom chunk bound { framer with len := 0 } off
            return (status,msg :: msgs,framer)

def consume (framer : FrameBuffer) (chunk : List UInt8) : Option (FrameStatus × List BinaryMessage × FrameBuffer) :=
  if framer.closed then some (.Closed,[],framer) else consumeFrom chunk (chunk.length + 1) framer 0

/-! ### Byte by byte -/

/-- The unfinished frame after one more byte and the message that it completes;
    `none` when no frame begins so. -/
def readByte (unfinished : List UInt8) (byte : UInt8) : Option (List UInt8 × Option BinaryMessage) :=
  match frameLength ((unfinished ++ [byte]).headD 0) with
  | none => none
  | some needed =>
    if (unfinished ++ [byte]).length < needed then some (unfinished ++ [byte],none)
    else
      match decode (unfinished ++ [byte]) with
      | .error _ => none
      | .ok msg => some ([],some msg)

/-- The messages that a stream completes, and the unfinished frame at its end if
    nothing in it closes the connection. -/
def readBytes : List UInt8 → List UInt8 → List BinaryMessage × Option (List UInt8)
  | unfinished,[] => ([],some unfinished)
  | unfinished,byte :: rest =>
    match readByte unfinished byte with
    | none => ([],none)
    | some (unfinished,msg) => (msg.toList ++ (readBytes unfinished rest).1,(readBytes unfinished rest).2)

/-- Nothing, or the beginning of a frame. -/
def Unfinished (bytes : List UInt8) : Prop :=
  bytes = [] ∨ ∃ needed, frameLength (bytes.headD 0) = some needed ∧ bytes.length < needed

theorem frameLength_bounds {byte : UInt8} {needed : Nat} (known : frameLength byte = some needed) :
    1 < needed ∧ needed ≤ 37 := by
  unfold frameLength at known
  split at known
  · cases known
  · rename_i type _
    cases type <;> simp [messageLen] at known <;> obtain ⟨_,rfl⟩ := known <;> decide

theorem readBytes_append (unfinished first second : List UInt8) :
    readBytes unfinished (first ++ second) =
      match (readBytes unfinished first).2 with
      | none => readBytes unfinished first
      | some last => ((readBytes unfinished first).1 ++ (readBytes last second).1,(readBytes last second).2) := by
  induction first generalizing unfinished with
  | nil => rfl
  | cons byte rest ih =>
    rw [List.cons_append,readBytes,readBytes]
    cases readByte unfinished byte with
    | none => rfl
    | some r =>
      simp only [ih]
      cases closing : (readBytes r.1 rest).2 with
      | none => simp only [closing]
      | some last => simp

section
variable {unfinished bytes : List UInt8} {needed : Nat}

/-- A byte that does not complete its frame. -/
theorem readByte_short {byte : UInt8} (known : frameLength ((unfinished ++ byte :: bytes).headD 0) = some needed)
    (short : (unfinished ++ [byte]).length < needed) : readByte unfinished byte = some (unfinished ++ [byte],none) := by
  have first : (unfinished ++ [byte]).headD 0 = (unfinished ++ byte :: bytes).headD 0 := by
    cases unfinished <;> rfl
  rw [readByte,first,known]
  simp only [if_pos short]

theorem append_cons_assoc (byte : UInt8) : unfinished ++ byte :: bytes = (unfinished ++ [byte]) ++ bytes := by simp

/-- Bytes that do not complete the frame they belong to. -/
theorem readBytes_short (known : frameLength ((unfinished ++ bytes).headD 0) = some needed)
    (short : (unfinished ++ bytes).length < needed) : readBytes unfinished bytes = ([],some (unfinished ++ bytes)) := by
  induction bytes generalizing unfinished with
  | nil => simp [readBytes]
  | cons byte rest ih =>
    have here := readByte_short known (by simp at short ⊢; omega)
    rw [append_cons_assoc] at known short ⊢
    rw [readBytes,here]
    simp [ih known short]

/-- Bytes that complete the frame they belong to. -/
theorem readBytes_frame (unfinished bytes : List UInt8) (proper : bytes ≠ []) (known : frameLength ((unfinished ++ bytes).headD 0) = some needed)
    (whole : (unfinished ++ bytes).length = needed) (rest : List UInt8) :
    readBytes unfinished (bytes ++ rest) =
      match decode (unfinished ++ bytes) with
      | .error _ => ([],none)
      | .ok msg => (msg :: (readBytes [] rest).1,(readBytes [] rest).2) := by
  induction bytes generalizing unfinished with
  | nil => exact absurd rfl proper
  | cons byte more ih =>
    cases more with
    | nil =>
      rw [List.cons_append,List.nil_append,readBytes,readByte,known]
      simp only [whole,Nat.lt_irrefl,if_false]
      cases decode (unfinished ++ [byte]) with
      | error _ => rfl
      | ok msg => rfl
    | cons next others =>
      have here := readByte_short known (by simp at whole ⊢; omega)
      rw [append_cons_assoc] at known whole ⊢
      rw [List.cons_append,readBytes,here]
      simp only [ih _ (by simp) known whole]
      simp
end

/-! ### The buffer reads byte by byte -/

/-- An open buffer with an unfinished frame. -/
structure Retains (framer : FrameBuffer) (unfinished : List UInt8) : Prop where
  isOpen : framer.closed = false
  held : framer.bytes framer.len = unfinished
  begun : Unfinished unfinished

theorem retains_new : Retains new [] := ⟨rfl,rfl,.inl rfl⟩

theorem bytes_length (framer : FrameBuffer) (count : Nat) : (framer.bytes count).length = count := by
  simp [bytes]

theorem Retains.length {framer : FrameBuffer} {unfinished : List UInt8} (retains : Retains framer unfinished) :
    framer.len = unfinished.length := by
  rw [← retains.held,bytes_length]

/-- Bytes copied behind the retained ones. -/
theorem bytes_copyTo (framer : FrameBuffer) (more : List UInt8) :
    (framer.copyTo framer.len more).bytes (framer.len + more.length) = framer.bytes framer.len ++ more := by
  refine List.ext_getElem ?_ ?_
  · simp [bytes_length]
  · intro i inside _
    rw [bytes_length] at inside
    rw [List.getElem_append]
    simp only [bytes,copyTo,List.getElem_map,List.getElem_range,List.length_map,List.length_range]
    split_ifs with behind ahead
    · omega
    · rw [List.getD_eq_getElem _ _ (by omega)]
    · rfl
    · omega

/-- The result of `consume` tells what reading byte by byte gives. -/
def Reads (result : Option (FrameStatus × List BinaryMessage × FrameBuffer))
    (read : List BinaryMessage × Option (List UInt8)) : Prop :=
  ∃ framer, match read.2 with
    | none => result = some (.Closed,read.1,framer) ∧ framer.closed = true
    | some last => result = some (.Ok,read.1,framer) ∧ Retains framer last

theorem reads_close (framer : FrameBuffer) : Reads (some framer.close) ([],none) := ⟨_,rfl,rfl⟩

/-- A message and what comes after it. -/
theorem Reads.cons {result : Option (FrameStatus × List BinaryMessage × FrameBuffer)}
    {read : List BinaryMessage × Option (List UInt8)} (reads : Reads result read) (msg : BinaryMessage) :
    Reads (do
      let (status,msgs,framer) ← result
      return (status,msg :: msgs,framer)) (msg :: read.1,read.2) := by
  obtain ⟨framer,reads⟩ := reads
  refine ⟨framer,?_⟩
  cases ended : read.2 with
  | none =>
    rw [ended] at reads
    exact ⟨by rw [reads.1]; rfl,reads.2⟩
  | some last =>
    rw [ended] at reads
    exact ⟨by rw [reads.1]; rfl,reads.2⟩

theorem drop_eq_cons {chunk : List UInt8} {off : Nat} (more : ¬ chunk.length - off = 0) :
    ∃ rest, chunk.drop off = chunk.getD off 0 :: rest := by
  have inside : off < chunk.length := by omega
  exact ⟨chunk.drop (off + 1),by rw [List.getD_eq_getElem _ _ inside,← List.drop_eq_getElem_cons inside]⟩

section
variable {framer : FrameBuffer} {chunk : List UInt8} {off bound : Nat}

/-- A round of the loop with nothing retained: the frame begins in the chunk. -/
theorem consumeFrom_fresh (retains : Retains framer []) (enough : chunk.length - off < bound + 1)
    (later : ∀ off, chunk.length - off < bound → Reads (consumeFrom chunk bound framer off) (readBytes [] (chunk.drop off))) :
    Reads (consumeFrom chunk (bound + 1) framer off) (readBytes [] (chunk.drop off)) := by
  have fresh : framer.len = 0 := retains.length
  rw [consumeFrom,if_pos fresh]
  by_cases none : chunk.length - off = 0
  · rw [if_pos none,List.drop_eq_nil_of_le (by omega)]
    exact ⟨framer,rfl,retains⟩
  · obtain ⟨rest,split⟩ := drop_eq_cons none
    have size : (chunk.drop off).length = chunk.length - off := List.length_drop
    rw [if_neg none]
    cases known : frameLength (chunk.getD off 0) with
    | none =>
      rw [split,readBytes,readByte,List.nil_append,List.headD_cons,known]
      exact reads_close framer
    | some needed =>
      have wide := (frameLength_bounds known).1
      simp only
      by_cases short : chunk.length - off < needed
      · rw [if_pos short,readBytes_short (by rw [List.nil_append,split,List.headD_cons]; exact known)
          (by rw [List.nil_append,size]; exact short),List.take_of_length_le (by omega)]
        have held := bytes_copyTo framer (chunk.drop off)
        rw [retains.held,fresh,Nat.zero_add,size] at held
        refine ⟨_,rfl,retains.isOpen,held,.inr ⟨needed,?_,?_⟩⟩
        · rw [List.nil_append,split,List.headD_cons]
          exact known
        · rw [List.nil_append,size]
          exact short
      · have whole : ((chunk.drop off).take needed).length = needed := by rw [List.length_take,size]; omega
        have head : ((chunk.drop off).take needed).headD 0 = chunk.getD off 0 := by
          rw [split]
          obtain ⟨n,rfl⟩ := Nat.exists_eq_succ_of_ne_zero (by omega : needed ≠ 0)
          rfl
        have read := readBytes_frame [] ((chunk.drop off).take needed)
          (by intro empty; rw [empty] at whole; simp at whole; omega)
          (by rw [List.nil_append,head]; exact known) (by rw [List.nil_append,whole]) ((chunk.drop off).drop needed)
        rw [List.take_append_drop,List.nil_append,List.drop_drop] at read
        rw [if_neg short,read]
        cases decode ((chunk.drop off).take needed) with
        | error _ => exact reads_close framer
        | ok msg => exact (later (off + needed) (by omega)).cons msg

/-- A round of the loop with the beginning of a frame retained. -/
theorem consumeFrom_retained {unfinished : List UInt8} (retains : Retains framer unfinished) (proper : unfinished ≠ [])
    (enough : chunk.length - off < bound + 1)
    (later : ∀ {framer} off, Retains framer [] → chunk.length - off < bound →
      Reads (consumeFrom chunk bound framer off) (readBytes [] (chunk.drop off))) :
    Reads (consumeFrom chunk (bound + 1) framer off) (readBytes unfinished (chunk.drop off)) := by
  have length := retains.length
  have some : framer.len ≠ 0 := by
    rw [length]
    exact fun zero => proper (List.eq_nil_of_length_eq_zero zero)
  obtain ⟨needed,known,short⟩ := retains.begun.resolve_left proper
  have first : framer.buf 0 = unfinished.headD 0 := by
    rw [← retains.held,bytes]
    obtain ⟨n,positive⟩ := Nat.exists_eq_succ_of_ne_zero some
    rw [positive,List.range_succ_eq_map]
    rfl
  have size : (chunk.drop off).length = chunk.length - off := List.length_drop
  have head : ∀ more, (unfinished ++ more).headD 0 = unfinished.headD 0 := by
    intro more
    cases unfinished with
    | nil => exact absurd rfl proper
    | cons byte rest => rfl
  rw [consumeFrom,if_neg some,first,known]
  simp only
  by_cases lacking : chunk.length - off < needed - framer.len
  · rw [Nat.min_eq_right (by omega),if_pos (by omega),List.take_of_length_le (by omega),
      readBytes_short (by rw [head]; exact known) (by rw [List.length_append]; omega)]
    have held := bytes_copyTo framer (chunk.drop off)
    rw [retains.held,size] at held
    refine ⟨_,rfl,retains.isOpen,held,.inr ⟨needed,by rw [head]; exact known,?_⟩⟩
    rw [List.length_append]
    omega
  · have taken : ((chunk.drop off).take (needed - framer.len)).length = needed - framer.len := by
      rw [List.length_take,size]; omega
    have read := readBytes_frame unfinished ((chunk.drop off).take (needed - framer.len))
      (by intro empty; rw [empty] at taken; simp at taken; omega) (by rw [head]; exact known)
      (by rw [List.length_append,taken]; omega) ((chunk.drop off).drop (needed - framer.len))
    rw [List.take_append_drop,List.drop_drop] at read
    have held := bytes_copyTo framer ((chunk.drop off).take (needed - framer.len))
    rw [retains.held,taken,show framer.len + (needed - framer.len) = needed by omega] at held
    rw [Nat.min_eq_left (by omega),if_neg (by omega),read]
    rw [show ({ framer.copyTo framer.len ((chunk.drop off).take (needed - framer.len)) with
        len := framer.len + (needed - framer.len) } : FrameBuffer).bytes needed =
        unfinished ++ (chunk.drop off).take (needed - framer.len) from held]
    cases decode (unfinished ++ (chunk.drop off).take (needed - framer.len)) with
    | error _ => exact reads_close _
    | ok msg =>
      have emptied : Retains { framer.copyTo framer.len ((chunk.drop off).take (needed - framer.len)) with len := 0 } [] :=
        ⟨retains.isOpen,rfl,.inl rfl⟩
      exact (later _ emptied (by omega)).cons msg
end

theorem consumeFrom_reads {framer : FrameBuffer} {unfinished chunk : List UInt8} {off bound : Nat}
    (retains : Retains framer unfinished) (enough : chunk.length - off < bound) :
    Reads (consumeFrom chunk bound framer off) (readBytes unfinished (chunk.drop off)) := by
  induction bound generalizing framer unfinished off with
  | zero => omega
  | succ bound ih =>
    by_cases fresh : unfinished = []
    · subst fresh
      exact consumeFrom_fresh retains enough (fun off more => ih retains more)
    · exact consumeFrom_retained retains fresh enough (fun off emptied more => ih emptied more)

/-- Feeding a chunk reads its bytes one by one. -/
theorem consume_reads {framer : FrameBuffer} {unfinished : List UInt8} (retains : Retains framer unfinished)
    (chunk : List UInt8) : Reads (framer.consume chunk) (readBytes unfinished chunk) := by
  rw [consume,if_neg (by rw [retains.isOpen]; simp)]
  exact consumeFrom_reads retains (by omega)

end FrameBuffer
end HyperMatch
