import HyperMatch.FrameBuffer

/-!
A stream cut into chunks. Whatever the cut, `consume` delivers the messages of the
greedy parse of the whole stream (`parse`), closes where that parse stops, and keeps
the bytes that it leaves over.
-/
namespace HyperMatch.FrameBuffer
open HyperMatch.Wire HyperMatch.CppCodec

/-- The chunks of a stream fed one after another. -/
def consumeAll (framer : FrameBuffer) : List (List UInt8) → Option (List BinaryMessage × FrameBuffer)
  | [] => some ([],framer)
  | chunk :: chunks => do
    let (_,msgs,framer) ← framer.consume chunk
    let (more,framer) ← consumeAll framer chunks
    return (msgs ++ more,framer)

/-- The greedy parse: the type byte tells how many bytes to take, and these are
    decoded. The suffix that begins no whole frame is left over; nothing is, where a
    type byte is unknown or a whole frame does not decode. -/
def parse (stream : List UInt8) : List BinaryMessage × Option (List UInt8) :=
  if stream = [] then ([],some [])
  else
    match _known : frameLength (stream.headD 0) with
    | none => ([],none)
    | some needed =>
      if _short : stream.length < needed then ([],some stream)
      else
        match decode (stream.take needed) with
        | .error _ => ([],none)
        | .ok msg => (msg :: (parse (stream.drop needed)).1,(parse (stream.drop needed)).2)
termination_by stream.length
decreasing_by
  all_goals
    have wide := (frameLength_bounds _known).1
    rw [List.length_drop]
    omega

/-- No round of the loop of `consume` takes `len_` from a smaller `needed`. The rounds
    are those of `consumeFrom`. -/
def SubtractsSafely (chunk : List UInt8) : Nat → FrameBuffer → Nat → Prop
  | 0,_,_ => True
  | bound+1,framer,off =>
    if framer.len = 0 then
      ∀ needed msg, frameLength (chunk.getD off 0) = some needed → needed ≤ chunk.length - off →
        decode ((chunk.drop off).take needed) = .ok msg → SubtractsSafely chunk bound framer (off + needed)
    else
      ∀ needed, frameLength (framer.buf 0) = some needed → framer.len ≤ needed ∧
        let take := min (needed - framer.len) (chunk.length - off)
        let framer := { framer.copyTo framer.len ((chunk.drop off).take take) with len := framer.len + take }
        ∀ msg, needed ≤ framer.len → decode (framer.bytes needed) = .ok msg →
          SubtractsSafely chunk bound { framer with len := 0 } (off + take)

/-! ### The greedy parse, byte by byte -/

/-- A whole frame at the head of a stream. -/
theorem readBytes_whole {stream : List UInt8} {needed : Nat} (known : frameLength (stream.headD 0) = some needed)
    (whole : ¬ stream.length < needed) :
    readBytes [] stream =
      match decode (stream.take needed) with
      | .error _ => ([],none)
      | .ok msg => (msg :: (readBytes [] (stream.drop needed)).1,(readBytes [] (stream.drop needed)).2) := by
  have wide := (frameLength_bounds known).1
  have size : (stream.take needed).length = needed := by
    rw [List.length_take]
    omega
  have head : (stream.take needed).headD 0 = stream.headD 0 := by
    rw [List.headD_eq_head?_getD,List.headD_eq_head?_getD,List.head?_take,if_neg (by omega)]
  have proper : stream.take needed ≠ [] := by
    intro empty
    rw [empty,List.length_nil] at size
    omega
  have read := readBytes_frame [] (stream.take needed) proper (by rw [List.nil_append,head]; exact known)
    (by rw [List.nil_append]; exact size) (stream.drop needed)
  rw [List.take_append_drop,List.nil_append] at read
  exact read

/-- Reading byte by byte is parsing greedily. -/
theorem readBytes_parse (stream : List UInt8) : readBytes [] stream = parse stream := by
  fun_induction parse stream with
  | case1 => rfl
  | case2 stream proper unknown =>
    obtain ⟨byte,rest,rfl⟩ := List.exists_cons_of_ne_nil proper
    rw [List.headD_cons] at unknown
    rw [readBytes,readByte,List.nil_append,List.headD_cons,unknown]
  | case3 stream proper needed known short =>
    rw [readBytes_short (by rw [List.nil_append]; exact known) short,List.nil_append]
  | case4 stream proper needed known whole _ failed => rw [readBytes_whole known whole,failed]
  | case5 stream proper needed known whole msg decoded ih =>
    rw [readBytes_whole known whole,decoded]
    rw [ih]

/-- What the parse leaves over is an end of the stream. -/
theorem parse_suffix (stream : List UInt8) : ∀ last, (parse stream).2 = some last → last <:+ stream := by
  fun_induction parse stream with
  | case1 =>
    rintro last ⟨rfl⟩
    exact List.suffix_refl []
  | case2 => rintro last ⟨⟩
  | case3 stream =>
    rintro last ⟨rfl⟩
    exact List.suffix_refl stream
  | case4 => rintro last ⟨⟩
  | case5 stream _ needed _ _ _ _ ih =>
    intro last left
    exact (ih last left).trans (List.drop_suffix needed stream)

/-! ### Chunks -/

/-- A buffer that has read a stream: closed where reading it stops, else with what
    reading it leaves over. -/
def HasRead (framer : FrameBuffer) (left : Option (List UInt8)) : Prop :=
  match left with
  | none => framer.closed = true
  | some last => Retains framer last

theorem HasRead.closed {framer : FrameBuffer} {left : Option (List UInt8)} (after : HasRead framer left) :
    framer.closed = left.isNone := by
  cases left with
  | none => exact after
  | some last => exact after.isOpen

theorem consume_closed {framer : FrameBuffer} (stopped : framer.closed = true) (chunk : List UInt8) :
    framer.consume chunk = some (.Closed,[],framer) := by
  rw [consume,if_pos stopped]

theorem consumeAll_closed {framer : FrameBuffer} (stopped : framer.closed = true) (chunks : List (List UInt8)) :
    framer.consumeAll chunks = some ([],framer) := by
  induction chunks with
  | nil => rfl
  | cons chunk chunks ih =>
    rw [consumeAll,consume_closed stopped]
    simp [ih]

/-- A chunk fed to an open buffer. -/
theorem consume_retains {framer : FrameBuffer} {unfinished : List UInt8} (retains : Retains framer unfinished)
    (chunk : List UInt8) :
    ∃ status after, framer.consume chunk = some (status,(readBytes unfinished chunk).1,after) ∧
      HasRead after (readBytes unfinished chunk).2 := by
  obtain ⟨after,reads⟩ := consume_reads retains chunk
  cases ended : (readBytes unfinished chunk).2 with
  | none =>
    rw [ended] at reads
    exact ⟨.Closed,after,reads⟩
  | some last =>
    rw [ended] at reads
    exact ⟨.Ok,after,reads⟩

/-- Chunks fed to an open buffer read their concatenation. -/
theorem consumeAll_retains {framer : FrameBuffer} {unfinished : List UInt8} (retains : Retains framer unfinished)
    (chunks : List (List UInt8)) :
    ∃ after, framer.consumeAll chunks = some ((readBytes unfinished chunks.flatten).1,after) ∧
      HasRead after (readBytes unfinished chunks.flatten).2 := by
  induction chunks generalizing framer unfinished with
  | nil => exact ⟨framer,rfl,retains⟩
  | cons chunk chunks ih =>
    obtain ⟨status,middle,fed,left⟩ := consume_retains retains chunk
    rw [consumeAll,fed,List.flatten_cons,readBytes_append]
    cases ended : (readBytes unfinished chunk).2 with
    | none =>
      rw [ended] at left
      refine ⟨middle,?_,?_⟩
      · simp [consumeAll_closed left]
      · rw [ended]
        exact left
    | some last =>
      rw [ended] at left
      obtain ⟨after,rest,final⟩ := ih left
      refine ⟨after,?_,final⟩
      simp [rest]

/-! ### Arithmetic of the loop -/

/-- An emptied buffer never reaches the subtraction again. -/
theorem subtractsSafely_fresh (chunk : List UInt8) (bound : Nat) {framer : FrameBuffer} (off : Nat) (fresh : framer.len = 0) :
    SubtractsSafely chunk bound framer off := by
  induction bound generalizing off with
  | zero => trivial
  | succ bound ih =>
    rw [SubtractsSafely,if_pos fresh]
    rintro needed msg - - -
    exact ih (off + needed)

theorem Retains.begins {framer : FrameBuffer} {unfinished : List UInt8} (retains : Retains framer unfinished)
    (proper : framer.len ≠ 0) :
    framer.buf 0 = unfinished.headD 0 ∧
      ∃ needed, frameLength (framer.buf 0) = some needed ∧ framer.len < needed := by
  have first : framer.buf 0 = unfinished.headD 0 := by
    obtain ⟨n,positive⟩ := Nat.exists_eq_succ_of_ne_zero proper
    rw [← retains.held,bytes,positive,List.range_succ_eq_map]
    rfl
  have length := retains.length
  have some : unfinished ≠ [] := by
    rintro rfl
    exact proper length
  obtain ⟨needed,known,short⟩ := retains.begun.resolve_left some
  refine ⟨first,needed,?_,?_⟩
  · rw [first]
    exact known
  · rw [length]
    exact short

theorem Retains.subtractsSafely {framer : FrameBuffer} {unfinished : List UInt8} (retains : Retains framer unfinished)
    (chunk : List UInt8) (bound off : Nat) : SubtractsSafely chunk bound framer off := by
  cases bound with
  | zero => trivial
  | succ bound =>
    by_cases fresh : framer.len = 0
    · exact subtractsSafely_fresh chunk (bound + 1) off fresh
    · rw [SubtractsSafely,if_neg fresh]
      intro needed known
      obtain ⟨-,_,known',short⟩ := retains.begins fresh
      cases known.symm.trans known'
      refine ⟨short.le,?_⟩
      rintro take after msg - -
      exact subtractsSafely_fresh chunk bound _ rfl

/-- However a stream is cut, feeding its chunks delivers the messages of its greedy
    parse and ends as feeding it whole does. A closed buffer delivers nothing more.
    An open one holds the bytes left over, fewer than the frame they begin has; the
    next `consume` returns and subtracts nothing from a smaller number. -/
theorem consumeAll_framing (chunks : List (List UInt8)) :
    ∃ framer status whole,
      new.consumeAll chunks = some ((parse chunks.flatten).1,framer) ∧
      new.consume chunks.flatten = some (status,(parse chunks.flatten).1,whole) ∧
      framer.closed = whole.closed ∧ framer.closed = (parse chunks.flatten).2.isNone ∧
      (framer.closed = true → ∀ more, framer.consumeAll more = some ([],framer)) ∧
      (framer.closed = false →
        (∃ last, (parse chunks.flatten).2 = some last ∧ last <:+ chunks.flatten ∧
          framer.bytes framer.buffered = last ∧ framer.buffered = last.length ∧ framer.buffered ≤ 36 ∧
          (last ≠ [] → ∃ needed, frameLength (last.headD 0) = some needed ∧ framer.buffered < needed)) ∧
        ∀ chunk, (framer.consume chunk).isSome ∧ SubtractsSafely chunk (chunk.length + 1) framer 0) := by
  obtain ⟨framer,fed,after⟩ := consumeAll_retains retains_new chunks
  obtain ⟨status,whole,once,afterOnce⟩ := consume_retains retains_new chunks.flatten
  rw [readBytes_parse] at fed after once afterOnce
  refine ⟨framer,status,whole,fed,once,after.closed.trans afterOnce.closed.symm,after.closed,
    fun stopped more => consumeAll_closed stopped more,?_⟩
  intro running
  cases ended : (parse chunks.flatten).2 with
  | none =>
    rw [after.closed,ended] at running
    cases running
  | some last =>
    rw [ended] at after
    have retains : Retains framer last := after
    refine ⟨⟨last,rfl,parse_suffix _ last ended,retains.held,retains.length,?_,?_⟩,?_⟩
    · by_cases fresh : framer.len = 0
      · rw [buffered,fresh]
        omega
      · obtain ⟨-,needed,known,short⟩ := retains.begins fresh
        have most := (frameLength_bounds known).2
        rw [buffered]
        omega
    · intro proper
      have some : framer.len ≠ 0 := by
        rw [retains.length]
        exact fun zero => proper (List.eq_nil_of_length_eq_zero zero)
      obtain ⟨first,needed,known,short⟩ := retains.begins some
      rw [first] at known
      exact ⟨needed,known,short⟩
    · intro chunk
      obtain ⟨_,_,returned,-⟩ := consume_retains retains chunk
      exact ⟨by rw [returned]; rfl,retains.subtractsSafely chunk (chunk.length + 1) 0⟩

end HyperMatch.FrameBuffer
