import HyperMatch.Brackets
import HyperMatch.Sessions

/-!
The journal file as text: `append` and `read_records` of `gateway-server/src/journal.rs`.
A write that fails, or a process that is killed, may leave any part of a line behind;
the failure is logged, and later lines are written behind that part. What `serde_json`
makes of a line is given: it reads back what it has written, and it reads nothing but
one whole value.
-/
namespace HyperMatch.JournalText
open HyperMatch.Wire HyperMatch.Brackets
open HyperMatch.Sessions (ErrorKind JournalLine readLines readRecords toReplay)

/-! ### Writing -/

def number (n : Nat) : List Char := Nat.toDigits 10 n

def sideText : Side → List Char
  | .Buy => "buy".toList
  | .Sell => "sell".toList

def newTag : List Char := "\"type\":\"new\",\"order_id\":".toList
def sideKey : List Char := ",\"side\":\"".toList
def priceKey : List Char := "\",\"price_ticks\":".toList
def quantityKey : List Char := ",\"quantity\":".toList
def cancelTag : List Char := "\"type\":\"cancel\",\"order_id\":".toList

/-- The fields of a record, its tag first. -/
def fieldsText : JournalRecord → List Char
  | .New orderId side priceTicks quantity =>
    newTag ++ number orderId.toNat ++ sideKey ++ sideText side ++ priceKey ++ number priceTicks.toNat ++ quantityKey ++
      number quantity.toNat
  | .Cancel orderId => cancelTag ++ number orderId.toNat

/-- `serde_json::to_string` of a record. -/
def toText (record : JournalRecord) : List Char := '\x7b' :: fieldsText record ++ ['\x7d']

/-- A call of `append` and how much of its line has reached the file. -/
structure Write where
  record : JournalRecord
  written : Nat
  fits : written ≤ (toText record).length + 1

def Write.text (write : Write) : List Char := (toText write.record ++ ['\n']).take write.written

def textOf (writes : List Write) : List Char := writes.flatMap Write.text

/-! ### Reading -/

/-- `char::is_whitespace`. -/
def white (c : Char) : Bool :=
  (9 ≤ c.toNat ∧ c.toNat ≤ 13) ∨ c.toNat = 32 ∨ c.toNat = 0x85 ∨ c.toNat = 0xA0 ∨ c.toNat = 0x1680 ∨
    (0x2000 ≤ c.toNat ∧ c.toNat ≤ 0x200A) ∨ c.toNat = 0x2028 ∨ c.toNat = 0x2029 ∨ c.toNat = 0x202F ∨ c.toNat = 0x205F ∨
    c.toNat = 0x3000

/-- A line without the carriage return before its end. -/
def chomp (line : List Char) : List Char := if line.getLast? = some '\r' then line.dropLast else line

/-- `BufRead::lines`, with the line that is being read. -/
def splitLines : List Char → List Char → List (List Char)
  | [],[] => []
  | current,[] => [current]
  | current,c :: rest => if c = '\n' then chomp current :: splitLines [] rest else splitLines (current ++ [c]) rest

def lines (text : List Char) : List (List Char) := splitLines [] text

section
variable (fromStr : List Char → Option JournalRecord)

/-- What the loop of `read_records` makes of a line. -/
def lineOf (line : List Char) : JournalLine :=
  if line.all white then .blank
  else match fromStr line with
    | some record => .record record
    | none => .malformed

def readText (text : List Char) : Except ErrorKind (List JournalRecord) := readRecords (.ok ((lines text).map (lineOf fromStr)))

/-- What is assumed of `serde_json::from_str`: it reads back what `to_string` has written,
    and what it reads is one JSON value and blanks. -/
structure Serde : Prop where
  reads : ∀ record, fromStr (toText record) = some record
  whole : ∀ line record, fromStr line = some record → Whole line
end

/-- Every line but the last is whole, and that lacks no more than its end. -/
def Intact : List Write → Prop
  | [] => True
  | [last] => (toText last.record).length ≤ last.written
  | write :: rest => write.written = (toText write.record).length + 1 ∧ Intact rest

/-- The writes of which anything has reached the file. -/
def begun (writes : List Write) : List Write := writes.filter (fun write => 0 < write.written)

/-! ### The text of a record -/

theorem digit_apart {n : Nat} {c d : Char} (member : c ∈ number n) (other : d.isDigit = false) : c ≠ d := by
  rintro rfl
  have digit := Nat.isDigit_of_mem_toDigits (by decide) (by decide) member
  rw [digit] at other
  cases other

theorem flat_number (n : Nat) : Flat (number n) := by
  intro c member
  have apart : ∀ d : Char, d.isDigit = false → c ≠ d := fun d other => digit_apart member other
  simp [opens,closes,apart '\x7b' rfl,apart '[' rfl,apart '\x7d' rfl,apart ']' rfl,apart '\\' rfl]

theorem number_unquoted (n : Nat) : (number n).count '"' = 0 :=
  List.count_eq_zero.mpr (fun member => digit_apart member rfl rfl)

theorem flat_append {first second : List Char} (flat : Flat first) (flat' : Flat second) : Flat (first ++ second) := by
  intro c member
  exact (List.mem_append.mp member).elim (flat c) (flat' c)

theorem flat_fields (record : JournalRecord) : Flat (fieldsText record) := by
  cases record with
  | New orderId side priceTicks quantity =>
    have tag : Flat newTag := by decide +kernel
    have sides : Flat (sideKey ++ sideText side ++ priceKey) := by cases side <;> decide +kernel
    have last : Flat quantityKey := by decide +kernel
    have first := flat_append (flat_append tag (flat_number orderId.toNat)) sides
    have all := flat_append (flat_append (flat_append first (flat_number priceTicks.toNat)) last) (flat_number quantity.toNat)
    simpa only [fieldsText,List.append_assoc] using all
  | Cancel orderId =>
    have tag : Flat cancelTag := by decide +kernel
    exact flat_append tag (flat_number _)

theorem quotes_closed (record : JournalRecord) : Even ((fieldsText record).count '"') := by
  cases record with
  | New orderId side priceTicks quantity =>
    simp only [fieldsText,List.count_append,number_unquoted]
    cases side <;> decide +kernel
  | Cancel orderId =>
    simp only [fieldsText,List.count_append,number_unquoted]
    decide +kernel

theorem braced_toText (record : JournalRecord) : Braced (toText record) :=
  ⟨fieldsText record,rfl,flat_fields record,quotes_closed record⟩

theorem newline_fields (record : JournalRecord) : '\n' ∉ fieldsText record := by
  cases record with
  | New orderId side priceTicks quantity =>
    have digits : ∀ n, '\n' ∉ number n := fun n member => digit_apart member rfl rfl
    simp only [fieldsText,List.mem_append,not_or]
    refine ⟨⟨⟨⟨⟨⟨⟨?_,digits _⟩,?_⟩,?_⟩,?_⟩,digits _⟩,?_⟩,digits _⟩
    · decide +kernel
    · decide +kernel
    · cases side <;> decide +kernel
    · decide +kernel
    · decide +kernel
  | Cancel orderId =>
    have digits : ∀ n, '\n' ∉ number n := fun n member => digit_apart member rfl rfl
    simp only [fieldsText,List.mem_append,not_or]
    exact ⟨by decide +kernel,digits _⟩

/-- A record is one line. -/
theorem newline_toText (record : JournalRecord) : '\n' ∉ toText record := by
  simp only [toText,List.mem_append,List.mem_cons,not_or]
  refine ⟨⟨by decide,newline_fields record⟩,by decide,by simp⟩

/-! ### Lines -/

/-- What holds no newline goes on with the line. -/
theorem splitLines_append {piece : List Char} (line : '\n' ∉ piece) (current rest : List Char) :
    splitLines current (piece ++ rest) = splitLines (current ++ piece) rest := by
  induction piece generalizing current with
  | nil => simp
  | cons c more ih =>
    simp only [List.mem_cons,not_or] at line
    have other : c ≠ '\n' := fun same => line.1 same.symm
    rw [List.cons_append,splitLines,if_neg other,ih line.2]
    simp

theorem splitLines_end {current : List Char} (some : current ≠ []) : splitLines current [] = [current] := by
  cases current with
  | nil => exact absurd rfl some
  | cons c rest => rfl

theorem chomp_append_toText (current : List Char) (record : JournalRecord) : chomp (current ++ toText record) = current ++ toText record := by
  have last : (current ++ toText record).getLast? = some '\x7d' := by
    rw [toText,← List.append_assoc,List.getLast?_concat]
  rw [chomp,last,if_neg (by decide)]

/-- A whole line ends the line. -/
theorem splitLines_line (current : List Char) (record : JournalRecord) (rest : List Char) :
    splitLines current (toText record ++ ['\n'] ++ rest) = (current ++ toText record) :: splitLines [] rest := by
  rw [List.append_assoc,splitLines_append (newline_toText record),List.cons_append,splitLines,if_pos rfl,
    chomp_append_toText,List.nil_append]

/-! ### Writes -/

section
variable {write : Write}

theorem Write.text_whole (whole : write.written = (toText write.record).length + 1) :
    write.text = toText write.record ++ ['\n'] := by
  rw [Write.text,whole]
  exact List.take_of_length_le (by simp)

theorem Write.text_cut (short : write.written ≤ (toText write.record).length) :
    write.text = (toText write.record).take write.written := List.take_append_of_le_length short

theorem Write.piece (some : 0 < write.written) (short : write.written ≤ (toText write.record).length) :
    Piece ((toText write.record).take write.written) := by
  refine ⟨?_,toText write.record,braced_toText write.record,List.take_prefix _ _⟩
  intro nothing
  have none := congrArg List.length nothing
  rw [List.length_take,List.length_nil] at none
  omega

theorem newline_cut (record : JournalRecord) (count : Nat) : '\n' ∉ (toText record).take count :=
  fun member => newline_toText record (List.mem_of_mem_take member)

theorem textOf_cons (write : Write) (rest : List Write) : textOf (write :: rest) = write.text ++ textOf rest := by
  rw [textOf,List.flatMap_cons]
  rfl

/-- Writes that never began leave nothing. -/
theorem textOf_begun (writes : List Write) : textOf (begun writes) = textOf writes := by
  induction writes with
  | nil => rfl
  | cons write rest ih =>
    rw [textOf_cons,begun,List.filter_cons]
    by_cases some : 0 < write.written
    · rw [if_pos (by simpa using some),textOf_cons]
      exact congrArg _ ih
    · have none : write.text = [] := by
        rw [Write.text,Nat.eq_zero_of_not_pos some,List.take_zero]
      rw [if_neg (by simpa using some),none]
      exact ih

/-- The line that pieces have begun goes on with the pieces that follow, to the first
    whole line or to the end. -/
theorem first_line {writes : List Write} (some : ∀ write ∈ writes, 0 < write.written) {pieces : List (List Char)}
    (proper : pieces.flatten ≠ []) :
    ∃ more rest, splitLines pieces.flatten (textOf writes) = (pieces ++ more).flatten :: rest ∧
      (∀ piece ∈ more, Piece piece) ∧ (writes ≠ [] → more ≠ []) := by
  induction writes generalizing pieces with
  | nil => exact ⟨[],[],by rw [List.append_nil]; exact splitLines_end proper,by simp,by simp⟩
  | cons write rest ih =>
    have here := some write List.mem_cons_self
    rw [textOf_cons]
    by_cases whole : write.written = (toText write.record).length + 1
    · rw [Write.text_whole whole,splitLines_line]
      refine ⟨[toText write.record],_,by rw [List.flatten_append,List.flatten_singleton],?_,by simp⟩
      intro piece member
      rw [List.mem_singleton.mp member]
      exact ⟨by simp [toText],_,braced_toText write.record,List.prefix_refl _⟩
    · have short : write.written ≤ (toText write.record).length := by
        have fits := write.fits
        omega
      have joined : pieces.flatten ++ (toText write.record).take write.written =
          (pieces ++ [(toText write.record).take write.written]).flatten := by
        rw [List.flatten_append,List.flatten_singleton]
      have proper' : (pieces ++ [(toText write.record).take write.written]).flatten ≠ [] := by
        rw [← joined]
        exact List.append_ne_nil_of_left_ne_nil proper _
      obtain ⟨more,after,split,cut,_⟩ := ih (fun w member => some w (List.mem_cons_of_mem _ member)) proper'
      refine ⟨(toText write.record).take write.written :: more,after,?_,?_,by simp⟩
      · rw [Write.text_cut short,splitLines_append (newline_cut _ _),joined,split,List.append_assoc,List.singleton_append]
      · intro piece member
        rcases List.mem_cons.mp member with rfl | later
        · exact Write.piece here short
        · exact cut piece later
end

/-! ### Reading back -/

section
variable {fromStr : List Char → Option JournalRecord}

theorem lineOf_record (serde : Serde fromStr) (record : JournalRecord) : lineOf fromStr (toText record) = .record record := by
  have visible : ¬ (toText record).all white = true := by
    rw [toText,List.cons_append,List.all_cons]
    simp [white]
  rw [lineOf,if_neg visible,serde.reads]

/-- Pieces that are not one whole text are no record. -/
theorem lineOf_pieces (serde : Serde fromStr) {pieces : List (List Char)} (cut : ∀ piece ∈ pieces, Piece piece)
    (proper : pieces ≠ []) (apart : ∀ text, Braced text → pieces ≠ [text]) : lineOf fromStr pieces.flatten = .malformed := by
  have visible : ¬ pieces.flatten.all white = true := by
    cases pieces with
    | nil => exact absurd rfl proper
    | cons piece rest =>
      obtain ⟨some,text,braced,begins⟩ := cut piece List.mem_cons_self
      obtain ⟨tail,rfl⟩ := braced.begins begins some
      rw [List.flatten_cons,List.cons_append,List.all_cons]
      simp [white]
  rw [lineOf,if_neg visible]
  cases found : fromStr pieces.flatten with
  | none => rfl
  | some record =>
    obtain ⟨text,braced,same⟩ := whole_pieces cut (serde.whole _ record found)
    exact absurd same (apart text braced)

/-- A text that is cut short is not braced. -/
theorem cut_apart {record : JournalRecord} {count : Nat} (some : 0 < count) (short : count < (toText record).length)
    (text : List Char) (braced : Braced text) : [(toText record).take count] ≠ [text] := by
  intro same
  have whole : Whole ((toText record).take count) := by
    rw [(List.cons.inj same).1]
    exact braced.whole
  have different : (toText record).take count ≠ toText record := by
    intro all
    have lengths := congrArg List.length all
    rw [List.length_take] at lengths
    omega
  have nonempty : (toText record).take count ≠ [] := by
    intro none
    have lengths := congrArg List.length none
    rw [List.length_take,List.length_nil] at lengths
    omega
  obtain ⟨depth,place | place⟩ := (braced_toText record).cut (List.take_prefix _ _) nonempty different
  · rw [Whole,place] at whole
    cases whole
  · rw [Whole,place] at whole
    cases whole

instance decidableIntact : DecidablePred Intact
  | [] => .isTrue trivial
  | [_] => inferInstanceAs (Decidable (_ ≤ _))
  | _ :: next :: rest =>
    have : Decidable (Intact (next :: rest)) := decidableIntact (next :: rest)
    inferInstanceAs (Decidable (_ ∧ _))

theorem intact_whole {write : Write} (whole : write.written = (toText write.record).length + 1) (rest : List Write) :
    Intact (write :: rest) ↔ Intact rest := by
  cases rest with
  | nil => simp [Intact,whole]
  | cons next rest => exact ⟨fun intact => intact.2,fun intact => ⟨whole,intact⟩⟩

/-- The loop over the lines gives back every record, or none. -/
theorem readLines_textOf (serde : Serde fromStr) {writes : List Write} (some : ∀ write ∈ writes, 0 < write.written)
    (records : List JournalRecord) :
    readLines ((lines (textOf writes)).map (lineOf fromStr)) records =
      if Intact writes then .ok (records ++ writes.map Write.record) else .error .InvalidData := by
  induction writes generalizing records with
  | nil => simp [textOf,lines,splitLines,readLines,Intact]
  | cons write rest ih =>
    have here := some write List.mem_cons_self
    have later : ∀ w ∈ rest, 0 < w.written := fun w member => some w (List.mem_cons_of_mem _ member)
    rw [textOf_cons]
    by_cases whole : write.written = (toText write.record).length + 1
    · rw [lines,Write.text_whole whole,splitLines_line,List.nil_append,List.map_cons,lineOf_record serde,readLines,← lines,
        ih later]
      simp only [intact_whole whole,List.map_cons,List.append_assoc,List.singleton_append]
    · have short : write.written ≤ (toText write.record).length := by
        have fits := write.fits
        omega
      have cut := Write.piece here short
      rw [lines,Write.text_cut short,splitLines_append (newline_cut _ _),List.nil_append]
      cases rest with
      | nil =>
        rw [textOf,List.flatMap_nil,splitLines_end cut.1,List.map_singleton]
        by_cases all : (toText write.record).length ≤ write.written
        · -- only the end of the last line is missing
          rw [List.take_of_length_le all,lineOf_record serde,readLines,readLines,if_pos (show Intact [write] from all)]
          rfl
        · have single : ∀ piece ∈ [(toText write.record).take write.written], Piece piece := by simpa using cut
          have malformed := lineOf_pieces serde single (by simp) (cut_apart here (Nat.lt_of_not_le all))
          rw [List.flatten_singleton] at malformed
          rw [malformed,readLines,if_neg (show ¬ Intact [write] from all)]
      | cons next rest =>
        have proper : [(toText write.record).take write.written].flatten ≠ [] := by simpa using cut.1
        obtain ⟨more,after,split,others,follows⟩ := first_line later proper
        obtain ⟨second,more,rfl⟩ := List.exists_cons_of_ne_nil (follows (by simp))
        have pieces : ∀ piece ∈ [(toText write.record).take write.written] ++ second :: more, Piece piece := by
          intro piece member
          rcases List.mem_cons.mp member with rfl | member
          · exact cut
          · exact others piece member
        rw [List.flatten_singleton] at split
        rw [split,List.map_cons,lineOf_pieces serde pieces (by simp) (by simp),readLines,if_neg]
        exact fun intact => whole intact.1
end

section
variable {fromStr : List Char → Option JournalRecord}

/-- Whatever parts of its lines have reached the file, in whatever order of failures and
    restarts: the journal is read back in full if every line but the last is whole and
    the last lacks at most its end, and else nothing of it is read, and nothing replayed. -/
theorem journal_read_exact (serde : Serde fromStr) (writes : List Write) :
    (readText fromStr (textOf writes) =
        if Intact (begun writes) then .ok ((begun writes).map Write.record) else .error .InvalidData) ∧
      toReplay (some (.ok ((lines (textOf writes)).map (lineOf fromStr)))) =
        if Intact (begun writes) then (begun writes).map Write.record else [] := by
  have some : ∀ write ∈ begun writes, 0 < write.written := by
    intro write member
    simpa using (List.mem_filter.mp member).2
  have exact' := readLines_textOf serde some []
  rw [textOf_begun,List.nil_append] at exact'
  refine ⟨exact',?_⟩
  rw [toReplay,readRecords,exact']
  split_ifs
  · rfl
  · rfl
end

/-! ### A reader of what is written -/

def valueOf (text : List Char) : Nat := Nat.ofDigitChars 10 (text.takeWhile Char.isDigit) 0
def afterNumber (text : List Char) : List Char := text.dropWhile Char.isDigit

/-- The record that a text would be. -/
def candidate (text : List Char) : JournalRecord :=
  let fields := text.drop 1
  if cancelTag.isPrefixOf fields then .Cancel (UInt64.ofNat (valueOf (fields.drop cancelTag.length)))
  else
    let order := fields.drop newTag.length
    let sides := (afterNumber order).drop sideKey.length
    let side := if (sideText .Buy).isPrefixOf sides then Side.Buy else Side.Sell
    let price := (sides.drop (sideText side).length).drop priceKey.length
    let quantity := (afterNumber price).drop quantityKey.length
    .New (UInt64.ofNat (valueOf order)) side (UInt64.ofNat (valueOf price)) (UInt32.ofNat (valueOf quantity))

/-- Reads just the texts that are written. -/
def reread (text : List Char) : Option JournalRecord :=
  if toText (candidate text) = text then some (candidate text) else none

theorem digits_number (n : Nat) : ∀ d ∈ number n, Char.isDigit d = true :=
  fun _ member => Nat.isDigit_of_mem_toDigits (by decide) (by decide) member

section
variable {rest : List Char} {c : Char} (next : rest.head? = some c) (apart : c.isDigit = false)
include next apart

theorem valueOf_number (n : Nat) : valueOf (number n ++ rest) = n := by
  obtain ⟨tail,rfl⟩ := List.head?_eq_some_iff.mp next
  rw [valueOf,List.takeWhile_append_of_pos (digits_number n),List.takeWhile_cons_of_neg (by simp [apart]),List.append_nil]
  exact Nat.ofDigitChars_ten_toDigits

theorem afterNumber_number (n : Nat) : afterNumber (number n ++ rest) = rest := by
  obtain ⟨tail,rfl⟩ := List.head?_eq_some_iff.mp next
  rw [afterNumber,List.dropWhile_append_of_pos (digits_number n),List.dropWhile_cons_of_neg (by simp [apart])]
end

/-- The two tags are told apart by their first letters. -/
theorem tags_apart (rest : List Char) : ¬ cancelTag.isPrefixOf (newTag ++ rest) = true := by
  rw [List.isPrefixOf_iff_prefix]
  intro begins
  have same : (newTag ++ rest).take 9 = cancelTag.take 9 := by
    obtain ⟨more,split⟩ := begins
    rw [← split,List.take_append_of_le_length (by decide +kernel)]
  rw [List.take_append_of_le_length (by decide +kernel)] at same
  exact absurd same (by decide +kernel)

theorem sides_told (side : Side) (rest : List Char) :
    (if (sideText .Buy).isPrefixOf (sideText side ++ rest) then Side.Buy else Side.Sell) = side := by
  cases side with
  | Buy => rw [if_pos (List.isPrefixOf_iff_prefix.mpr (List.prefix_append _ _))]
  | Sell =>
    rw [if_neg]
    rw [List.isPrefixOf_iff_prefix]
    intro begins
    have same : (sideText .Sell ++ rest).take 1 = (sideText .Buy).take 1 := by
      obtain ⟨more,split⟩ := begins
      rw [← split,List.take_append_of_le_length (by decide +kernel)]
    rw [List.take_append_of_le_length (by decide +kernel)] at same
    exact absurd same (by decide +kernel)

theorem head_append {first : List Char} {c : Char} (head : first.head? = some c) (rest : List Char) :
    (first ++ rest).head? = some c := by
  rw [List.head?_append,head]
  rfl

theorem candidate_toText (record : JournalRecord) : candidate (toText record) = record := by
  cases record with
  | Cancel orderId =>
    have fields : (toText (.Cancel orderId)).drop 1 = cancelTag ++ (number orderId.toNat ++ ['\x7d']) := by
      simp [toText,fieldsText]
    rw [candidate]
    simp only [fields]
    rw [if_pos (List.isPrefixOf_iff_prefix.mpr (List.prefix_append _ _)),List.drop_left,valueOf_number rfl rfl,UInt64.ofNat_toNat]
  | New orderId side priceTicks quantity =>
    have fields : (toText (.New orderId side priceTicks quantity)).drop 1 =
        newTag ++ (number orderId.toNat ++ (sideKey ++ (sideText side ++ (priceKey ++ (number priceTicks.toNat ++
          (quantityKey ++ (number quantity.toNat ++ ['\x7d']))))))) := by
      simp [toText,fieldsText]
    have comma : ∀ rest, (sideKey ++ rest).head? = some ',' := head_append (by decide +kernel)
    have comma' : ∀ rest, (quantityKey ++ rest).head? = some ',' := head_append (by decide +kernel)
    rw [candidate]
    simp only [fields]
    rw [if_neg (tags_apart _)]
    simp only [List.drop_left,afterNumber_number (comma _) rfl,sides_told,valueOf_number (comma _) rfl,
      valueOf_number (comma' _) rfl,afterNumber_number (comma' _) rfl]
    rw [valueOf_number rfl rfl,UInt64.ofNat_toNat,UInt64.ofNat_toNat,UInt32.ofNat_toNat]

theorem serde_reread : Serde reread := by
  constructor
  · intro record
    rw [reread,candidate_toText,if_pos rfl]
  · intro line record found
    rw [reread] at found
    split_ifs at found with same
    rw [← same]
    exact (braced_toText _).whole

/-- A bid, the ten first characters of its cancellation, and an ask behind them. -/
def torn : List Write :=
  [⟨.New 5 .Buy 100 3,(toText (.New 5 .Buy 100 3)).length + 1,Nat.le_refl _⟩,⟨.Cancel 5,10,by decide +kernel⟩,
    ⟨.New 6 .Sell 100 3,(toText (.New 6 .Sell 100 3)).length + 1,Nat.le_refl _⟩]

theorem journal_read_exact_torn :
    Serde reread ∧ readText reread (textOf torn) = .error .InvalidData ∧
      toReplay (some (.ok ((lines (textOf torn)).map (lineOf reread)))) = [] ∧
      readText reread (textOf (torn.take 1)) = .ok [.New 5 .Buy 100 3] := by
  obtain ⟨read,replayed⟩ := journal_read_exact serde_reread torn
  have broken : ¬ Intact (begun torn) := by decide +kernel
  have whole : Intact (begun (torn.take 1)) := by decide +kernel
  rw [if_neg broken] at read replayed
  have first := (journal_read_exact serde_reread (torn.take 1)).1
  rw [if_pos whole] at first
  exact ⟨serde_reread,read,replayed,first⟩

end HyperMatch.JournalText
