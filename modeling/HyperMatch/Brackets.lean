import Mathlib.Algebra.Ring.Parity
import Mathlib.Data.List.Infix

/-!
Text in brackets with quoted strings, such as one JSON object. A reader of such text
stands before its first bracket, inside it or behind its last one, and a text is whole
if it is one bracketed value and blanks. Texts without inner brackets are followed when
they are cut: a piece of one never closes what an earlier piece has left open.
-/
namespace HyperMatch.Brackets

/-- Where a reader stands; inside, under how many further brackets. -/
inductive Place where
  | before
  | inside (depth : Nat)
  | quoted (depth : Nat)
  | escaped (depth : Nat)
  | after
  | wrong
  deriving Repr, DecidableEq

def blank (c : Char) : Bool := c = ' ' ∨ c = '\t' ∨ c = '\n' ∨ c = '\r'
def opens (c : Char) : Bool := c = '\x7b' ∨ c = '['
def closes (c : Char) : Bool := c = '\x7d' ∨ c = ']'

def next : Place → Char → Place
  | .before,c => if opens c then .inside 0 else if blank c then .before else .wrong
  | .inside depth,c =>
    if c = '"' then .quoted depth
    else if opens c then .inside (depth + 1)
    else if closes c then (if depth = 0 then .after else .inside (depth - 1))
    else .inside depth
  | .quoted depth,c => if c = '"' then .inside depth else if c = '\\' then .escaped depth else .quoted depth
  | .escaped depth,_ => .quoted depth
  | .after,c => if blank c then .after else .wrong
  | .wrong,_ => .wrong

def read (place : Place) (text : List Char) : Place := text.foldl next place

/-- One bracketed value and blanks. -/
def Whole (text : List Char) : Prop := read .before text = .after

/-- No brackets and no escapes. -/
def Flat (text : List Char) : Prop := ∀ c ∈ text, opens c = false ∧ closes c = false ∧ c ≠ '\\'

instance (text : List Char) : Decidable (Flat text) :=
  List.decidableBAll (fun c => opens c = false ∧ closes c = false ∧ c ≠ '\\') text

/-- A flat text in braces, with all its quotes closed. -/
def Braced (text : List Char) : Prop :=
  ∃ body, text = '\x7b' :: body ++ ['\x7d'] ∧ Flat body ∧ Even (body.count '"')

/-- A reader inside something that is open. -/
def Within (place : Place) : Prop := ∃ depth, place = .inside depth ∨ place = .quoted depth

theorem read_append (place : Place) (first second : List Char) : read place (first ++ second) = read (read place first) second :=
  List.foldl_append

theorem read_cons (place : Place) (c : Char) (rest : List Char) : read place (c :: rest) = read (next place c) rest := rfl

/-- A flat text does not move a reader but in and out of quotes. -/
theorem read_flat {text : List Char} (flat : Flat text) (depth : Nat) :
    read (.inside depth) text = (if Even (text.count '"') then .inside depth else .quoted depth) ∧
      read (.quoted depth) text = (if Even (text.count '"') then .quoted depth else .inside depth) := by
  induction text with
  | nil => simp [read]
  | cons c rest ih =>
    obtain ⟨inside,quoted⟩ := ih (fun d member => flat d (List.mem_cons_of_mem _ member))
    obtain ⟨opening,closing,escape⟩ := flat c List.mem_cons_self
    rw [read_cons,read_cons]
    by_cases quote : c = '"'
    · subst quote
      have parity : Even (List.count '"' ('"' :: rest)) ↔ ¬ Even (rest.count '"') := by
        rw [List.count_cons_self,Nat.even_add_one]
      simp only [next,if_true,inside,quoted,parity]
      by_cases even : Even (rest.count '"') <;> simp [even]
    · have same : List.count '"' (c :: rest) = rest.count '"' := List.count_cons_of_ne quote
      simp only [next,if_neg quote,if_neg escape,opening,closing,Bool.false_eq_true,if_false,inside,quoted,same,and_self]

theorem read_wrong (text : List Char) : read .wrong text = .wrong := by
  induction text with
  | nil => rfl
  | cons c rest ih => exact ih

/-- Nothing but blanks may stand behind. -/
theorem read_after {c : Char} (visible : blank c = false) (rest : List Char) : read .after (c :: rest) = .wrong := by
  rw [read_cons,next,visible]
  exact read_wrong rest

theorem Flat.within {text : List Char} (flat : Flat text) {place : Place} (within : Within place) : Within (read place text) := by
  obtain ⟨depth,rfl | rfl⟩ := within
  · rw [(read_flat flat depth).1]
    split_ifs
    · exact ⟨depth,.inl rfl⟩
    · exact ⟨depth,.inr rfl⟩
  · rw [(read_flat flat depth).2]
    split_ifs
    · exact ⟨depth,.inr rfl⟩
    · exact ⟨depth,.inl rfl⟩

/-- What is left of a braced text when it is cut. -/
theorem braced_prefix {body piece : List Char} (begins : piece <+: '\x7b' :: body ++ ['\x7d']) :
    piece = [] ∨ piece = '\x7b' :: body ++ ['\x7d'] ∨ ∃ front, piece = '\x7b' :: front ∧ front <+: body := by
  rw [List.cons_append,List.prefix_cons_iff] at begins
  rcases begins with none | ⟨front,rfl,begins⟩
  · exact .inl none
  · rcases List.prefix_concat_iff.mp begins with rfl | begins
    · exact .inr (.inl rfl)
    · exact .inr (.inr ⟨front,rfl,begins⟩)

theorem Flat.of_prefix {body front : List Char} (flat : Flat body) (begins : front <+: body) : Flat front :=
  fun c member => flat c (begins.subset member)

/-- An opening brace keeps a reader inside. -/
theorem within_opening {place : Place} (within : Within place) : Within (next place '\x7b') := by
  obtain ⟨depth,rfl | rfl⟩ := within
  · exact ⟨depth + 1,.inl rfl⟩
  · exact ⟨depth,.inr rfl⟩

section
variable {text piece : List Char}

theorem Braced.whole (braced : Braced text) : Whole text := by
  obtain ⟨body,rfl,flat,even⟩ := braced
  have opening : next .before '\x7b' = .inside 0 := rfl
  rw [Whole,read_append,read_cons _ _ body,opening,(read_flat flat 0).1,if_pos even]
  rfl

/-- A reader inside something open stays there, whatever piece it reads. -/
theorem Braced.within (braced : Braced text) (cut : piece <+: text) {place : Place} (within : Within place) :
    Within (read place piece) := by
  obtain ⟨body,rfl,flat,even⟩ := braced
  rcases braced_prefix cut with rfl | rfl | ⟨front,rfl,begins⟩
  · exact within
  · rw [read_append,read_cons _ _ body]
    obtain ⟨depth,rfl | rfl⟩ := within
    · have opening : next (.inside depth) '\x7b' = .inside (depth + 1) := rfl
      rw [opening,(read_flat flat _).1,if_pos even]
      exact ⟨depth,.inl rfl⟩
    · have opening : next (.quoted depth) '\x7b' = .quoted depth := rfl
      rw [opening,(read_flat flat _).2,if_pos even]
      exact ⟨depth,.inr rfl⟩
  · rw [read_cons]
    exact (flat.of_prefix begins).within (within_opening within)

/-- A piece that is cut short leaves its reader inside. -/
theorem Braced.cut (braced : Braced text) (cut : piece <+: text) (some : piece ≠ []) (short : piece ≠ text) :
    Within (read .before piece) := by
  obtain ⟨body,rfl,flat,even⟩ := braced
  rcases braced_prefix cut with rfl | rfl | ⟨front,rfl,begins⟩
  · exact absurd rfl some
  · exact absurd rfl short
  · rw [read_cons]
    exact (flat.of_prefix begins).within ⟨0,.inl rfl⟩

/-- A piece that is not empty is seen. -/
theorem Braced.begins (braced : Braced text) (cut : piece <+: text) (some : piece ≠ []) :
    ∃ rest, piece = '\x7b' :: rest := by
  obtain ⟨body,rfl,_,_⟩ := braced
  rcases braced_prefix cut with rfl | rfl | ⟨front,rfl,_⟩
  · exact absurd rfl some
  · exact ⟨_,rfl⟩
  · exact ⟨front,rfl⟩
end

/-- A piece of some braced text. -/
def Piece (piece : List Char) : Prop := piece ≠ [] ∧ ∃ text, Braced text ∧ piece <+: text

theorem within_pieces {pieces : List (List Char)} (cut : ∀ piece ∈ pieces, Piece piece) {place : Place} (within : Within place) :
    Within (read place pieces.flatten) := by
  induction pieces generalizing place with
  | nil => exact within
  | cons piece rest ih =>
    obtain ⟨_,text,braced,begins⟩ := cut piece List.mem_cons_self
    rw [List.flatten_cons,read_append]
    exact ih (fun p member => cut p (List.mem_cons_of_mem _ member)) (braced.within begins within)

/-- Pieces one after another are whole only if they are one piece, and that is not cut. -/
theorem whole_pieces {pieces : List (List Char)} (cut : ∀ piece ∈ pieces, Piece piece) (whole : Whole pieces.flatten) :
    ∃ text, Braced text ∧ pieces = [text] := by
  cases pieces with
  | nil => cases whole
  | cons piece rest =>
    obtain ⟨some,text,braced,begins⟩ := cut piece List.mem_cons_self
    have others : ∀ p ∈ rest, Piece p := fun p member => cut p (List.mem_cons_of_mem _ member)
    rw [Whole,List.flatten_cons,read_append] at whole
    by_cases short : piece = text
    · subst short
      cases rest with
      | nil => exact ⟨piece,braced,rfl⟩
      | cons second more =>
        obtain ⟨some',text',braced',begins'⟩ := others second List.mem_cons_self
        obtain ⟨tail,rfl⟩ := braced'.begins begins' some'
        have ends : read .before piece = .after := braced.whole
        rw [ends,List.flatten_cons,List.cons_append,read_after rfl] at whole
        cases whole
    · obtain ⟨depth,place | place⟩ := within_pieces others (braced.cut begins some short)
      · rw [place] at whole
        cases whole
      · rw [place] at whole
        cases whole

end HyperMatch.Brackets
