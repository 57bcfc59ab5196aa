import Mathlib.Tactic.SplitIfs

/-!
A value that anyone may change and that one publisher shows to others. Whoever changes
the value sets a mark afterwards; the publisher takes the mark away, then reads the
value, then shows what it has read. Between any two of these the others may act. No
change is lost: as long as what is shown is not the value, a mark is set or about to be
set, or the publisher has yet to read (`Fresh`).
-/
namespace HyperMatch.Publishing

variable {V : Type}

inductive Publisher (V : Type) where
  | idle
  | took
  | holds (value : V)
  deriving Repr, DecidableEq

/-- The mark, how many have changed the value and not set it yet, and the publisher. -/
structure Board (V : Type) where
  marked : Bool
  unmarked : Nat
  publisher : Publisher V
  shown : V
  deriving Repr, DecidableEq

inductive Act where
  | mark
  | take
  | read
  | push
  deriving Repr, DecidableEq

namespace Board

def new (value : V) : Board V := ⟨false,0,.idle,value⟩

/-- The value has been changed, and not marked yet. -/
def changed (b : Board V) : Board V := { b with unmarked := b.unmarked + 1 }

def act (value : V) (b : Board V) : Act → Option (Board V)
  | .mark => if b.unmarked = 0 then none else some { b with marked := true, unmarked := b.unmarked - 1 }
  | .take =>
    match b.publisher with
    | .idle => some { b with marked := false, publisher := if b.marked then .took else .idle }
    | _ => none
  | .read =>
    match b.publisher with
    | .took => some { b with publisher := .holds value }
    | _ => none
  | .push =>
    match b.publisher with
    | .holds read => some { b with publisher := .idle, shown := read }
    | _ => none

/-- The acts while nobody changes the value. -/
def acts (value : V) (b : Board V) (acts : List Act) : Option (Board V) := acts.foldlM (act value) b

/-- The value is shown, or will be. -/
def Fresh (b : Board V) (value : V) : Prop :=
  b.marked = true ∨ 0 < b.unmarked ∨
    match b.publisher with
    | .idle => b.shown = value
    | .took => True
    | .holds read => read = value

/-- Nothing is about to happen. -/
structure Settled (b : Board V) : Prop where
  unmarked : b.marked = false
  all : b.unmarked = 0
  idle : b.publisher = .idle

section
variable {b b' : Board V} {value : V}

theorem fresh_new (value : V) : (new value).Fresh value := .inr (.inr rfl)

theorem fresh_changed (b : Board V) (value : V) : b.changed.Fresh value := .inr (.inl (Nat.succ_pos _))

theorem Settled.shown_eq (settled : Settled b) (fresh : b.Fresh value) : b.shown = value := by
  rw [Fresh,settled.unmarked,settled.all,settled.idle] at fresh
  simpa using fresh

theorem Fresh.act (fresh : b.Fresh value) {what : Act} (acted : b.act value what = some b') : b'.Fresh value := by
  cases what with
  | mark =>
    rw [Board.act] at acted
    split_ifs at acted
    cases acted
    exact .inl rfl
  | take =>
    rw [Board.act] at acted
    split at acted
    · rename_i idle
      cases acted
      by_cases marked : b.marked = true
      · exact .inr (.inr (by simp [marked]))
      · -- the mark was not set, so taking it takes nothing
        rw [Fresh,idle] at fresh
        rcases fresh with set | some | shown
        · exact absurd set marked
        · exact .inr (.inl some)
        · exact .inr (.inr (by simpa [marked] using shown))
    · cases acted
  | read =>
    rw [Board.act] at acted
    split at acted
    · cases acted
      exact .inr (.inr rfl)
    · cases acted
  | push =>
    rw [Board.act] at acted
    split at acted
    · rename_i read holds
      cases acted
      rw [Fresh,holds] at fresh
      exact fresh
    · cases acted

/-! ### A last round -/

theorem acts_append {value : V} {b middle : Board V} {first second : List Act} (ran : b.acts value first = some middle) :
    b.acts value (first ++ second) = middle.acts value second := by
  rw [acts,List.foldlM_append]
  rw [acts] at ran
  rw [ran]
  rfl

/-- Everyone who has changed the value marks it. -/
theorem mark_all (b : Board V) (value : V) :
    ∃ acts marked, b.acts value acts = some { b with marked := marked, unmarked := 0 } := by
  obtain ⟨marked,unmarked,publisher,shown⟩ := b
  induction unmarked generalizing marked with
  | zero => exact ⟨[],marked,rfl⟩
  | succ n ih =>
    obtain ⟨acts,marked,ran⟩ := ih true
    exact ⟨.mark :: acts,marked,ran⟩

/-- The publisher ends its round. -/
theorem end_round (b : Board V) (value : V) : ∃ acts shown, b.acts value acts = some { b with publisher := .idle, shown := shown } := by
  obtain ⟨marked,unmarked,publisher,shown⟩ := b
  cases publisher with
  | idle => exact ⟨[],shown,rfl⟩
  | took => exact ⟨[.read,.push],value,rfl⟩
  | holds read => exact ⟨[.push],read,rfl⟩

/-- However the board stands, it settles once the value is left alone. -/
theorem settles (b : Board V) (value : V) : ∃ acts b', b.acts value acts = some b' ∧ Settled b' := by
  obtain ⟨first,marked,marks⟩ := b.mark_all value
  obtain ⟨second,shown,ends⟩ := end_round { b with marked := marked, unmarked := 0 } value
  have before : b.acts value (first ++ second) = some ⟨marked,0,.idle,shown⟩ := by rw [acts_append marks,ends]
  cases marked with
  | false => exact ⟨_,_,before,rfl,rfl,rfl⟩
  | true =>
    refine ⟨first ++ second ++ [.take,.read,.push],⟨false,0,.idle,value⟩,?_,rfl,rfl,rfl⟩
    rw [acts_append before]
    rfl
end

end Board
end HyperMatch.Publishing
