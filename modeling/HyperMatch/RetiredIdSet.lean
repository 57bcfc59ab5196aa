import HyperMatch.Probing
import Mathlib.Data.List.Nodup
import Mathlib.Data.Nat.ModEq

/-!
`RetiredIdSet` of `cpp/engine/include/hme/matching_engine.hpp`: the identifiers
that have left the book, in an open-addressing table with a ring of their arrival.
The loops over the table are bounded by its size; `none` says that the bound was
not enough, which a table with an empty slot rules out. `Records` relates the set
to the queue of its identifiers, oldest first.
-/
namespace HyperMatch.RetiredIdSet
open HyperMatch.Probing
set_option linter.unusedSimpArgs false

/-! ### Constants -/

/-- `pow2_at_least`: the loop of doublings, at most one for each unit of `n`. -/
def doubleUpTo (n : Nat) : Nat → Nat → Nat
  | 0,p => p
  | bound+1,p => if p < n then doubleUpTo n bound (p <<< 1) else p
def pow2AtLeast (n : Nat) : Nat := doubleUpTo n n 1

/-- `log2_floor`, in the same way. -/
def countBits (n : Nat) : Nat → Nat → Nat
  | 0,l => l
  | bound+1,l => if 1 <<< (l+1) ≤ n then countBits n bound (l+1) else l
def log2Floor (n : Nat) : Nat := countBits n n 0

def kTableSize (capacity : Nat) : Nat := pow2AtLeast (2 * capacity)
def kMask (capacity : Nat) : Nat := kTableSize capacity - 1
def kBits (capacity : Nat) : Nat := log2Floor (kTableSize capacity)

structure Slot where
  key : UInt64 := 0
  occupied : Bool := false
  deriving Repr, DecidableEq

end HyperMatch.RetiredIdSet

namespace HyperMatch
open HyperMatch.Probing HyperMatch.RetiredIdSet

structure RetiredIdSet (capacity : Nat) where
  slots : Nat → Slot
  ring : Nat → UInt64
  ringHead : Nat
  count : Nat

namespace RetiredIdSet
variable {capacity : Nat}

def new : RetiredIdSet capacity := ⟨fun _ => {},fun _ => 0,0,0⟩

def home (capacity : Nat) (key : UInt64) : Nat :=
  ((key * 0x9E3779B97F4A7C15) >>> UInt64.ofNat (64 - kBits capacity)).toNat

/-- The next index of a probe sequence. -/
def advance (capacity i : Nat) : Nat := (i+1) &&& kMask capacity

/-- The slot of an identifier, `some none` (`kNoSlot`) when it is absent. -/
def findSlot (set : RetiredIdSet capacity) (id : UInt64) : Option (Option Nat) :=
  probe (advance capacity)
    (fun i => if (set.slots i).occupied then (if (set.slots i).key = id then some (some i) else none) else some none)
    (kTableSize capacity) (home capacity id)

def tableInsert (set : RetiredIdSet capacity) (id : UInt64) : Option (RetiredIdSet capacity) := do
  let i ← probe (advance capacity) (fun i => if (set.slots i).occupied then none else some i) (kTableSize capacity)
    (home capacity id)
  return { set with slots := Function.update set.slots i ⟨id,true⟩ }

/-- The loops of `erase` from a hole: the inner one advances past the keys that
    cannot move into it. -/
def shiftBack (capacity : Nat) : Nat → (Nat → Slot) → Nat → Nat → Option (Nat → Slot)
  | 0,_,_,_ => none
  | bound+1,slots,i,j =>
    let slots := Function.update slots i { slots i with occupied := false }
    match probe (advance capacity)
      (fun j =>
        if !(slots j).occupied then some none
        else
          let k := home capacity (slots j).key
          if (if i ≤ j then decide (i < k) && decide (k ≤ j) else decide (i < k) || decide (k ≤ j)) then none
          else some (some j))
      (kTableSize capacity) (advance capacity j) with
    | none => none
    | some none => some slots
    | some (some j) => shiftBack capacity bound (Function.update slots i (slots j)) j j

def erase (set : RetiredIdSet capacity) (id : UInt64) : Option (RetiredIdSet capacity) := do
  match ← set.findSlot id with
  | none => return set
  | some i =>
    let slots ← shiftBack capacity (kTableSize capacity) set.slots i i
    return { set with slots := slots }

def contains (set : RetiredIdSet capacity) (id : UInt64) : Option Bool := do
  return (← set.findSlot id).isSome

def insert (set : RetiredIdSet capacity) (id : UInt64) : Option (RetiredIdSet capacity) := do
  if (← set.findSlot id).isSome then return set
  let set ←
    if set.count = capacity then do
      let oldest := set.ring set.ringHead
      let set ← set.erase oldest
      pure { set with ringHead := (set.ringHead + 1) % capacity, count := set.count - 1 }
    else pure set
  let set ← set.tableInsert id
  let tail := (set.ringHead + set.count) % capacity
  return { set with ring := Function.update set.ring tail id, count := set.count + 1 }

def clear (set : RetiredIdSet capacity) : RetiredIdSet capacity :=
  { set with
    slots := fun i => if i < kTableSize capacity then {} else set.slots i
    count := 0
    ringHead := 0 }

/-! ### The table's size -/

theorem doubleUpTo_spec (n bound a : Nat) :
    ∃ b, doubleUpTo n bound (2^a) = 2^b ∧ a ≤ b ∧ (n ≤ 2^a + bound → n ≤ 2^b) ∧ (2^b = 2^a ∨ 2^b < 2*n) := by
  induction bound generalizing a with
  | zero => exact ⟨a,rfl,Nat.le_refl a,by simp,.inl rfl⟩
  | succ bound ih =>
    rw [doubleUpTo]
    by_cases less : 2^a < n
    · rw [if_pos less,Nat.shiftLeft_eq,← Nat.pow_add]
      obtain ⟨b,same,more,enough,small⟩ := ih (a+1)
      have positive := Nat.two_pow_pos a
      refine ⟨b,same,by omega,?_,?_⟩
      · intro bounded
        apply enough
        rw [Nat.pow_succ]
        omega
      · rcases small with double | small
        · rw [double,Nat.pow_succ]; omega
        · exact .inr small
    · rw [if_neg less]
      exact ⟨a,rfl,Nat.le_refl a,fun _ => by omega,.inl rfl⟩

theorem countBits_spec (b bound l : Nat) (low : l ≤ b) (high : b ≤ l + bound) : countBits (2^b) bound l = b := by
  induction bound generalizing l with
  | zero => simp only [countBits]; omega
  | succ bound ih =>
    rw [countBits,Nat.one_shiftLeft]
    by_cases more : l + 1 ≤ b
    · rw [if_pos (Nat.pow_le_pow_right (by omega) more)]
      exact ih (l+1) more (by omega)
    · have above : 2^b < 2^(l+1) := Nat.pow_lt_pow_right (by omega) (by omega)
      rw [if_neg (by omega)]
      omega

/-- A table of twice the capacity at least, of a power of two. -/
theorem tableSize_spec (positive : 0 < capacity) :
    ∃ b, kTableSize capacity = 2^b ∧ kBits capacity = b ∧ 1 ≤ b ∧ 2 * capacity ≤ 2^b := by
  obtain ⟨b,size,_,enough,tight⟩ := doubleUpTo_spec (2*capacity) (2*capacity) 0
  have room := enough (by omega)
  refine ⟨b,size,?_,?_,room⟩
  · rw [kBits,log2Floor,kTableSize,pow2AtLeast,show (1:Nat) = 2^0 from rfl,size]
    exact countBits_spec b _ 0 (by omega) (by have := Nat.lt_two_pow_self (n := b); omega)
  · by_contra zero
    obtain rfl : b = 0 := by omega
    omega

theorem home_lt (positive : 0 < capacity) (key : UInt64) :
    home capacity key < kTableSize capacity := by
  obtain ⟨b,size,bits,one,_⟩ := tableSize_spec positive
  have shift : (UInt64.ofNat (64 - b)).toNat % 64 = 64 - b := by
    rw [UInt64.toNat_ofNat_of_lt' (by simp only [UInt64.size]; omega)]
    omega
  rw [home,size,bits,UInt64.toNat_shiftRight,shift,Nat.shiftRight_eq_div_pow]
  apply Nat.div_lt_of_lt_mul
  rw [← Nat.pow_add]
  exact Nat.lt_of_lt_of_le (UInt64.toNat_lt _) (Nat.pow_le_pow_right (by omega) (by omega))

theorem advance_eq (positive : 0 < capacity) (i : Nat) (inside : i < kTableSize capacity) :
    advance capacity i = wrap (kTableSize capacity) (i+1) := by
  obtain ⟨b,size,_⟩ := tableSize_spec positive
  rw [size] at inside
  rw [advance,kMask,size,Nat.and_two_pow_sub_one_eq_mod]
  unfold wrap
  split_ifs with less
  · exact Nat.mod_eq_of_lt less
  · rw [show i + 1 = 2^b by omega,Nat.mod_self,Nat.sub_self]

/-! ### The table -/

/-- The identifier in a slot. -/
def held (slot : Slot) : Option UInt64 := if slot.occupied then some slot.key else none
def occupant (slots : Nat → Slot) (i : Nat) : Option UInt64 := held (slots i)

theorem occupant_update (slots : Nat → Slot) (i : Nat) (slot : Slot) :
    occupant (Function.update slots i slot) = Function.update (occupant slots) i (held slot) := by
  funext j
  simp only [occupant,Function.update_apply]
  split_ifs <;> rfl

/-- The slots hold these identifiers. -/
abbrev Table (capacity : Nat) (slots : Nat → Slot) (holds : UInt64 → Prop) : Prop :=
  Probed (kTableSize capacity) (home capacity) (occupant slots) holds

section
variable {set : RetiredIdSet capacity} {holds : UInt64 → Prop} (positive : 0 < capacity)
include positive

theorem findSlot_held (table : Table capacity set.slots holds) {id : UInt64} (member : holds id) :
    ∃ i, i < kTableSize capacity ∧ occupant set.slots i = some id ∧ set.findSlot id = some (some i) := by
  obtain ⟨i,inside,here⟩ := (table.keys id).mp member
  refine ⟨i,inside,here,?_⟩
  have found := table.find_held (advance_eq positive) inside here (Nat.le_refl _)
  rw [← found,findSlot]
  congr 1
  funext j
  by_cases full : (set.slots j).occupied = true
  · simp [seekKey,occupant,held,full]
  · simp [seekKey,occupant,held,full]

theorem findSlot_missing (table : Table capacity set.slots holds) {hole : Nat} (holeIn : hole < kTableSize capacity)
    (empty : occupant set.slots hole = none) {id : UInt64} (missing : ¬ holds id) : set.findSlot id = some none := by
  have found := table.find_missing (advance_eq positive) holeIn empty missing (Nat.le_refl _)
  rw [← found,findSlot]
  congr 1
  funext j
  by_cases full : (set.slots j).occupied = true
  · simp [seekKey,occupant,held,full]
  · simp [seekKey,occupant,held,full]

/-- The first free slot of a probe sequence is found. -/
theorem freeSlot_found (table : Table capacity set.slots holds) {hole : Nat} (holeIn : hole < kTableSize capacity)
    (empty : occupant set.slots hole = none) (id : UInt64) :
    ∃ d, d < kTableSize capacity ∧ occupant set.slots (wrap (kTableSize capacity) (home capacity id + d)) = none ∧
      (∀ c, c < d → occupant set.slots (wrap (kTableSize capacity) (home capacity id + c)) ≠ none) ∧
      set.tableInsert id = some { set with
        slots := Function.update set.slots (wrap (kTableSize capacity) (home capacity id + d)) ⟨id,true⟩ } := by
  obtain ⟨d,short,free,before⟩ := nearest_empty (table.homes id) holeIn empty
  have probed : probe (advance capacity) (fun i => if (set.slots i).occupied then none else some i) (kTableSize capacity)
      (home capacity id) = some (wrap (kTableSize capacity) (home capacity id + d)) := by
    refine probe_first (advance_eq positive) (table.homes id) short short ?_ ?_
    · intro c less
      have full := before c less
      simp only [occupant,held,ne_eq,ite_eq_right_iff,reduceCtorEq,imp_false,not_not] at full
      simp [full]
    · simp only [occupant,held,ite_eq_right_iff,reduceCtorEq,imp_false] at free
      simp [free]
  exact ⟨d,short,free,before,by simp [tableInsert,probed]⟩

theorem tableInsert_spec (table : Table capacity set.slots holds) {hole : Nat} (holeIn : hole < kTableSize capacity)
    (empty : occupant set.slots hole = none) {id : UInt64} (missing : ¬ holds id) :
    ∃ slots, set.tableInsert id = some { set with slots := slots } ∧ Table capacity slots (fun x => holds x ∨ x = id) := by
  obtain ⟨d,short,free,before,inserted⟩ := freeSlot_found positive table holeIn empty id
  refine ⟨_,inserted,?_⟩
  rw [Table,occupant_update]
  exact table.insert missing short free before

/-- The loops of `erase` end, and keep every other identifier. -/
theorem shiftBack_spec {slots : Nat → Slot} {wall hole cursor bound : Nat}
    (gap : Gap (kTableSize capacity) (home capacity) (Function.update (occupant slots) hole none) holds wall hole cursor)
    (enough : kTableSize capacity ≤ pos (kTableSize capacity) wall cursor + bound) :
    ∃ slots', shiftBack capacity bound slots hole cursor = some slots' ∧ Table capacity slots' holds := by
  induction bound generalizing slots hole cursor with
  | zero =>
    have short := gap.short
    omega
  | succ bound ih =>
    obtain ⟨emptied,emptied_def⟩ : ∃ emptied : Nat → Slot,
      emptied = Function.update slots hole { slots hole with occupied := false } := ⟨_,rfl⟩
    have content : occupant emptied = Function.update (occupant slots) hole none := by
      rw [emptied_def,occupant_update]; rfl
    rw [← content] at gap
    have visit : (fun j =>
        if !(emptied j).occupied then some none
        else
          let k := home capacity (emptied j).key
          if (if hole ≤ j then decide (hole < k) && decide (k ≤ j) else decide (hole < k) || decide (k ≤ j)) then none
          else some (some j)) = seekMove (home capacity) (occupant emptied) hole := by
      funext j
      by_cases full : (emptied j).occupied = true
      · by_cases order : hole ≤ j
        · simp [seekMove,occupant,held,full,Within,order]
        · simp [seekMove,occupant,held,full,Within,order]
      · simp [seekMove,occupant,held,full]
    rw [shiftBack]
    simp only [← emptied_def,visit]
    rcases gap.advance (advance_eq positive) (Nat.le_add_left (kTableSize capacity) _) with
      ⟨ended,probed⟩ | ⟨c,k,moved,gap',later,there,moves⟩
    · rw [ended]
      exact ⟨emptied,rfl,probed⟩
    · rw [moved]
      obtain ⟨nextIn,nextPos⟩ := pos_next gap'.wallIn gap'.cursorIn gap'.short
      have moved' := gap'.move there moves
      have filled : Function.update (occupant (Function.update emptied hole
            (emptied (wrap (kTableSize capacity) (c+1))))) (wrap (kTableSize capacity) (c+1)) none =
          Function.update (Function.update (occupant emptied) hole (some k)) (wrap (kTableSize capacity) (c+1)) none := by
        rw [occupant_update,← there]
        rfl
      rw [← filled] at moved'
      exact ih moved' (by omega)

theorem erase_spec (table : Table capacity set.slots holds) {wall : Nat} (wallIn : wall < kTableSize capacity)
    (empty : occupant set.slots wall = none) {id : UInt64} (member : holds id) :
    ∃ slots, set.erase id = some { set with slots := slots } ∧ Table capacity slots (fun x => holds x ∧ x ≠ id) := by
  obtain ⟨i,inside,here,found⟩ := findSlot_held positive table member
  have gap := table.gap wallIn empty inside here
  obtain ⟨slots,ran,result⟩ := shiftBack_spec positive gap (Nat.le_add_left (kTableSize capacity) _)
  exact ⟨slots,by simp [erase,found,ran],result⟩
end

/-! ### The queue of the set -/

/-- The set records these identifiers, oldest first. -/
structure Records (set : RetiredIdSet capacity) (ids : List UInt64) : Prop where
  table : Table capacity set.slots (· ∈ ids)
  distinct : ids.Nodup
  bounded : ids.length ≤ capacity
  count : set.count = ids.length
  headIn : set.ringHead < capacity
  ring : ∀ i, i < ids.length → ids[i]? = some (set.ring ((set.ringHead + i) % capacity))

/-- What an insertion makes of the queue. -/
def recorded (capacity : Nat) (ids : List UInt64) (id : UInt64) : List UInt64 :=
  if id ∈ ids then ids else (if ids.length = capacity then ids.tail else ids) ++ [id]

section
variable {set : RetiredIdSet capacity} {ids : List UInt64} (positive : 0 < capacity)
include positive

theorem records_new : Records (new : RetiredIdSet capacity) [] := by
  refine ⟨⟨home_lt positive,?_,?_,?_⟩,List.nodup_nil,Nat.zero_le _,rfl,positive,?_⟩
  · intro k; simp [occupant,held,new]
  · intro i j k _ _ found; simp [occupant,held,new] at found
  · intro i k _ found; simp [occupant,held,new] at found
  · intro i less; simp at less

theorem records_clear (set : RetiredIdSet capacity) : Records set.clear [] := by
  have cleared : ∀ i, i < kTableSize capacity → occupant set.clear.slots i = none := by
    intro i inside; simp [occupant,held,clear,inside]
  refine ⟨⟨home_lt positive,?_,?_,?_⟩,List.nodup_nil,Nat.zero_le _,rfl,positive,?_⟩
  · intro k
    simp only [List.not_mem_nil,false_iff,not_exists,not_and]
    intro i inside
    rw [cleared i inside]
    simp
  · intro i j k inside _ found; rw [cleared i inside] at found; cases found
  · intro i k inside found; rw [cleared i inside] at found; cases found
  · intro i less; simp at less

theorem Records.empty_slot (records : Records set ids) :
    ∃ i, i < kTableSize capacity ∧ occupant set.slots i = none := by
  obtain ⟨b,size,_,_,room⟩ := tableSize_spec positive
  have bounded := records.bounded
  exact records.table.empty_place (fun k m => m) (by rw [size]; omega)

theorem Records.contains_eq (records : Records set ids) (id : UInt64) :
    set.contains id = some (decide (id ∈ ids)) := by
  by_cases member : id ∈ ids
  · obtain ⟨i,_,_,found⟩ := findSlot_held positive records.table member
    simp [contains,found,member]
  · obtain ⟨hole,holeIn,empty⟩ := records.empty_slot positive
    simp [contains,findSlot_missing positive records.table holeIn empty member,member]

/-- Dropping the oldest identifier of a full set. -/
theorem Records.drop_oldest {oldest : UInt64} {rest : List UInt64} (records : Records set (oldest :: rest)) :
    ∃ slots, set.erase (set.ring set.ringHead) = some { set with slots := slots } ∧
      Records (⟨slots,set.ring,(set.ringHead + 1) % capacity,set.count - 1⟩ : RetiredIdSet capacity) rest := by
  have first : set.ring set.ringHead = oldest := by
    have zero := records.ring 0 (by simp)
    rw [Nat.add_zero,Nat.mod_eq_of_lt records.headIn] at zero
    simpa using zero.symm
  obtain ⟨hole,holeIn,empty⟩ := records.empty_slot positive
  have oldestIn : set.ring set.ringHead ∈ oldest :: rest := by rw [first]; exact List.mem_cons_self
  obtain ⟨slots,ran,table⟩ := erase_spec positive records.table holeIn empty oldestIn
  obtain ⟨absent,distinct⟩ := List.nodup_cons.mp records.distinct
  have bounded := records.bounded
  simp only [List.length_cons] at bounded
  refine ⟨slots,ran,⟨?_,distinct,by omega,?_,Nat.mod_lt _ positive,?_⟩⟩
  · have same : (fun x => x ∈ oldest :: rest ∧ x ≠ set.ring set.ringHead) = (· ∈ rest) := by
      funext x
      rw [first]
      apply propext
      constructor
      · rintro ⟨member,other⟩
        exact (List.mem_cons.mp member).resolve_left other
      · intro member
        exact ⟨List.mem_cons_of_mem _ member,by rintro rfl; exact absent member⟩
    rw [same] at table
    exact table
  · simp only [records.count,List.length_cons,Nat.add_sub_cancel]
  · intro i less
    have next := records.ring (i+1) (by simp only [List.length_cons]; omega)
    rw [List.getElem?_cons_succ] at next
    rw [next]
    simp only [Nat.mod_add_mod]
    rw [show set.ringHead + 1 + i = set.ringHead + (i+1) by omega]

/-- Appending a new identifier to a set with room. -/
theorem Records.append (records : Records set ids) {id : UInt64} (missing : id ∉ ids) (room : ids.length < capacity) :
    ∃ slots, set.tableInsert id = some { set with slots := slots } ∧
      Records (⟨slots,Function.update set.ring ((set.ringHead + set.count) % capacity) id,set.ringHead,set.count + 1⟩ :
        RetiredIdSet capacity) (ids ++ [id]) := by
  obtain ⟨hole,holeIn,empty⟩ := records.empty_slot positive
  obtain ⟨slots,ran,table⟩ := tableInsert_spec positive records.table holeIn empty missing
  refine ⟨slots,ran,⟨?_,?_,by simp only [List.length_append,List.length_singleton]; omega,
    by simp [records.count],records.headIn,?_⟩⟩
  · have same : (fun x => x ∈ ids ∨ x = id) = (· ∈ ids ++ [id]) := by
      funext x; simp
    rw [same] at table
    exact table
  · exact List.nodup_append.mpr ⟨records.distinct,List.nodup_singleton id,by
      rintro a inA b inB rfl
      rw [List.mem_singleton] at inB
      exact missing (inB ▸ inA)⟩
  · intro i less
    simp only [List.length_append,List.length_singleton] at less
    by_cases last : i = ids.length
    · subst last
      simp [records.count]
    · have inside : i < ids.length := by omega
      rw [List.getElem?_append_left inside,records.ring i inside]
      have headIn := records.headIn
      have other : (set.ringHead + i) % capacity ≠ (set.ringHead + set.count) % capacity := by
        rw [records.count]
        intro clash
        have same := Nat.ModEq.add_left_cancel' set.ringHead clash
        rw [Nat.ModEq,Nat.mod_eq_of_lt (by omega),Nat.mod_eq_of_lt room] at same
        omega
      simp only [Function.update_of_ne other]

/-- An insertion keeps at most `capacity` identifiers, the newest ones. -/
theorem Records.insert (records : Records set ids) (id : UInt64) :
    ∃ set', set.insert id = some set' ∧ Records set' (recorded capacity ids id) := by
  by_cases member : id ∈ ids
  · obtain ⟨i,_,_,found⟩ := findSlot_held positive records.table member
    refine ⟨set,by simp [RetiredIdSet.insert,found],?_⟩
    rw [recorded,if_pos member]
    exact records
  · obtain ⟨hole,holeIn,empty⟩ := records.empty_slot positive
    have missing := findSlot_missing positive records.table holeIn empty member
    rw [recorded,if_neg member]
    by_cases full : ids.length = capacity
    · cases ids with
      | nil => simp at full; omega
      | cons oldest rest =>
        obtain ⟨slots,erased,dropped⟩ := records.drop_oldest positive
        simp only [List.length_cons] at full
        have absent : id ∉ rest := fun inside => member (List.mem_cons_of_mem _ inside)
        obtain ⟨slots',inserted,appended⟩ := dropped.append positive absent (by omega)
        rw [if_pos (by rw [List.length_cons,full]),List.tail_cons]
        refine ⟨_,?_,appended⟩
        have atCapacity : set.count = capacity := by rw [records.count,List.length_cons,full]
        simp [RetiredIdSet.insert,missing,atCapacity,erased] at inserted ⊢
        simp [inserted]
    · obtain ⟨slots,inserted,appended⟩ := records.append positive member
        (Nat.lt_of_le_of_ne records.bounded full)
      rw [if_neg full]
      refine ⟨_,?_,appended⟩
      have below : set.count ≠ capacity := by rw [records.count]; exact full
      simp [RetiredIdSet.insert,missing,below,inserted]

/-- Every probe loop ends, on every identifier. -/
theorem Records.loops_end (records : Records set ids) (id : UInt64) :
    (set.findSlot id).isSome ∧ (set.tableInsert id).isSome ∧ (set.erase id).isSome := by
  obtain ⟨hole,holeIn,empty⟩ := records.empty_slot positive
  obtain ⟨_,_,_,_,inserted⟩ := freeSlot_found positive records.table holeIn empty id
  by_cases member : id ∈ ids
  · obtain ⟨i,_,_,found⟩ := findSlot_held positive records.table member
    obtain ⟨slots,erased,_⟩ := erase_spec positive records.table holeIn empty member
    simp [found,inserted,erased]
  · have missing := findSlot_missing positive records.table holeIn empty member
    simp [missing,inserted,erase]
end

theorem occupant_eq_some {slots : Nat → Slot} {i : Nat} {id : UInt64} :
    occupant slots i = some id ↔ (slots i).occupied = true ∧ (slots i).key = id := by
  simp [occupant,held]

theorem Records.one_slot {set : RetiredIdSet capacity} {ids : List UInt64} (records : Records set ids) {id : UInt64}
    (member : id ∈ ids) :
    ∃! i, i < kTableSize capacity ∧ (set.slots i).occupied = true ∧ (set.slots i).key = id := by
  obtain ⟨i,inside,here⟩ := (records.table.keys id).mp member
  refine ⟨i,⟨inside,occupant_eq_some.mp here⟩,?_⟩
  rintro j ⟨insideJ,there⟩
  exact records.table.unique j i id insideJ inside (occupant_eq_some.mpr there) here

/-- The ring holds the queue. -/
theorem Records.mem_ring {set : RetiredIdSet capacity} {ids : List UInt64} (records : Records set ids) (id : UInt64) :
    (∃ j, j < set.count ∧ set.ring ((set.ringHead + j) % capacity) = id) ↔ id ∈ ids := by
  rw [List.mem_iff_getElem?]
  constructor
  · rintro ⟨j,inside,rfl⟩
    rw [records.count] at inside
    exact ⟨j,records.ring j inside⟩
  · rintro ⟨j,here⟩
    obtain ⟨inside,-⟩ := List.getElem?_eq_some_iff.mp here
    rw [records.ring j inside] at here
    exact ⟨j,by rw [records.count]; exact inside,Option.some.inj here⟩

/-! ### Whole runs -/

inductive Call where
  | insert (id : UInt64)
  | clear
  deriving Repr, DecidableEq

/-- The calls made one after another. -/
def call (set : RetiredIdSet capacity) : List Call → Option (RetiredIdSet capacity)
  | [] => some set
  | .insert id :: calls => do (← set.insert id).call calls
  | .clear :: calls => set.clear.call calls

/-- What a call makes of the queue. -/
def queued (capacity : Nat) (ids : List UInt64) : Call → List UInt64
  | .insert id => recorded capacity ids id
  | .clear => []

theorem Records.call {set : RetiredIdSet capacity} {ids : List UInt64} (positive : 0 < capacity)
    (records : Records set ids) (calls : List Call) :
    ∃ set', set.call calls = some set' ∧ Records set' (calls.foldl (queued capacity) ids) := by
  induction calls generalizing set ids with
  | nil => exact ⟨set,rfl,records⟩
  | cons first calls ih =>
    cases first with
    | insert id =>
      obtain ⟨middle,inserted,records'⟩ := records.insert positive id
      obtain ⟨set',ran,final⟩ := ih records'
      exact ⟨set',by simp [RetiredIdSet.call,inserted,ran],final⟩
    | clear => exact ih (records_clear positive set)

/-- Any calls on a new set leave it with the queue of the same calls: `contains` tells
    its members, ring and table hold them, each in one slot, and no probe loop from
    there runs on. -/
theorem retired_ids_are_queue (positive : 0 < capacity) (calls : List Call) :
    ∃ set : RetiredIdSet capacity, new.call calls = some set ∧
      (∀ id, set.contains id = some (decide (id ∈ calls.foldl (queued capacity) []))) ∧
      (∀ id, (set.findSlot id).isSome ∧ (set.tableInsert id).isSome ∧ (set.erase id).isSome) ∧
      (∀ key, home capacity key < kTableSize capacity) ∧
      (∀ id ∈ calls.foldl (queued capacity) [],
        ∃! i, i < kTableSize capacity ∧ (set.slots i).occupied = true ∧ (set.slots i).key = id) ∧
      (∀ id, (∃ i, i < kTableSize capacity ∧ (set.slots i).occupied = true ∧ (set.slots i).key = id) ↔
        ∃ j, j < set.count ∧ set.ring ((set.ringHead + j) % capacity) = id) := by
  obtain ⟨set,ran,records⟩ := (records_new positive).call positive calls
  refine ⟨set,ran,records.contains_eq positive,records.loops_end positive,home_lt positive,
    fun id member => records.one_slot member,?_⟩
  intro id
  rw [records.mem_ring,records.table.keys]
  simp only [occupant_eq_some]

/-- Three insertions into a set of two identifiers, one of them twice. -/
theorem retired_ids_are_queue_two :
    ∃ set : RetiredIdSet 2, new.call [.insert 5,.insert 5,.insert 6,.insert 7] = some set ∧
      set.contains 5 = some false ∧ set.contains 6 = some true ∧ set.contains 7 = some true := by
  obtain ⟨set,ran,told,-⟩ := retired_ids_are_queue Nat.two_pos [.insert 5,.insert 5,.insert 6,.insert 7]
  exact ⟨set,ran,told 5,told 6,told 7⟩

end RetiredIdSet
end HyperMatch
