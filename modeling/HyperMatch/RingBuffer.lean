import Mathlib.Data.List.Basic
import Mathlib.Logic.Function.Basic

/-!
The ring buffer of `cpp/engine/include/hme/ring_buffer.hpp`. It holds a list,
oldest element first: pushing appends while there is room and changes nothing
otherwise, popping takes the front.
-/
namespace HyperMatch

/-- A capacity that `RingBuffer` compiles for. -/
structure RingCapacity where
  size : Nat
  positive : 0 < size

structure RingBuffer (T : Type) (capacity : RingCapacity) where
  slots : Nat → T
  head : Nat
  tail : Nat
  count : Nat

namespace RingBuffer
variable {T : Type} {capacity : RingCapacity}

/-- Value-initialised slots. -/
def new (value : T) : RingBuffer T capacity := ⟨fun _ => value,0,0,0⟩

def size (ring : RingBuffer T capacity) : Nat := ring.count
def empty (ring : RingBuffer T capacity) : Bool := ring.count == 0
def full (ring : RingBuffer T capacity) : Bool := ring.count == capacity.size

def advance (capacity : RingCapacity) (index : Nat) : Nat := if index + 1 = capacity.size then 0 else index + 1

def tryPush (ring : RingBuffer T capacity) (value : T) : Bool × RingBuffer T capacity :=
  if ring.count = capacity.size then (false,ring)
  else
    (true,{ ring with
            slots := Function.update ring.slots ring.tail value
            tail := advance capacity ring.tail
            count := ring.count + 1 })

/-- The popped element, if there is one, and the ring. -/
def tryPop (ring : RingBuffer T capacity) : Option T × RingBuffer T capacity :=
  if ring.count = 0 then (none,ring)
  else (some (ring.slots ring.head),{ ring with head := advance capacity ring.head, count := ring.count - 1 })

/-! ### The list in a ring -/

/-- The slot that lies some places behind the head. -/
def place (capacity : RingCapacity) (head offset : Nat) : Nat :=
  if head + offset < capacity.size then head + offset else head + offset - capacity.size

def contents (ring : RingBuffer T capacity) : List T :=
  (List.range ring.count).map (fun i => ring.slots (place capacity ring.head i))

/-- The indices of a ring agree with its count, and these are its elements. -/
structure Holds (ring : RingBuffer T capacity) (elements : List T) : Prop where
  head : ring.head < capacity.size
  count : ring.count ≤ capacity.size
  tail : ring.tail = if ring.count = capacity.size then ring.head else place capacity ring.head ring.count
  elements : ring.contents = elements

theorem holds_new (value : T) : Holds (new value : RingBuffer T capacity) [] := by
  have positive := capacity.positive
  refine ⟨positive,Nat.zero_le _,?_,rfl⟩
  simp [new,place,positive]

section
variable {ring : RingBuffer T capacity} {elements : List T}

theorem Holds.length (holds : Holds ring elements) : ring.count = elements.length := by
  rw [← holds.elements,contents,List.length_map,List.length_range]

theorem Holds.length_le (holds : Holds ring elements) : elements.length ≤ capacity.size := by
  rw [← holds.length]
  exact holds.count

theorem Holds.tryPush_full (holds : Holds ring elements) (full : elements.length = capacity.size) (value : T) :
    ring.tryPush value = (false,ring) := by
  rw [tryPush,if_pos (holds.length.trans full)]

theorem Holds.tryPush_room (holds : Holds ring elements) (room : elements.length < capacity.size) (value : T) :
    ∃ ring', ring.tryPush value = (true,ring') ∧ Holds ring' (elements ++ [value]) := by
  have head := holds.head
  have length := holds.length
  have notFull : ¬ ring.count = capacity.size := by omega
  have tail := holds.tail
  rw [if_neg notFull] at tail
  rw [tryPush,if_neg notFull]
  refine ⟨_,rfl,head,by simp only; omega,?_,?_⟩
  · simp only [tail,advance,place]
    split_ifs <;> omega
  · rw [contents,List.range_succ,List.map_append,← holds.elements,contents]
    congr 1
    · refine List.map_congr_left ?_
      intro i m
      have old := List.mem_range.mp m
      refine Function.update_of_ne ?_ _ _
      simp only [tail,place]
      split_ifs <;> omega
    · simp [tail]

theorem Holds.tryPop_empty (holds : Holds ring []) : ring.tryPop = (none,ring) := by
  rw [tryPop,if_pos (show ring.count = 0 from holds.length)]

theorem Holds.tryPop_front {value : T} (holds : Holds ring (value :: elements)) :
    ∃ ring', ring.tryPop = (some value,ring') ∧ Holds ring' elements := by
  have head := holds.head
  have count := holds.count
  have length := holds.length
  rw [List.length_cons] at length
  have front := holds.elements
  rw [contents,length,List.range_succ_eq_map,List.map_cons,List.map_map] at front
  obtain ⟨here,there⟩ := List.cons.inj front
  have first : ring.slots ring.head = value := by
    rw [← here]
    simp [place,head]
  rw [tryPop,if_neg (by omega),first]
  refine ⟨_,rfl,?_,by simp only; omega,?_,?_⟩
  · simp only [advance]
    split_ifs <;> omega
  · have tail := holds.tail
    simp only [tail,advance,place]
    split_ifs <;> omega
  · simp only [contents,length,Nat.add_sub_cancel]
    refine Eq.trans (List.map_congr_left ?_) there
    intro i m
    have old : i < elements.length := List.mem_range.mp m
    refine congrArg ring.slots ?_
    simp only [advance,place]
    split_ifs <;> omega

/-! ### Values offered in turn -/

/-- A value that was offered to a ring: how many elements it held, and whether it took
    the value. -/
structure Offer (T : Type) where
  value : T
  held : Nat
  taken : Bool
  deriving Repr, DecidableEq

/-- The values that were taken. -/
def taken (offers : List (Offer T)) : List T := (offers.filter Offer.taken).map Offer.value
def refusals (offers : List (Offer T)) : Nat := (offers.filter (fun o => !o.taken)).length

/-- Values pushed one after the other. -/
def offerAll (ring : RingBuffer T capacity) : List T → List (Offer T) × RingBuffer T capacity
  | [] => ([],ring)
  | value :: rest =>
    let (done,after) := ring.tryPush value
    let (offers,last) := offerAll after rest
    (⟨value,ring.size,done⟩ :: offers,last)

theorem taken_append (first second : List (Offer T)) : taken (first ++ second) = taken first ++ taken second := by
  simp [taken]

theorem refusals_append (first second : List (Offer T)) : refusals (first ++ second) = refusals first + refusals second := by
  simp [refusals]

theorem taken_all {offers : List (Offer T)} (all : ∀ o ∈ offers, o.taken = true) : taken offers = offers.map Offer.value := by
  rw [taken,List.filter_eq_self.mpr all]

/-- One value: it is refused exactly by a full ring. -/
theorem Holds.tryPush (holds : Holds ring elements) (value : T) :
    ∃ done ring', ring.tryPush value = (done,ring') ∧ (done = false ↔ ring.size = capacity.size) ∧
      (done = false → ring' = ring) ∧ Holds ring' (elements ++ if done then [value] else []) := by
  have length := holds.length
  have fits := holds.length_le
  by_cases full : elements.length = capacity.size
  · refine ⟨false,ring,holds.tryPush_full full value,by simp [size,length,full],fun _ => rfl,?_⟩
    simpa using holds
  · obtain ⟨ring',pushed,holds'⟩ := holds.tryPush_room (by omega) value
    exact ⟨true,ring',pushed,by simp [size,length,full],by simp,by simpa using holds'⟩

theorem Holds.offerAll (holds : Holds ring elements) (values : List T) :
    (ring.offerAll values).1.map Offer.value = values ∧
      (∀ o ∈ (ring.offerAll values).1, o.taken = false ↔ o.held = capacity.size) ∧
      Holds (ring.offerAll values).2 (elements ++ taken (ring.offerAll values).1) := by
  induction values generalizing ring elements with
  | nil => exact ⟨rfl,by simp [RingBuffer.offerAll],by simpa [RingBuffer.offerAll,taken] using holds⟩
  | cons value rest ih =>
    obtain ⟨done,ring',pushed,refused,_,holds'⟩ := holds.tryPush value
    obtain ⟨named,refusedLater,last⟩ := ih holds'
    simp only [RingBuffer.offerAll,pushed]
    refine ⟨by simp [named],?_,?_⟩
    · intro o inside
      rcases List.mem_cons.mp inside with rfl | later
      · exact refused
      · exact refusedLater o later
    · have first : taken (⟨value,ring.size,done⟩ :: (ring'.offerAll rest).1) =
          (if done then [value] else []) ++ taken (ring'.offerAll rest).1 := by
        cases done <;> simp [taken]
      rw [first,← List.append_assoc]
      exact last

/-- Of the values offered in turn a ring takes those that fit, and refuses the others. -/
theorem Holds.offerAll_fits (holds : Holds ring elements) (values : List T) :
    elements ++ taken (ring.offerAll values).1 = (elements ++ values).take capacity.size ∧
      refusals (ring.offerAll values).1 = elements.length + values.length - capacity.size := by
  have fits := holds.length_le
  induction values generalizing ring elements with
  | nil =>
    refine ⟨?_,?_⟩
    · simp [RingBuffer.offerAll,taken,List.take_of_length_le fits]
    · rw [RingBuffer.offerAll,refusals,List.length_nil]
      simp only [List.filter_nil,List.length_nil]
      omega
  | cons value rest ih =>
    by_cases full : elements.length = capacity.size
    · obtain ⟨kept,lost⟩ := ih holds fits
      simp only [RingBuffer.offerAll,holds.tryPush_full full value]
      refine ⟨?_,?_⟩
      · rw [← full,List.take_left] at kept ⊢
        simpa [taken] using kept
      · simp only [refusals,List.filter_cons,Bool.not_false,if_true,List.length_cons] at lost ⊢
        omega
    · obtain ⟨ring',pushed,holds'⟩ := holds.tryPush_room (by omega) value
      obtain ⟨kept,lost⟩ := ih holds' holds'.length_le
      simp only [RingBuffer.offerAll,pushed]
      refine ⟨?_,?_⟩
      · simpa [taken] using kept
      · simp only [refusals,List.filter_cons,Bool.not_true,Bool.false_eq_true,if_false,List.length_cons,List.length_append,
          List.length_nil] at lost ⊢
        omega
end

end RingBuffer
end HyperMatch
