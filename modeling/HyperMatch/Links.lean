import Mathlib.Data.List.Induction
import Mathlib.Data.List.Nodup
import Mathlib.Data.List.Perm.Basic

/-!
Linked lists threaded through an indexed store. A list of places is `Linked`
when the two link functions of the store connect neighbours both ways and a
sentinel `nil` marks both ends; a list is `Threaded` when one link function leads
from a head through it to `nil`. Updating the links around one place inserts or
removes it. Traversals are loops with a bound on their steps: `none` says that
the bound was too small.
-/
namespace HyperMatch.Links

variable {ι β : Type}

/-- The first place of a list, or the sentinel. -/
def front (nil : ι) : List ι → ι
  | [] => nil
  | a :: _ => a
/-- The last place of a list, or the sentinel. -/
def back (nil : ι) : List ι → ι
  | [] => nil
  | a :: rest => back a rest

@[simp] theorem front_nil (nil : ι) : front nil [] = nil := rfl
@[simp] theorem front_cons (nil a : ι) (l : List ι) : front nil (a :: l) = a := rfl
@[simp] theorem back_nil (nil : ι) : back nil [] = nil := rfl
@[simp] theorem back_cons (nil a : ι) (l : List ι) : back nil (a :: l) = back a l := rfl

@[simp] theorem front_append (nil : ι) (l m : List ι) : front nil (l ++ m) = front (front nil m) l := by
  cases l <;> rfl
@[simp] theorem back_append (nil : ι) (l m : List ι) : back nil (l ++ m) = back (back nil l) m := by
  induction l generalizing nil with
  | nil => rfl
  | cons a rest ih => exact ih a
@[simp] theorem back_reverse (nil : ι) (l : List ι) : back nil l.reverse = front nil l := by
  cases l <;> simp
@[simp] theorem front_reverse (nil : ι) (l : List ι) : front nil l.reverse = back nil l := by
  rw [← back_reverse,List.reverse_reverse]

theorem front_mem {nil : ι} {l : List ι} (proper : l ≠ []) : front nil l ∈ l := by
  cases l with
  | nil => exact absurd rfl proper
  | cons a rest => exact List.mem_cons_self
theorem back_mem {nil : ι} {l : List ι} (proper : l ≠ []) : back nil l ∈ l := by
  rw [← front_reverse]
  exact List.mem_reverse.mp (front_mem (by simpa using proper))

theorem front_eq_nil {nil : ι} {l : List ι} (noNil : nil ∉ l) : front nil l = nil ↔ l = [] := by
  constructor
  · intro same
    by_contra proper
    exact noNil (same ▸ front_mem proper)
  · rintro rfl; rfl
theorem back_eq_nil {nil : ι} {l : List ι} (noNil : nil ∉ l) : back nil l = nil ↔ l = [] := by
  rw [← front_reverse,front_eq_nil (by simpa using noNil),List.reverse_eq_nil_iff]

/-- A place of one list is neither end of a list that it is not in. -/
theorem ne_front {nil a : ι} {xs ys : List ι} (member : a ∈ xs) (noNil : nil ∉ xs) (apart : ∀ b ∈ ys, a ≠ b) :
    a ≠ front nil ys := by
  intro same
  cases ys with
  | nil => rw [same] at member; exact noNil member
  | cons b rest => exact apart b List.mem_cons_self same
theorem ne_back {nil a : ι} {xs ys : List ι} (member : a ∈ xs) (noNil : nil ∉ xs) (apart : ∀ b ∈ ys, a ≠ b) :
    a ≠ back nil ys := by
  rw [← front_reverse]
  exact ne_front member noNil (fun b m => apart b (List.mem_reverse.mp m))

/-! ### Doubly linked lists -/

/-- The places of a list are linked both ways, in order, between a left and a
    right neighbour. -/
def Segment (next prev : ι → ι) : ι → ι → List ι → Prop
  | _,_,[] => True
  | left,right,a :: rest => next a = front right rest ∧ prev a = left ∧ Segment next prev a right rest

theorem segment_append {next prev : ι → ι} {left right : ι} {xs ys : List ι} :
    Segment next prev left right (xs ++ ys) ↔
      Segment next prev left (front right ys) xs ∧ Segment next prev (back left xs) right ys := by
  induction xs generalizing left with
  | nil => simp [Segment]
  | cons a rest ih => simp [Segment,ih,and_assoc]

/-- A segment only looks at the links of its own places. -/
theorem Segment.congr {next prev next' prev' : ι → ι} {left right : ι} {l : List ι}
    (h : Segment next prev left right l) (nexts : ∀ a ∈ l, next' a = next a) (prevs : ∀ a ∈ l, prev' a = prev a) :
    Segment next' prev' left right l := by
  induction l generalizing left with
  | nil => trivial
  | cons a rest ih =>
    obtain ⟨next_a,prev_a,tail⟩ := h
    exact ⟨(nexts a List.mem_cons_self).trans next_a,(prevs a List.mem_cons_self).trans prev_a,
      ih tail (fun b m => nexts b (List.mem_cons_of_mem a m)) (fun b m => prevs b (List.mem_cons_of_mem a m))⟩

/-- Redirecting the last place of a segment to a new right neighbour. -/
theorem Segment.retarget_right {next prev next' prev' : ι → ι} {left right right' : ι} {l : List ι}
    (h : Segment next prev left right l) (distinct : l.Nodup) (last : l ≠ [] → next' (back left l) = right')
    (nexts : ∀ a ∈ l, a ≠ back left l → next' a = next a) (prevs : ∀ a ∈ l, prev' a = prev a) :
    Segment next' prev' left right' l := by
  induction l generalizing left with
  | nil => trivial
  | cons a rest ih =>
    obtain ⟨next_a,prev_a,tail⟩ := h
    obtain ⟨absent,distinct⟩ := List.nodup_cons.mp distinct
    refine ⟨?_,(prevs a List.mem_cons_self).trans prev_a,?_⟩
    · cases rest with
      | nil => exact last (by simp)
      | cons b more =>
        have inside : back a (b :: more) ∈ b :: more := back_mem (by simp)
        have other : a ≠ back left (a :: b :: more) := fun same => absent (by rw [same]; exact inside)
        rw [nexts a List.mem_cons_self other,next_a]
        rfl
    · cases rest with
      | nil => trivial
      | cons b more =>
        exact ih tail distinct (fun _ => last (by simp))
          (fun c m other => nexts c (List.mem_cons_of_mem a m) other)
          (fun c m => prevs c (List.mem_cons_of_mem a m))

/-- Redirecting the first place of a segment to a new left neighbour. -/
theorem Segment.retarget_left {next prev next' prev' : ι → ι} {left left' right : ι} {l : List ι}
    (h : Segment next prev left right l) (distinct : l.Nodup) (first : l ≠ [] → prev' (front right l) = left')
    (nexts : ∀ a ∈ l, next' a = next a) (prevs : ∀ a ∈ l, a ≠ front right l → prev' a = prev a) :
    Segment next' prev' left' right l := by
  cases l with
  | nil => trivial
  | cons a rest =>
    obtain ⟨next_a,_,tail⟩ := h
    obtain ⟨absent,_⟩ := List.nodup_cons.mp distinct
    refine ⟨(nexts a List.mem_cons_self).trans next_a,first (by simp),?_⟩
    apply tail.congr (fun b m => nexts b (List.mem_cons_of_mem a m))
    intro b m
    exact prevs b (List.mem_cons_of_mem a m) (fun same => absent (by rw [← show b = a from same]; exact m))

/-- A whole doubly linked list: distinct places, with `nil` at both ends. -/
structure Linked (next prev : ι → ι) (nil : ι) (l : List ι) : Prop where
  nodup : l.Nodup
  noNil : nil ∉ l
  segment : Segment next prev nil nil l

theorem linked_nil (next prev : ι → ι) (nil : ι) : Linked next prev nil [] :=
  ⟨List.nodup_nil,List.not_mem_nil,trivial⟩

/-- The links of a place are its neighbours in the list. -/
theorem Linked.links {next prev : ι → ι} {nil a : ι} {xs ys : List ι} (h : Linked next prev nil (xs ++ a :: ys)) :
    next a = front nil ys ∧ prev a = back nil xs := by
  obtain ⟨next_a,prev_a,_⟩ := (segment_append.mp h.segment).2
  exact ⟨next_a,prev_a⟩

theorem Linked.congr {next prev next' prev' : ι → ι} {nil : ι} {l : List ι} (h : Linked next prev nil l)
    (nexts : ∀ a ∈ l, next' a = next a) (prevs : ∀ a ∈ l, prev' a = prev a) : Linked next' prev' nil l :=
  ⟨h.nodup,h.noNil,h.segment.congr nexts prevs⟩

/-- Two parts of a list get new neighbours where they meet. -/
theorem Segment.retarget {next prev next' prev' : ι → ι} {nil left left' right right' : ι} {xs ys : List ι}
    (distinct : (xs ++ ys).Nodup) (noNil : nil ∉ xs ++ ys)
    (front' : Segment next prev nil right xs) (back' : Segment next prev left nil ys)
    (before : xs ≠ [] → next' (back nil xs) = right') (after : ys ≠ [] → prev' (front nil ys) = left')
    (nexts : ∀ a ∈ xs ++ ys, a ≠ back nil xs → next' a = next a)
    (prevs : ∀ a ∈ xs ++ ys, a ≠ front nil ys → prev' a = prev a) :
    Segment next' prev' nil right' xs ∧ Segment next' prev' left' nil ys := by
  obtain ⟨distinctX,distinctY,apart⟩ := List.nodup_append.mp distinct
  simp only [List.mem_append,not_or] at noNil
  constructor
  · apply front'.retarget_right distinctX before
    · intro a m other; exact nexts a (List.mem_append_left ys m) other
    · intro a m
      exact prevs a (List.mem_append_left ys m) (ne_front m noNil.1 (fun b mb => apart a m b mb))
  · apply back'.retarget_left distinctY after
    · intro a m
      exact nexts a (List.mem_append_right xs m) (ne_back m noNil.2 (fun b mb => (apart b mb a m).symm))
    · intro a m other; exact prevs a (List.mem_append_right xs m) other

/-- Linking a fresh place between two parts of a list inserts it there. -/
theorem Linked.insert {next prev next' prev' : ι → ι} {nil n : ι} {xs ys : List ι}
    (h : Linked next prev nil (xs ++ ys)) (fresh : n ∉ xs ++ ys) (proper : n ≠ nil)
    (newNext : next' n = front nil ys) (newPrev : prev' n = back nil xs)
    (before : xs ≠ [] → next' (back nil xs) = n) (after : ys ≠ [] → prev' (front nil ys) = n)
    (nexts : ∀ a ∈ xs ++ ys, a ≠ back nil xs → next' a = next a)
    (prevs : ∀ a ∈ xs ++ ys, a ≠ front nil ys → prev' a = prev a) :
    Linked next' prev' nil (xs ++ n :: ys) := by
  obtain ⟨left,right⟩ := segment_append.mp h.segment
  obtain ⟨left',right'⟩ := Segment.retarget h.nodup h.noNil left right before after nexts prevs
  have noNil := h.noNil
  simp only [List.mem_append,not_or] at noNil
  refine ⟨?_,by simp [noNil,Ne.symm proper],segment_append.mpr ⟨left',newNext,newPrev,right'⟩⟩
  rw [List.nodup_middle,List.nodup_cons]
  exact ⟨fresh,h.nodup⟩

/-- Linking the neighbours of a place past it removes it. -/
theorem Linked.remove {next prev next' prev' : ι → ι} {nil n : ι} {xs ys : List ι}
    (h : Linked next prev nil (xs ++ n :: ys))
    (before : xs ≠ [] → next' (back nil xs) = front nil ys) (after : ys ≠ [] → prev' (front nil ys) = back nil xs)
    (nexts : ∀ a ∈ xs ++ ys, a ≠ back nil xs → next' a = next a)
    (prevs : ∀ a ∈ xs ++ ys, a ≠ front nil ys → prev' a = prev a) :
    Linked next' prev' nil (xs ++ ys) := by
  have distinct := h.nodup
  rw [List.nodup_middle,List.nodup_cons] at distinct
  obtain ⟨_,distinct⟩ := distinct
  obtain ⟨left,_,_,right⟩ := segment_append.mp h.segment
  have noNil := h.noNil
  simp only [List.mem_append,List.mem_cons,not_or] at noNil
  have noNil' : nil ∉ xs ++ ys := by simp [noNil]
  exact ⟨distinct,noNil',segment_append.mpr (Segment.retarget distinct noNil' left right before after nexts prevs)⟩

/-! ### Traversals -/

/-- Follow links from a place until a place answers. The bound counts the tests
    of the loop; `some none` is the end of the list. -/
def scan [DecidableEq ι] (next : ι → ι) (nil : ι) (visit : ι → Option β) : Nat → ι → Option (Option β)
  | 0,_ => none
  | bound+1,cur =>
    if cur = nil then some none
    else match visit cur with
      | some answer => some (some answer)
      | none => scan next nil visit bound (next cur)

/-- A forward traversal from inside a linked list tries the places from there on. -/
theorem scan_forward [DecidableEq ι] {next prev : ι → ι} {nil left : ι} (visit : ι → Option β) {ys : List ι}
    (h : Segment next prev left nil ys) (noNil : nil ∉ ys) {bound : Nat} (enough : ys.length < bound) :
    scan next nil visit bound (front nil ys) = some (ys.findSome? visit) := by
  induction ys generalizing left bound with
  | nil =>
    obtain ⟨bound,rfl⟩ := Nat.exists_eq_succ_of_ne_zero (by omega : bound ≠ 0)
    simp [scan]
  | cons a rest ih =>
    obtain ⟨bound,rfl⟩ := Nat.exists_eq_succ_of_ne_zero (by omega : bound ≠ 0)
    obtain ⟨next_a,_,tail⟩ := h
    simp only [List.mem_cons,not_or] at noNil
    simp only [List.length_cons] at enough
    simp only [scan,front_cons,Ne.symm noNil.1,if_false,List.findSome?_cons]
    cases visit a with
    | some answer => rfl
    | none =>
      rw [next_a]
      exact ih tail noNil.2 (by omega)

/-- A backward traversal tries the places up to there, last one first. -/
theorem scan_backward [DecidableEq ι] {next prev : ι → ι} {nil right : ι} (visit : ι → Option β) {xs : List ι}
    (h : Segment next prev nil right xs) (noNil : nil ∉ xs) {bound : Nat} (enough : xs.length < bound) :
    scan prev nil visit bound (back nil xs) = some (xs.reverse.findSome? visit) := by
  induction xs using List.reverseRec generalizing right bound with
  | nil =>
    obtain ⟨bound,rfl⟩ := Nat.exists_eq_succ_of_ne_zero (by omega : bound ≠ 0)
    simp [scan]
  | append_singleton rest a ih =>
    obtain ⟨bound,rfl⟩ := Nat.exists_eq_succ_of_ne_zero (by omega : bound ≠ 0)
    obtain ⟨init,_,prev_a,_⟩ := segment_append.mp h
    simp only [List.mem_append,List.mem_singleton,not_or] at noNil
    simp only [List.length_append,List.length_singleton] at enough
    simp only [back_append,back_cons,back_nil,List.reverse_append,List.reverse_singleton,List.singleton_append,scan,
      Ne.symm noNil.2,if_false,List.findSome?_cons]
    cases visit a with
    | some answer => rfl
    | none =>
      rw [prev_a]
      exact ih init noNil.1 (by omega)

/-- Follow links with a trailing cursor until a place stops the loop or the list
    ends: the two cursors there. -/
def seek [DecidableEq ι] (next : ι → ι) (nil : ι) (stop : ι → Bool) : Nat → ι → ι → Option (ι × ι)
  | 0,_,_ => none
  | bound+1,trail,cur =>
    if cur = nil then some (trail,cur)
    else if stop cur then some (trail,cur) else seek next nil stop bound cur (next cur)

theorem seek_forward [DecidableEq ι] {next prev : ι → ι} {nil left : ι} (stop : ι → Bool) {ys : List ι}
    (h : Segment next prev left nil ys) (noNil : nil ∉ ys) {bound : Nat} (enough : ys.length < bound) :
    seek next nil stop bound left (front nil ys) =
      some (back left (ys.takeWhile (fun a => !stop a)),front nil (ys.dropWhile (fun a => !stop a))) := by
  induction ys generalizing left bound with
  | nil =>
    obtain ⟨bound,rfl⟩ := Nat.exists_eq_succ_of_ne_zero (by omega : bound ≠ 0)
    simp [seek]
  | cons a rest ih =>
    obtain ⟨bound,rfl⟩ := Nat.exists_eq_succ_of_ne_zero (by omega : bound ≠ 0)
    obtain ⟨next_a,_,tail⟩ := h
    simp only [List.mem_cons,not_or] at noNil
    simp only [List.length_cons] at enough
    rw [front_cons,seek,if_neg (Ne.symm noNil.1)]
    by_cases stopped : stop a = true
    · simp [stopped]
    · rw [if_neg stopped,next_a,ih tail noNil.2 (by omega)]
      simp [stopped]

/-- The places that links lead through from a place, at most as many as the
    bound. -/
def follow [DecidableEq ι] (next : ι → ι) (nil : ι) : Nat → ι → List ι
  | 0,_ => []
  | bound+1,cur => if cur = nil then [] else cur :: follow next nil bound (next cur)

theorem follow_forward [DecidableEq ι] {next prev : ι → ι} {nil left : ι} {ys : List ι}
    (h : Segment next prev left nil ys) (noNil : nil ∉ ys) {bound : Nat} (enough : ys.length ≤ bound) :
    follow next nil bound (front nil ys) = ys := by
  induction ys generalizing left bound with
  | nil => cases bound <;> simp [follow]
  | cons a rest ih =>
    obtain ⟨bound,rfl⟩ := Nat.exists_eq_succ_of_ne_zero (by simp at enough; omega : bound ≠ 0)
    obtain ⟨next_a,_,tail⟩ := h
    simp only [List.mem_cons,not_or] at noNil
    simp only [List.length_cons] at enough
    rw [front_cons,follow,if_neg (Ne.symm noNil.1),next_a,ih tail noNil.2 (by omega)]

/-! ### Singly linked lists -/

/-- The links lead from the head through the list to `nil`. -/
def Threaded (next : ι → ι) (nil : ι) : ι → List ι → Prop
  | head,[] => head = nil
  | head,a :: rest => head = a ∧ Threaded next nil (next a) rest

/-- The forward links of a segment that ends at `nil`. -/
theorem Segment.threaded {next prev : ι → ι} {nil left : ι} {l : List ι} (h : Segment next prev left nil l) :
    Threaded next nil (front nil l) l := by
  induction l generalizing left with
  | nil => rfl
  | cons a rest ih =>
    obtain ⟨next_a,_,tail⟩ := h
    refine ⟨rfl,?_⟩
    rw [next_a]
    exact ih tail

/-- A traversal from the head tries all places. -/
theorem Threaded.scan [DecidableEq ι] {next : ι → ι} {nil head : ι} (visit : ι → Option β) {l : List ι}
    (h : Threaded next nil head l) (noNil : nil ∉ l) {bound : Nat} (enough : l.length < bound) :
    scan next nil visit bound head = some (l.findSome? visit) := by
  induction l generalizing head bound with
  | nil =>
    obtain ⟨bound,rfl⟩ := Nat.exists_eq_succ_of_ne_zero (by omega : bound ≠ 0)
    simp [Links.scan,show head = nil from h]
  | cons a rest ih =>
    obtain ⟨bound,rfl⟩ := Nat.exists_eq_succ_of_ne_zero (by omega : bound ≠ 0)
    obtain ⟨rfl,tail⟩ := h
    simp only [List.mem_cons,not_or] at noNil
    simp only [List.length_cons] at enough
    simp only [Links.scan,Ne.symm noNil.1,if_false,List.findSome?_cons]
    cases visit head with
    | some answer => rfl
    | none => exact ih tail noNil.2 (by omega)

theorem Threaded.congr {next next' : ι → ι} {nil head : ι} {l : List ι} (h : Threaded next nil head l)
    (same : ∀ a ∈ l, next' a = next a) : Threaded next' nil head l := by
  induction l generalizing head with
  | nil => exact h
  | cons a rest ih =>
    refine ⟨h.1,?_⟩
    rw [same a List.mem_cons_self]
    exact ih h.2 (fun b m => same b (List.mem_cons_of_mem a m))

end HyperMatch.Links
