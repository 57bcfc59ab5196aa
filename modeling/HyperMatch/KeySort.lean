import Mathlib.Data.List.Sort
import Mathlib.Data.List.Perm.Lattice

/-!
Sorting a list by a key in a linear order. When the keys are distinct the sorted
list is the only strictly increasing rearrangement, so a list known to increase can
be recognised as the sorted one; filtering, replacing elements under their key and
adding an element commute with sorting. Insertions by a transitive relation commute
whenever it decides between the two elements.
-/
namespace HyperMatch.KeySort

variable {α κ : Type} [LinearOrder κ] (key : α → κ)

def sortBy (l : List α) : List α := l.mergeSort (fun a b => decide (key a ≤ key b))

/-- The keys increase strictly. -/
def Increasing (l : List α) : Prop := l.Pairwise (fun a b => key a < key b)

theorem sortBy_perm (l : List α) : (sortBy key l).Perm l := List.mergeSort_perm l _

theorem mem_sortBy {a : α} {l : List α} : a ∈ sortBy key l ↔ a ∈ l := (sortBy_perm key l).mem_iff

theorem sortBy_le (l : List α) : (sortBy key l).Pairwise (fun a b => key a ≤ key b) := by
  have sorted : (sortBy key l).Pairwise (fun a b => decide (key a ≤ key b) = true) := by
    refine List.pairwise_mergeSort ?_ ?_ l
    · intro a b c ab bc
      rw [decide_eq_true_eq] at *
      exact ab.trans bc
    · intro a b
      simpa using le_total (key a) (key b)
  exact sorted.imp of_decide_eq_true

theorem sortBy_increasing {l : List α} (distinct : (l.map key).Nodup) : Increasing key (sortBy key l) := by
  have apart : ((sortBy key l).map key).Nodup := ((sortBy_perm key l).map key).nodup_iff.mpr distinct
  rw [List.Nodup,List.pairwise_map] at apart
  exact ((sortBy_le key l).and apart).imp (fun both => lt_of_le_of_ne both.1 both.2)

/-- A strictly increasing rearrangement is the sorted list. -/
theorem sortBy_eq {l m : List α} (increasing : Increasing key m) (perm : m.Perm l) : sortBy key l = m := by
  have keys : (l.map key).Nodup := by
    refine (perm.map key).nodup_iff.mp ?_
    rw [List.Nodup,List.pairwise_map]
    exact increasing.imp (fun less => ne_of_lt less)
  refine ((sortBy_perm key l).trans perm.symm).eq_of_pairwise ?_ (sortBy_increasing key keys) increasing
  intro a b _ _ ab ba
  exact absurd ba (not_lt_of_gt ab)

variable {key}

theorem sortBy_filter {l : List α} (distinct : (l.map key).Nodup) (p : α → Bool) :
    sortBy key (l.filter p) = (sortBy key l).filter p :=
  sortBy_eq key ((sortBy_increasing key distinct).filter p) ((sortBy_perm key l).filter p)

/-- Elements may be changed or dropped, as long as they keep their keys. -/
theorem sortBy_filterMap {l : List α} (distinct : (l.map key).Nodup) {change : α → Option α}
    (same : ∀ a b, change a = some b → key b = key a) :
    sortBy key (l.filterMap change) = (sortBy key l).filterMap change := by
  refine sortBy_eq key ?_ ((sortBy_perm key l).filterMap change)
  refine List.pairwise_filterMap.mpr ((sortBy_increasing key distinct).imp ?_)
  intro a b less a' changedA b' changedB
  rw [same a a' changedA,same b b' changedB]
  exact less

/-- A new element goes between the smaller and the larger keys. -/
theorem sortBy_concat {l xs ys : List α} {a : α} (distinct : (l.map key).Nodup) (split : sortBy key l = xs ++ ys)
    (smaller : ∀ b ∈ xs, key b < key a) (larger : ∀ b ∈ ys, key a < key b) :
    sortBy key (l ++ [a]) = xs ++ a :: ys := by
  have increasing := sortBy_increasing key distinct
  rw [split,Increasing,List.pairwise_append] at increasing
  obtain ⟨left,right,across⟩ := increasing
  refine sortBy_eq key ?_ ?_
  · rw [Increasing,List.pairwise_append,List.pairwise_cons]
    refine ⟨left,⟨larger,right⟩,?_⟩
    intro b inX c inY
    rcases List.mem_cons.mp inY with rfl | inside
    · exact smaller b inX
    · exact across b inX c inside
  · refine List.perm_middle.trans ?_
    rw [← split]
    exact ((sortBy_perm key l).cons a).trans (List.perm_append_comm : ([a] ++ l).Perm (l ++ [a]))

/-- Two elements inserted in either order; the list need not be sorted. -/
theorem orderedInsert_comm {β : Type} {r : β → β → Prop} [DecidableRel r] (trans : ∀ a b c, r a b → r b c → r a c)
    {a b : β} (decides : r a b ↔ ¬ r b a) (l : List β) :
    (l.orderedInsert r a).orderedInsert r b = (l.orderedInsert r b).orderedInsert r a := by
  induction l with
  | nil =>
    by_cases first : r a b
    · simp [first,decides.mp first]
    · have second : r b a := not_not.mp (mt decides.mpr first)
      simp [first,second]
  | cons c rest ih =>
    by_cases ac : r a c
    · by_cases bc : r b c
      · by_cases first : r a b
        · simp [ac,bc,first,decides.mp first]
        · have second : r b a := not_not.mp (mt decides.mpr first)
          simp [ac,bc,first,second]
      · have behind : ¬ r b a := fun ba => bc (trans b a c ba ac)
        simp [ac,bc,behind]
    · by_cases bc : r b c
      · have behind : ¬ r a b := fun ab => ac (trans a b c ab bc)
        simp [ac,bc,behind]
      · simp [ac,bc,ih]

/-- Insertions of many elements, in any order of them. -/
theorem foldl_orderedInsert_perm {β : Type} {r : β → β → Prop} [DecidableRel r] (trans : ∀ a b c, r a b → r b c → r a c)
    {l m : List β} (perm : l.Perm m) (decides : ∀ a ∈ l, ∀ b ∈ l, a ≠ b → (r a b ↔ ¬ r b a)) (start : List β) :
    l.foldl (fun sorted a => sorted.orderedInsert r a) start = m.foldl (fun sorted a => sorted.orderedInsert r a) start := by
  refine perm.foldl_eq' ?_ start
  intro a inA b inB sorted
  by_cases same : a = b
  · rw [same]
  · exact orderedInsert_comm trans (decides a inA b inB same) sorted

end HyperMatch.KeySort
