import Mathlib.Data.List.Sort

/-!
Order statistics of a list and windows over its end. A value of rank `k` has at most `k`
smaller ones and more than `k` that are not larger, so it is what stands at `k` once the
list is sorted.
-/
namespace HyperMatch.Ranks

/-! ### Ranks -/

section
variable {α : Type} [LE α] [DecidableLE α]

def sorted (l : List α) : List α := l.mergeSort (fun a b => decide (a ≤ b))

theorem sorted_perm (l : List α) : (sorted l).Perm l := List.mergeSort_perm l _

theorem sorted_length (l : List α) : (sorted l).length = l.length := (sorted_perm l).length_eq

theorem sorted_pairwise [Std.IsLinearOrder α] (l : List α) : (sorted l).Pairwise (· ≤ ·) := by
  have transitive : ∀ a b c : α, decide (a ≤ b) = true → decide (b ≤ c) = true → decide (a ≤ c) = true := by
    intro a b c first second
    simp only [decide_eq_true_eq] at first second ⊢
    exact Std.le_trans first second
  have total : ∀ a b : α, (decide (a ≤ b) || decide (b ≤ a)) = true := by
    intro a b
    simpa using Std.le_total
  refine (List.pairwise_mergeSort transitive total l).imp ?_
  intro a b first
  simpa using first
end

section
variable {α : Type} [LE α] [LT α] [DecidableLE α] [DecidableLT α]

/-- The value stands at `k` in the sorted list. -/
structure HasRank (l : List α) (k : Nat) (x : α) : Prop where
  member : x ∈ l
  below : l.countP (fun y => decide (y < x)) ≤ k
  upTo : k < l.countP (fun y => decide (y ≤ x))

theorem HasRank.perm {l l' : List α} {k : Nat} {x : α} (rank : HasRank l k x) (same : l.Perm l') : HasRank l' k x :=
  ⟨same.mem_iff.mp rank.member,same.countP_eq _ ▸ rank.below,same.countP_eq _ ▸ rank.upTo⟩

/-- The last rank is the greatest value. -/
theorem HasRank.greatest {l : List α} {k : Nat} {x : α} (rank : HasRank l k x) (last : k + 1 = l.length) :
    ∀ y ∈ l, y ≤ x := by
  have upTo := rank.upTo
  have most := List.countP_le_length (p := fun y => decide (y ≤ x)) (l := l)
  have all : l.countP (fun y => decide (y ≤ x)) = l.length := by omega
  rw [List.countP_eq_length] at all
  intro y inside
  simpa using all y inside

variable [Std.IsLinearOrder α] [Std.LawfulOrderLT α]

/-- In a sorted list a value has the rank of its place. -/
theorem hasRank_place {xs ys : List α} {x : α} (ascending : (xs ++ x :: ys).Pairwise (· ≤ ·)) :
    HasRank (xs ++ x :: ys) xs.length x := by
  obtain ⟨_,rest,before⟩ := List.pairwise_append.mp ascending
  rw [List.pairwise_cons] at rest
  refine ⟨by simp,?_,?_⟩
  · have none : (x :: ys).countP (fun y => decide (y < x)) = 0 := by
      rw [List.countP_eq_zero]
      rintro y (_ | ⟨_,after⟩)
      · simpa using Std.lt_irrefl
      · simpa [Std.not_lt] using rest.1 y after
    rw [List.countP_append,none]
    exact List.countP_le_length
  · have all : xs.countP (fun y => decide (y ≤ x)) = xs.length := by
      rw [List.countP_eq_length]
      intro y early
      simpa using before y early x List.mem_cons_self
    rw [List.countP_append,all,List.countP_cons_of_pos (by simp [Std.le_refl])]
    omega

theorem hasRank_sorted {l : List α} {k : Nat} (inside : k < (sorted l).length) : HasRank l k (sorted l)[k] := by
  have split : sorted l = (sorted l).take k ++ (sorted l)[k] :: (sorted l).drop (k + 1) := by simp
  have ascending := sorted_pairwise l
  rw [split] at ascending
  have rank := hasRank_place ascending
  rw [← split,List.length_take,Nat.min_eq_left (Nat.le_of_lt inside)] at rank
  exact rank.perm (sorted_perm l)

/-- An index that is held back to the last one reads the value of its rank. -/
theorem sorted_index {l : List α} {k : Nat} (inside : k < l.length) :
    ∃ x, (sorted l)[min k ((sorted l).length - 1)]? = some x ∧ HasRank l k x := by
  rw [← sorted_length l] at inside
  refine ⟨_,?_,hasRank_sorted inside⟩
  rw [Nat.min_eq_left (Nat.le_sub_one_of_lt inside)]
  exact List.getElem?_eq_getElem inside

/-- Values are ordered as their ranks are. -/
theorem HasRank.le {l : List α} {i j : Nat} {x y : α} (first : HasRank l i x) (second : HasRank l j y) (ranks : i ≤ j) :
    x ≤ y := by
  by_contra wrong
  rw [Std.not_le] at wrong
  have fewer : l.countP (fun z => decide (z ≤ y)) ≤ l.countP (fun z => decide (z < x)) := by
    refine List.countP_mono_left ?_
    intro z _ small
    simp only [decide_eq_true_eq] at small ⊢
    exact Std.lt_of_le_of_lt small wrong
  have below := first.below
  have upTo := second.upTo
  omega

/-- The first rank is the least value. -/
theorem HasRank.least {l : List α} {x : α} (rank : HasRank l 0 x) : ∀ y ∈ l, x ≤ y := by
  have none := Nat.le_zero.mp rank.below
  rw [List.countP_eq_zero] at none
  intro y inside
  simpa [Std.not_lt] using none y inside
end

/-! ### Windows -/

/-- The last `size` values. A large `size` is not to be counted down. -/
@[irreducible] def lastOf (size : Nat) (l : List α) : List α := l.drop (l.length - size)

@[simp] theorem lastOf_nil (size : Nat) : lastOf size ([] : List α) = [] := by simp [lastOf]

/-- A queue that drops its oldest value when it is full holds the last values. -/
theorem lastOf_append {size : Nat} (positive : 0 < size) (l : List α) (a : α) :
    (if (lastOf size l).length = size then (lastOf size l).tail else lastOf size l) ++ [a] = lastOf size (l ++ [a]) := by
  rw [lastOf,lastOf,List.length_drop,List.length_append,List.length_singleton]
  by_cases full : size ≤ l.length
  · rw [if_pos (by omega),List.tail_drop,List.drop_append_of_le_length (by omega)]
    congr 2
    omega
  · rw [if_neg (by omega),show l.length - size = 0 by omega,show l.length + 1 - size = 0 by omega]
    rfl

/-- A stack that drops its oldest value when it is full holds the first values. -/
theorem take_cons_full {size : Nat} (positive : 0 < size) (l : List α) (a : α) :
    a :: (if (l.take size).length = size then (l.take size).dropLast else l.take size) = (a :: l).take size := by
  obtain ⟨n,rfl⟩ := Nat.exists_eq_succ_of_ne_zero (Nat.ne_of_gt positive)
  rw [List.take_succ_cons,List.length_take]
  by_cases full : n + 1 ≤ l.length
  · rw [if_pos (Nat.min_eq_left full),List.dropLast_eq_take,List.length_take,Nat.min_eq_left full,List.take_take]
    congr 2
    omega
  · rw [if_neg (by omega),List.take_of_length_le (by omega),List.take_of_length_le (by omega)]

end HyperMatch.Ranks
