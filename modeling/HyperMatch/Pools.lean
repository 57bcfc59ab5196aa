import HyperMatch.OrderBook
import Mathlib.Data.List.Perm.Subperm

/-!
What a pool keeps: its free list holds exactly the slots that are not in use,
each once, and its counter counts the slots in use. From this, reserving gives
out a slot that nobody holds, and releasing gives it back.
-/
namespace HyperMatch.Pools
open HyperMatch.Links HyperMatch.OrderBook

variable {T : Type} {capacity : PoolCapacity}

/-- The pool's users hold exactly the slots `used`; the free list threads the
    other ones. -/
structure Owns (pool : FreeListPool T capacity) (used : List NodeIndex) : Prop where
  free : ∃ free, Threaded pool.nextFree kNullNode pool.freeHead free ∧
    (used ++ free).Perm (List.range capacity.size)
  count : pool.inUse = used.length

theorem Owns.perm {pool : FreeListPool T capacity} {used used' : List NodeIndex} (owns : Owns pool used)
    (same : used.Perm used') : Owns pool used' := by
  obtain ⟨free,threaded,partition⟩ := owns.free
  exact ⟨⟨free,threaded,(same.append_right free).symm.trans partition⟩,owns.count.trans same.length_eq⟩

theorem Owns.nodup {pool : FreeListPool T capacity} {used : List NodeIndex} (owns : Owns pool used) : used.Nodup := by
  obtain ⟨free,_,partition⟩ := owns.free
  exact (List.nodup_append.mp (partition.nodup_iff.mpr List.nodup_range)).1

theorem Owns.inside {pool : FreeListPool T capacity} {used : List NodeIndex} (owns : Owns pool used)
    {node : NodeIndex} (member : node ∈ used) : node < capacity.size := by
  obtain ⟨free,_,partition⟩ := owns.free
  exact List.mem_range.mp (partition.mem_iff.mp (List.mem_append_left free member))

theorem Owns.ne_null {pool : FreeListPool T capacity} {used : List NodeIndex} (owns : Owns pool used)
    {node : NodeIndex} (member : node ∈ used) : node ≠ kNullNode := by
  exact Nat.ne_of_lt (Nat.lt_of_lt_of_le (owns.inside member) capacity.addressable)

theorem Owns.length_le {pool : FreeListPool T capacity} {used : List NodeIndex} (owns : Owns pool used) :
    used.length ≤ capacity.size := by
  obtain ⟨free,_,partition⟩ := owns.free
  have total := partition.length_eq
  simp only [List.length_append,List.length_range] at total
  omega

theorem Owns.full_iff {pool : FreeListPool T capacity} {used : List NodeIndex} (owns : Owns pool used) :
    pool.full = true ↔ used.length = capacity.size := by
  simp [FreeListPool.full,owns.count]

/-- The users of a pool depend on its free list and its counter only. -/
theorem Owns.congr {pool pool' : FreeListPool T capacity} {used : List NodeIndex} (owns : Owns pool used)
    (links : pool'.nextFree = pool.nextFree) (head : pool'.freeHead = pool.freeHead)
    (count : pool'.inUse = pool.inUse) : Owns pool' used := by
  refine ⟨?_,count.trans owns.count⟩
  rw [links,head]
  exact owns.free

/-- A pool that is not full gives out a slot that nobody holds. -/
theorem Owns.acquire {pool : FreeListPool T capacity} {used : List NodeIndex} (owns : Owns pool used)
    (room : used.length < capacity.size) :
    ∃ node pool', pool.acquire = (node,pool') ∧ node ∉ used ∧ node ≠ kNullNode ∧ Owns pool' (node :: used) ∧
      pool'.slots = pool.slots := by
  obtain ⟨free,threaded,partition⟩ := owns.free
  cases free with
  | nil =>
    have total := partition.length_eq
    simp at total
    omega
  | cons node rest =>
    obtain ⟨head,tail⟩ := threaded
    have distinct := partition.nodup_iff.mpr List.nodup_range
    rw [List.nodup_middle,List.nodup_cons] at distinct
    have inside : node < capacity.size := List.mem_range.mp (partition.mem_iff.mp (by simp))
    have proper : node ≠ kNullNode := Nat.ne_of_lt (Nat.lt_of_lt_of_le inside capacity.addressable)
    refine ⟨node,{ pool with freeHead := pool.nextFree node, inUse := pool.inUse + 1 },
      by rw [FreeListPool.acquire,head,if_neg proper],fun member => distinct.1 (by simp [member]),proper,
      ⟨⟨rest,tail,List.perm_middle.symm.trans partition⟩,?_⟩,rfl⟩
    simp [owns.count]

theorem Owns.acquire_fresh {pool : FreeListPool T capacity} {used : List NodeIndex} (owns : Owns pool used)
    (free : pool.full = false) : pool.acquire.1 < capacity.size ∧ pool.acquire.1 ∉ used := by
  have room : used.length < capacity.size := by
    refine Nat.lt_of_le_of_ne owns.length_le (fun exhausted => ?_)
    rw [owns.full_iff.mpr exhausted] at free
    cases free
  obtain ⟨node,pool',acquired,fresh,_,held,_⟩ := owns.acquire room
  rw [acquired]
  exact ⟨held.inside List.mem_cons_self,fresh⟩

/-- Releasing a held slot. -/
theorem Owns.release {pool : FreeListPool T capacity} {used : List NodeIndex} {node : NodeIndex}
    (owns : Owns pool (node :: used)) : Owns (pool.release node) used := by
  obtain ⟨free,threaded,partition⟩ := owns.free
  have distinct := partition.nodup_iff.mpr List.nodup_range
  have absent : node ∉ free := by
    rw [List.cons_append,List.nodup_cons] at distinct
    exact fun member => distinct.1 (List.mem_append_right used member)
  refine ⟨⟨node :: free,⟨rfl,?_⟩,List.perm_middle.trans partition⟩,by simp [FreeListPool.release,owns.count]⟩
  simp only [FreeListPool.release,Function.update_self]
  apply threaded.congr
  intro a member
  have other : a ≠ node := fun same => absent (by rwa [← same])
  exact Function.update_of_ne other _ _

/-- After `reset` every slot is free. -/
theorem owns_reset (pool : FreeListPool T capacity) : Owns pool.reset [] := by
  have upFrom : ∀ count start, start + count = capacity.size →
      Threaded pool.reset.nextFree kNullNode (if start = capacity.size then kNullNode else start)
        (List.range' start count) := by
    intro count
    induction count with
    | zero => intro start total; simp [Threaded,show start = capacity.size by omega]
    | succ count ih =>
      intro start total
      rw [List.range'_succ]
      refine ⟨if_neg (by omega),?_⟩
      have link : pool.reset.nextFree start = if start + 1 = capacity.size then kNullNode else start + 1 := by
        simp [FreeListPool.reset,show start < capacity.size by omega]
      rw [link]
      exact ih (start+1) (by omega)
  refine ⟨⟨List.range capacity.size,?_,by simp⟩,rfl⟩
  have all := upFrom capacity.size 0 (by omega)
  rw [if_neg (Nat.ne_of_lt capacity.positive)] at all
  rw [List.range_eq_range']
  exact all

end HyperMatch.Pools
