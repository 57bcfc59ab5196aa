import HyperMatch.BookInvariant
import Mathlib.Data.List.Dedup

/-!
The book as its two best-first walks. On a book whose layout is kept, each
operation is an operation on the list of a side: insertion behind the equals,
removal of one entry, a change of the front entry's quantity. The pools refuse an
order exactly when the walks say that there is no room.
-/
namespace HyperMatch.BookLayout
open HyperMatch.Wire HyperMatch.Links HyperMatch.OrderBook HyperMatch.Pools
set_option linter.unusedSimpArgs false

variable {maxOrders maxPriceLevels : PoolCapacity}

/-- The invariant of a book, for the layout that its links spell. -/
def Good (book : OrderBook maxOrders maxPriceLevels) : Prop := Kept book (layoutOf book)

theorem Kept.good {book : OrderBook maxOrders maxPriceLevels} {L : Layout} (kept : Kept book L) : Good book := by
  rw [Good,kept.layout]
  exact kept

/-! ### The walks -/

section
variable {book : OrderBook maxOrders maxPriceLevels} {L : Layout}

/-- A walk is in order of rank. -/
theorem walk_sorted (kept : Kept book L) (s : Side) :
    (walk book L s).Pairwise (fun a b => ¬ Outranks s b a) := by
  rw [walk,List.pairwise_map,queue,List.pairwise_flatMap]
  constructor
  · intro level inside
    have ok := kept.shaped.level s level inside
    refine ok.sorted.imp_of_mem ?_
    rintro a b inA inB order (better | ⟨_,before⟩)
    · rw [(ok.member a inA).1,(ok.member b inB).1] at better
      exact ranksFirst_irrefl s _ better
    · exact order before
  · have ranked := List.pairwise_map.mp (kept.shaped.sides s).ranked
    refine ranked.imp_of_mem ?_
    rintro l l' inL inL' first a inA b inB
    have priceA := ((kept.shaped.level s l inL).member a inA).1
    have priceB := ((kept.shaped.level s l' inL').member b inB).1
    rw [← priceA,← priceB] at first
    rintro (second | ⟨same,_⟩)
    · exact ranksFirst_asymm first second
    · rw [same] at first
      exact ranksFirst_irrefl s _ first

/-- The number of different prices in a walk. -/
def priceCount (entries : List Entry) : Nat := (entries.map Entry.priceTicks).dedup.length

/-- There is no slot for an order of this side and price, or none for the level
    that it needs. -/
def NoRoom (maxOrders maxPriceLevels : PoolCapacity) (walks : Side → List Entry) (side : Side) (price : UInt64) : Prop :=
  (walks .Buy).length + (walks .Sell).length = maxOrders.size ∨
    ((∀ e ∈ walks side, e.priceTicks ≠ price) ∧
      priceCount (walks .Buy) + priceCount (walks .Sell) = maxPriceLevels.size)

instance (walks : Side → List Entry) (side : Side) (price : UInt64) :
    Decidable (NoRoom maxOrders maxPriceLevels walks side price) := by unfold NoRoom; infer_instance

theorem mem_prices (kept : Kept book L) (s : Side) (price : UInt64) :
    price ∈ (walk book L s).map Entry.priceTicks ↔ HasLevel book L s price := by
  constructor
  · intro m
    obtain ⟨e,inWalk,rfl⟩ := List.mem_map.mp m
    obtain ⟨n,inQueue,rfl⟩ := List.mem_map.mp inWalk
    obtain ⟨level,inside,inLevel⟩ := List.mem_flatMap.mp inQueue
    exact ⟨level,inside,((kept.shaped.level s level inside).member n inLevel).1.symm⟩
  · rintro ⟨level,inside,rfl⟩
    obtain ⟨n,inLevel⟩ := List.exists_mem_of_ne_nil _ (kept.nonempty s level inside)
    refine List.mem_map.mpr ⟨entryAt book n,List.mem_map_of_mem (List.mem_flatMap.mpr ⟨level,inside,inLevel⟩),?_⟩
    exact ((kept.shaped.level s level inside).member n inLevel).1

theorem priceCount_walk (kept : Kept book L) (s : Side) : priceCount (walk book L s) = (L s).length := by
  have distinct : ((L s).map (fun e => priceAt book e.1)).Nodup := by
    rw [List.Nodup,List.pairwise_map]
    refine (List.pairwise_map.mp (kept.shaped.sides s).ranked).imp ?_
    intro a b first same
    rw [same] at first
    exact ranksFirst_irrefl s _ first
  have perm : ((walk book L s).map Entry.priceTicks).dedup.Perm ((L s).map (fun e => priceAt book e.1)) := by
    rw [List.perm_ext_iff_of_nodup (List.nodup_dedup _) distinct]
    intro price
    rw [List.mem_dedup,mem_prices kept s,List.mem_map]
    rfl
  rw [priceCount,perm.length_eq,List.length_map]

theorem refused_iff (kept : Kept book L) (side : Side) (price : UInt64) :
    Refused book L side price ↔ NoRoom maxOrders maxPriceLevels (walk book L) side price := by
  have orders : (orderSlots L).length = (walk book L .Buy).length + (walk book L .Sell).length := by
    simp [orderSlots,walk,queue]
  have levels : (levelSlots L).length = priceCount (walk book L .Buy) + priceCount (walk book L .Sell) := by
    rw [priceCount_walk kept,priceCount_walk kept]
    simp [levelSlots]
  have missing : ¬ HasLevel book L side price ↔ ∀ e ∈ walk book L side, e.priceTicks ≠ price := by
    rw [← mem_prices kept,List.mem_map]
    simp
  rw [Refused,NoRoom,orders,levels,missing]
end

/-! ### One operation -/

theorem orderedInsert_append {α : Type} {r : α → α → Prop} [DecidableRel r] {xs ys : List α} {a : α}
    (behind : ∀ b ∈ xs, ¬ r a b) (ahead : ∀ b ∈ ys, r a b) : (xs ++ ys).orderedInsert r a = xs ++ a :: ys := by
  induction xs with
  | nil =>
    cases ys with
    | nil => rfl
    | cons b rest => simp [ahead b List.mem_cons_self]
  | cons b rest ih =>
    rw [List.cons_append,List.orderedInsert_cons,if_neg (behind b List.mem_cons_self),
      ih (fun c m => behind c (List.mem_cons_of_mem _ m)),List.cons_append]

section
variable {book book' : OrderBook maxOrders maxPriceLevels} {L L' : Layout} {node : NodeIndex}

theorem walk_update {side : Side} {new : List Entry} (here : walk book' L' side = new)
    (far : walk book' L' (opposite side) = walk book L (opposite side)) :
    walk book' L' = Function.update (walk book L) side new := by
  funext s
  by_cases same : s = side
  · rw [same,here,Function.update_self]
  · rw [eq_opposite same,far,Function.update_of_ne (opposite_ne side)]

theorem Placed.walk_eq {new : Entry} (placed : Placed book L new book' L' node) :
    walk book' L' = Function.update (walk book L) new.side
      ((walk book L new.side).orderedInsert (Outranks new.side) new) := by
  have stays : ∀ s, ∀ n ∈ queue L s, entryAt book' n = entryAt book n := by
    intro s n m
    refine placed.others n ?_
    rintro rfl
    exact placed.fresh ((orderSlots_perm L s).mem_iff.mpr (List.mem_append_left _ m))
  obtain ⟨xs,ys,old,new',behind,ahead⟩ := placed.place
  have here := stays new.side
  rw [old] at here
  refine walk_update ?_ ?_
  · rw [walk,walk,old,new',List.map_append,List.map_append,List.map_cons,placed.entry,orderedInsert_append,
      List.map_congr_left (fun n m => here n (List.mem_append_left _ m)),
      List.map_congr_left (fun n m => here n (List.mem_append_right _ m))]
    · intro b m
      obtain ⟨n,inX,rfl⟩ := List.mem_map.mp m
      exact behind n inX
    · intro b m
      obtain ⟨n,inY,rfl⟩ := List.mem_map.mp m
      exact ahead n inY
  · have same : queue L' (opposite new.side) = queue L (opposite new.side) := by rw [queue,placed.far,queue]
    rw [walk,walk,same]
    exact List.map_congr_left (stays (opposite new.side))

theorem Taken.walk_eq {side : Side} (taken : Taken book L side node book' L') (xs ys : List NodeIndex)
    (old : queue L side = xs ++ node :: ys) (distinct : (queue L side).Nodup) :
    walk book' L' = Function.update (walk book L) side (xs.map (entryAt book) ++ ys.map (entryAt book)) := by
  have entries : entryAt book' = entryAt book := funext taken.entries
  obtain ⟨as,bs,old',new⟩ := taken.place
  rw [old,List.nodup_middle,List.nodup_cons,List.mem_append,not_or] at distinct
  rw [old] at old'
  obtain ⟨rfl,_,rfl⟩ := (List.append_cons_inj_of_notMem distinct.1.1 distinct.1.2).mp old'
  refine walk_update ?_ ?_
  · rw [walk,new,entries,List.map_append]
  · rw [walk,walk,queue,taken.far,entries,queue]
end

/-! ### The resting orders -/

section
variable {book : OrderBook maxOrders maxPriceLevels}

theorem resting_sorted (good : Good book) (s : Side) : (resting book s).Pairwise (fun a b => ¬ Outranks s b a) :=
  walk_sorted good s

theorem resting_length_le (good : Good book) (s : Side) : (resting book s).length ≤ maxOrders.size := by
  have all := (good.orderPool.perm (orderSlots_perm (layoutOf book) s)).length_le
  rw [List.length_append] at all
  rw [resting,walk,List.length_map,queue]
  omega

theorem insertOrder_resting (good : Good book) (new : Entry) :
    (NoRoom maxOrders maxPriceLevels (resting book) new.side new.priceTicks ∧
        book.insertOrder new.orderId new.side new.priceTicks new.seq new.remainingQty = some (false,book)) ∨
      (¬ NoRoom maxOrders maxPriceLevels (resting book) new.side new.priceTicks ∧ ∃ book',
        book.insertOrder new.orderId new.side new.priceTicks new.seq new.remainingQty = some (true,book') ∧
          Good book' ∧ resting book' = Function.update (resting book) new.side
            ((resting book new.side).orderedInsert (Outranks new.side) new)) := by
  have room := refused_iff good new.side new.priceTicks
  rcases insertOrder_cases good new with ⟨refused,same⟩ | ⟨free,book',L',node,ran,placed⟩
  · exact .inl ⟨room.mp refused,same⟩
  · refine .inr ⟨fun full => free (room.mpr full),book',ran,placed.kept.good,?_⟩
    rw [placed.kept.resting_eq]
    exact placed.walk_eq

theorem queue_nodup {L : Layout} (kept : Kept book L) (s : Side) : (queue L s).Nodup :=
  (List.nodup_append.mp ((orderSlots_perm L s).nodup_iff.mp kept.shaped.ordersApart)).1

/-- Removing a slot removes its entry from the walk. -/
theorem removeOrder_resting (good : Good book) {s : Side} {xs ys : List NodeIndex} {node : NodeIndex}
    (here : queue (layoutOf book) s = xs ++ node :: ys) :
    ∃ book', book.removeOrder node = some book' ∧ Good book' ∧
      resting book' = Function.update (resting book) s (xs.map (entryAt book) ++ ys.map (entryAt book)) := by
  obtain ⟨book',L',ran,taken⟩ := removeOrder_taken good (show node ∈ queue (layoutOf book) s by rw [here]; simp)
  refine ⟨book',ran,taken.kept.good,?_⟩
  rw [taken.kept.resting_eq]
  exact taken.walk_eq xs ys here (queue_nodup good s)

theorem sideHead_empty (good : Good book) {s : Side} (empty : resting book s = []) : book.sideHead s = kNullNode := by
  have noLevel : layoutOf book s = [] := by
    by_contra some
    obtain ⟨level,inside⟩ := List.exists_mem_of_ne_nil _ some
    obtain ⟨n,inLevel⟩ := List.exists_mem_of_ne_nil _ (good.nonempty s level inside)
    have inWalk : entryAt book n ∈ resting book s :=
      List.mem_map_of_mem (List.mem_flatMap.mpr ⟨level,inside,inLevel⟩)
    rw [empty] at inWalk
    cases inWalk
  rw [(good.shaped.sides s).head,noLevel]
  rfl

/-- The head of the best level is the front of the walk. -/
theorem sideHead_front (good : Good book) {s : Side} {e : Entry} {rest : List Entry}
    (front : resting book s = e :: rest) :
    book.sideHead s ≠ kNullNode ∧ (book.levelAt (book.sideHead s)).priceTicks = e.priceTicks ∧
      ∃ nodes, queue (layoutOf book) s = (book.levelAt (book.sideHead s)).head :: nodes ∧
        entryAt book (book.levelAt (book.sideHead s)).head = e ∧ nodes.map (entryAt book) = rest := by
  cases levels : layoutOf book s with
  | nil =>
    rw [resting,walk,queue,levels] at front
    cases front
  | cons level others =>
    have inside : level ∈ layoutOf book s := by rw [levels]; exact List.mem_cons_self
    have ok := good.shaped.level s level inside
    have head := (good.shaped.sides s).head
    rw [levels,List.map_cons,Links.front_cons] at head
    have proper : level.1 ≠ kNullNode := good.levelPool.ne_null (mem_levelSlots inside)
    obtain ⟨slot,nodes⟩ := level
    cases nodes with
    | nil => exact absurd rfl (good.nonempty s _ inside)
    | cons n more =>
      have first : (book.levelAt slot).head = n := ok.head
      have spelled : queue (layoutOf book) s = n :: (more ++ others.flatMap Prod.snd) := by simp [queue,levels]
      rw [resting,walk,spelled,List.map_cons] at front
      obtain ⟨here,there⟩ := List.cons.inj front
      rw [head]
      refine ⟨proper,?_,more ++ others.flatMap Prod.snd,?_,?_,there⟩
      · rw [← here,(ok.member n List.mem_cons_self).1]; rfl
      · rw [first,spelled]
      · rw [first]; exact here

theorem entryAt_setRemainingQty (node : NodeIndex) (qty : UInt32) (n : NodeIndex) :
    entryAt (book.setRemainingQty node qty) n =
      { entryAt book n with remainingQty := if n = node then qty else (entryAt book n).remainingQty } := by
  simp only [entryAt,entryOf,setRemainingQty_orderAt]

/-- Assigning to the front order's quantity changes the front entry. -/
theorem setRemainingQty_resting (good : Good book) {s : Side} {node : NodeIndex} {nodes : List NodeIndex}
    (first : queue (layoutOf book) s = node :: nodes) (qty : UInt32) :
    Good (book.setRemainingQty node qty) ∧ layoutOf (book.setRemainingQty node qty) = layoutOf book ∧
      resting (book.setRemainingQty node qty) = Function.update (resting book) s
        ({ entryAt book node with remainingQty := qty } :: nodes.map (entryAt book)) := by
  have kept := good.setRemainingQty node qty
  refine ⟨kept.good,kept.layout,?_⟩
  have distinct := queue_nodup good s
  rw [first,List.nodup_cons] at distinct
  have away : ∀ n, n ≠ node → entryAt (book.setRemainingQty node qty) n = entryAt book n := by
    intro n other
    rw [entryAt_setRemainingQty,if_neg other]
  rw [kept.resting_eq]
  refine walk_update ?_ ?_
  · rw [walk,first,List.map_cons,entryAt_setRemainingQty,if_pos rfl]
    refine congrArg _ (List.map_congr_left ?_)
    intro n m
    exact away n (by rintro rfl; exact distinct.1 m)
  · rw [walk,walk]
    refine List.map_congr_left ?_
    intro n m
    refine away n ?_
    rintro rfl
    have apart := (List.nodup_append.mp ((orderSlots_perm (layoutOf book) s).nodup_iff.mp good.shaped.ordersApart)).2.2
    exact apart n (by rw [← queue,first]; exact List.mem_cons_self) n m rfl

/-- Removing the front order after its quantity has been assigned to. -/
theorem removeFront_resting (good : Good book) {s : Side} {node : NodeIndex} {nodes : List NodeIndex}
    (first : queue (layoutOf book) s = node :: nodes) (qty : UInt32) :
    ∃ book', (book.setRemainingQty node qty).removeOrder node = some book' ∧ Good book' ∧
      resting book' = Function.update (resting book) s (nodes.map (entryAt book)) := by
  obtain ⟨good₁,layout₁,resting₁⟩ := setRemainingQty_resting good first qty
  have first₁ : queue (layoutOf (book.setRemainingQty node qty)) s = [] ++ node :: nodes := by
    rw [layout₁,first,List.nil_append]
  obtain ⟨book',ran,good',resting'⟩ := removeOrder_resting good₁ first₁
  have here := congrFun resting₁ s
  rw [resting,walk,first₁,Function.update_self,List.nil_append,List.map_cons] at here
  refine ⟨book',ran,good',?_⟩
  rw [resting',resting₁,Function.update_idem,List.map_nil,List.nil_append,(List.cons.inj here).2]
end

end HyperMatch.BookLayout
