import HyperMatch.Pools
import Mathlib.Data.List.Pairwise

/-!
The layout of an order book: for each side, best price first, the slots of its
levels, each with the slots of its orders in time priority. `Shaped` says that
the links of the book spell a layout, `Kept` adds what the pools hold and that
no level is empty. The helpers of the book change the layout by one level or one
order, and nothing else that can be observed.
-/
namespace HyperMatch.BookLayout
open HyperMatch.Wire HyperMatch.Links HyperMatch.OrderBook HyperMatch.Pools
set_option linter.unusedSimpArgs false

variable {maxOrders maxPriceLevels : PoolCapacity}

/-- What a resting order is, apart from its links. -/
structure Entry where
  orderId : UInt64
  seq : UInt64
  priceTicks : UInt64
  remainingQty : UInt32
  side : Side
  deriving Repr, DecidableEq

def entryOf (o : RestingOrder) : Entry := ⟨o.orderId,o.seq,o.priceTicks,o.remainingQty,o.side⟩
def entryAt (book : OrderBook maxOrders maxPriceLevels) (node : NodeIndex) : Entry := entryOf (book.orderAt node)

/-- The first order has strictly higher priority within a level. -/
def Before (a b : Entry) : Prop := hasPriorityOver a.seq a.orderId b.seq b.orderId = true

abbrev Layout := Side → List (NodeIndex × List NodeIndex)

/-- The slots of the levels and of the orders, of both sides. -/
def levelSlots (L : Layout) : List NodeIndex := (L .Buy).map Prod.fst ++ (L .Sell).map Prod.fst
def orderSlots (L : Layout) : List NodeIndex := (L .Buy).flatMap Prod.snd ++ (L .Sell).flatMap Prod.snd

def nextLevelOf (book : OrderBook maxOrders maxPriceLevels) (l : NodeIndex) : NodeIndex := (book.levelAt l).nextLevel
def prevLevelOf (book : OrderBook maxOrders maxPriceLevels) (l : NodeIndex) : NodeIndex := (book.levelAt l).prevLevel
def nextOf (book : OrderBook maxOrders maxPriceLevels) (n : NodeIndex) : NodeIndex := (book.orderAt n).next
def prevOf (book : OrderBook maxOrders maxPriceLevels) (n : NodeIndex) : NodeIndex := (book.orderAt n).prev
def priceAt (book : OrderBook maxOrders maxPriceLevels) (l : NodeIndex) : UInt64 := (book.levelAt l).priceTicks

/-- A level and its list of orders, in time priority. -/
structure LevelOk (book : OrderBook maxOrders maxPriceLevels) (side : Side) (level : NodeIndex)
    (nodes : List NodeIndex) : Prop where
  linked : Linked (nextOf book) (prevOf book) kNullNode nodes
  head : (book.levelAt level).head = front kNullNode nodes
  tail : (book.levelAt level).tail = back kNullNode nodes
  count : (book.levelAt level).orderCount = UInt32.ofNat nodes.length
  member : ∀ n ∈ nodes, (entryAt book n).priceTicks = priceAt book level ∧ (entryAt book n).side = side
  sorted : nodes.Pairwise (fun a b => ¬ Before (entryAt book b) (entryAt book a))

/-- A side and its list of levels, best price first. -/
structure SideOk (book : OrderBook maxOrders maxPriceLevels) (side : Side) (levels : List NodeIndex) : Prop where
  linked : Linked (nextLevelOf book) (prevLevelOf book) kNullNode levels
  head : book.sideHead side = front kNullNode levels
  ranked : levels.Pairwise (fun a b => priceRanksFirst side (priceAt book a) (priceAt book b) = true)

/-- The links of the book spell the layout. -/
structure Shaped (book : OrderBook maxOrders maxPriceLevels) (L : Layout) : Prop where
  sides : ∀ s, SideOk book s ((L s).map Prod.fst)
  level : ∀ s, ∀ e ∈ L s, LevelOk book s e.1 e.2
  levelsApart : (levelSlots L).Nodup
  ordersApart : (orderSlots L).Nodup

/-- The invariant of the book with a layout: its links, its pools, and no empty
    level. -/
structure Kept (book : OrderBook maxOrders maxPriceLevels) (L : Layout) : Prop where
  shaped : Shaped book L
  levelPool : Owns book.levels (levelSlots L)
  orderPool : Owns book.orders (orderSlots L)
  nonempty : ∀ s, ∀ e ∈ L s, e.2 ≠ []

/-! ### Layouts -/

theorem levelSlots_perm (L : Layout) (s : Side) :
    (levelSlots L).Perm ((L s).map Prod.fst ++ (L (opposite s)).map Prod.fst) := by
  cases s with
  | Buy => exact List.Perm.refl _
  | Sell => exact List.perm_append_comm

theorem orderSlots_perm (L : Layout) (s : Side) :
    (orderSlots L).Perm ((L s).flatMap Prod.snd ++ (L (opposite s)).flatMap Prod.snd) := by
  cases s with
  | Buy => exact List.Perm.refl _
  | Sell => exact List.perm_append_comm

theorem opposite_ne (s : Side) : opposite s ≠ s := by cases s <;> decide
theorem eq_opposite {s t : Side} (other : t ≠ s) : t = opposite s := by
  cases s <;> cases t <;> simp_all [opposite]

theorem mem_levelSlots {L : Layout} {s : Side} {e : NodeIndex × List NodeIndex} (m : e ∈ L s) : e.1 ∈ levelSlots L :=
  (levelSlots_perm L s).mem_iff.mpr (List.mem_append_left _ (List.mem_map_of_mem m))
theorem mem_orderSlots {L : Layout} {s : Side} {e : NodeIndex × List NodeIndex} (m : e ∈ L s) {n : NodeIndex}
    (inside : n ∈ e.2) : n ∈ orderSlots L :=
  (orderSlots_perm L s).mem_iff.mpr (List.mem_append_left _ (List.mem_flatMap.mpr ⟨e,m,inside⟩))

/-- Replacing one side of a layout. -/
theorem levelSlots_update (L : Layout) (s : Side) (new : List (NodeIndex × List NodeIndex)) :
    (levelSlots (Function.update L s new)).Perm (new.map Prod.fst ++ (L (opposite s)).map Prod.fst) := by
  have perm := levelSlots_perm (Function.update L s new) s
  rwa [Function.update_self,Function.update_of_ne (opposite_ne s)] at perm
theorem orderSlots_update (L : Layout) (s : Side) (new : List (NodeIndex × List NodeIndex)) :
    (orderSlots (Function.update L s new)).Perm (new.flatMap Prod.snd ++ (L (opposite s)).flatMap Prod.snd) := by
  have perm := orderSlots_perm (Function.update L s new) s
  rwa [Function.update_self,Function.update_of_ne (opposite_ne s)] at perm

/-- Adding a level to a side adds its slot and its orders. -/
theorem levelSlots_insert (L : Layout) {s : Side} {xs ys : List (NodeIndex × List NodeIndex)} (split : L s = xs ++ ys)
    (l : NodeIndex) (nodes : List NodeIndex) :
    (levelSlots (Function.update L s (xs ++ (l,nodes) :: ys))).Perm (l :: levelSlots L) := by
  have old := levelSlots_perm L s
  rw [split,List.map_append,List.append_assoc] at old
  refine (levelSlots_update L s _).trans ?_
  rw [List.map_append,List.map_cons,List.append_assoc,List.cons_append]
  exact List.perm_middle.trans (List.Perm.cons l old.symm)
theorem orderSlots_insert (L : Layout) {s : Side} {xs ys : List (NodeIndex × List NodeIndex)} (split : L s = xs ++ ys)
    (l : NodeIndex) (nodes : List NodeIndex) :
    (orderSlots (Function.update L s (xs ++ (l,nodes) :: ys))).Perm (nodes ++ orderSlots L) := by
  have old := orderSlots_perm L s
  rw [split,List.flatMap_append,List.append_assoc] at old
  refine (orderSlots_update L s _).trans ?_
  rw [List.flatMap_append,List.flatMap_cons]
  simp only [List.append_assoc]
  refine (List.perm_append_comm_assoc _ _ _).trans (List.Perm.append_left nodes ?_)
  exact old.symm

/-- Two levels of a shaped book that share a slot are the same one. -/
theorem level_unique {L : Layout} (apart : (levelSlots L).Nodup) {s t : Side} {e f : NodeIndex × List NodeIndex}
    (inS : e ∈ L s) (inT : f ∈ L t) (same : e.1 = f.1) : s = t ∧ e = f := by
  have nodup := (levelSlots_perm L s).nodup_iff.mp apart
  obtain ⟨distinct,_,disjoint⟩ := List.nodup_append.mp nodup
  by_cases sides : t = s
  · subst sides
    exact ⟨rfl,List.inj_on_of_nodup_map distinct inS inT same⟩
  · rw [eq_opposite sides] at inT
    exact absurd same (disjoint _ (List.mem_map_of_mem inS) _ (List.mem_map_of_mem inT))

/-- Two levels of a shaped book that share an order are the same one. -/
theorem order_level_unique {L : Layout} (apart : (orderSlots L).Nodup) {s t : Side} {e f : NodeIndex × List NodeIndex}
    (inS : e ∈ L s) (inT : f ∈ L t) {n : NodeIndex} (inE : n ∈ e.2) (inF : n ∈ f.2) : s = t ∧ e = f := by
  have nodup := (orderSlots_perm L s).nodup_iff.mp apart
  obtain ⟨distinct,_,disjoint⟩ := List.nodup_append.mp nodup
  by_cases sides : t = s
  · subst sides
    refine ⟨rfl,?_⟩
    by_contra different
    have : Std.Symm (Function.onFun List.Disjoint (Prod.snd (α := NodeIndex) (β := List NodeIndex))) :=
      ⟨fun a b h n inB inA => h inA inB⟩
    exact (List.nodup_flatMap.mp distinct).2.forall inS inT different inE inF
  · rw [eq_opposite sides] at inT
    exact absurd rfl (disjoint n (List.mem_flatMap.mpr ⟨e,inS,inE⟩) n (List.mem_flatMap.mpr ⟨f,inT,inF⟩))

/-! ### Frames -/

/-- A level is the same in a book that agrees on its slot and on its orders. -/
theorem LevelOk.congr {book book' : OrderBook maxOrders maxPriceLevels} {side : Side} {level : NodeIndex}
    {nodes : List NodeIndex} (ok : LevelOk book side level nodes)
    (head : (book'.levelAt level).head = (book.levelAt level).head)
    (tail : (book'.levelAt level).tail = (book.levelAt level).tail)
    (count : (book'.levelAt level).orderCount = (book.levelAt level).orderCount)
    (price : priceAt book' level = priceAt book level)
    (orders : ∀ n ∈ nodes, book'.orderAt n = book.orderAt n) : LevelOk book' side level nodes := by
  have entries : ∀ n ∈ nodes, entryAt book' n = entryAt book n := fun n m => by rw [entryAt,orders n m,entryAt]
  refine ⟨ok.linked.congr (fun n m => by rw [nextOf,orders n m,nextOf]) (fun n m => by rw [prevOf,orders n m,prevOf]),
    head.trans ok.head,tail.trans ok.tail,count.trans ok.count,?_,?_⟩
  · intro n m
    rw [entries n m,price]
    exact ok.member n m
  · refine ok.sorted.imp_of_mem ?_
    intro a b ma mb
    rw [entries a ma,entries b mb]
    exact id

theorem SideOk.congr {book book' : OrderBook maxOrders maxPriceLevels} {side : Side} {levels : List NodeIndex}
    (ok : SideOk book side levels) (head : book'.sideHead side = book.sideHead side)
    (nexts : ∀ l ∈ levels, nextLevelOf book' l = nextLevelOf book l)
    (prevs : ∀ l ∈ levels, prevLevelOf book' l = prevLevelOf book l)
    (prices : ∀ l ∈ levels, priceAt book' l = priceAt book l) : SideOk book' side levels := by
  refine ⟨ok.linked.congr nexts prevs,head.trans ok.head,ok.ranked.imp_of_mem ?_⟩
  intro a b ma mb
  rw [prices a ma,prices b mb]
  exact id

/-- A shape is the same in a book that agrees on its slots and on the heads. -/
theorem Shaped.congr {book book' : OrderBook maxOrders maxPriceLevels} {L : Layout} (shaped : Shaped book L)
    (heads : ∀ s, book'.sideHead s = book.sideHead s) (levels : ∀ l, book'.levelAt l = book.levelAt l)
    (orders : ∀ n ∈ orderSlots L, book'.orderAt n = book.orderAt n) : Shaped book' L := by
  refine ⟨?_,?_,shaped.levelsApart,shaped.ordersApart⟩
  · intro s
    refine (shaped.sides s).congr (heads s) ?_ ?_ ?_
    · intro l _; rw [nextLevelOf,levels,nextLevelOf]
    · intro l _; rw [prevLevelOf,levels,prevLevelOf]
    · intro l _; rw [priceAt,levels,priceAt]
  · intro s e m
    refine (shaped.level s e m).congr (by rw [levels]) (by rw [levels]) (by rw [levels]) (by rw [priceAt,levels,priceAt]) ?_
    intro n inside
    exact orders n (mem_orderSlots m inside)

theorem modify_slots {T : Type} {capacity : PoolCapacity} (pool : FreeListPool T capacity) (i j : NodeIndex)
    (change : T → T) : (pool.modify i change).slots j = if j = i then change (pool.slots i) else pool.slots j := by
  simp [FreeListPool.modify,Function.update_apply]

/-! ### Levels -/

section
variable (book : OrderBook maxOrders maxPriceLevels) (side : Side) (price : UInt64) (prev cur node : NodeIndex)

@[simp] theorem setSideHead_levels : (book.setSideHead side node).levels = book.levels := by cases side <;> rfl
@[simp] theorem setSideHead_orders : (book.setSideHead side node).orders = book.orders := by cases side <;> rfl
theorem sideHead_with (levels : FreeListPool PriceLevel maxPriceLevels) (s : Side) :
    OrderBook.sideHead { book with levels := levels } s = book.sideHead s := by cases s <;> rfl

/-- What linking a level does to a level slot. -/
theorem linkLevel_levelAt (other : node ≠ prev) (other' : node ≠ cur) (l : NodeIndex) :
    (linkLevel book side price prev cur node).levelAt l =
      { priceTicks := if l = node then price else (book.levelAt l).priceTicks
        orderCount := if l = node then 0 else (book.levelAt l).orderCount
        head := if l = node then kNullNode else (book.levelAt l).head
        tail := if l = node then kNullNode else (book.levelAt l).tail
        nextLevel := if l = node then cur
          else if l = prev ∧ prev ≠ kNullNode then node else (book.levelAt l).nextLevel
        prevLevel := if l = node then prev
          else if l = cur ∧ cur ≠ kNullNode then node else (book.levelAt l).prevLevel } := by
  simp only [linkLevel,OrderBook.levelAt]
  by_cases noPrev : prev = kNullNode
  · by_cases noCur : cur = kNullNode
    · simp only [noPrev,noCur,ne_eq,not_true_eq_false,if_true,if_false,setSideHead_levels,modify_slots]
      split_ifs <;> simp_all
    · simp only [noPrev,noCur,ne_eq,not_false_eq_true,if_true,setSideHead_levels,modify_slots]
      split_ifs <;> simp_all
  · by_cases noCur : cur = kNullNode
    · simp only [noPrev,noCur,ne_eq,not_true_eq_false,not_false_eq_true,if_true,if_false,modify_slots]
      split_ifs <;> simp_all
    · simp only [noPrev,noCur,ne_eq,not_false_eq_true,if_true,if_false,modify_slots]
      split_ifs <;> simp_all

theorem linkLevel_sideHead (s : Side) :
    (linkLevel book side price prev cur node).sideHead s =
      if s = side ∧ prev = kNullNode then node else book.sideHead s := by
  by_cases noPrev : prev = kNullNode
  · cases side <;> cases s <;> simp only [linkLevel,noPrev,if_true,OrderBook.setSideHead,reduceCtorEq,true_and,
      false_and,and_true,if_false] <;> split <;> rfl
  · simp only [linkLevel,noPrev,if_false,and_false]
    split <;> simp only [sideHead_with]

theorem linkLevel_orders : (linkLevel book side price prev cur node).orders = book.orders := by
  simp only [linkLevel]
  split_ifs <;> simp

theorem linkLevel_pool {used : List NodeIndex} (owns : Owns book.levels used) :
    Owns (linkLevel book side price prev cur node).levels used := by
  cases side <;> simp only [linkLevel] <;> split_ifs <;> exact owns.congr rfl rfl rfl
end

theorem mem_levelSlots_of_map {L : Layout} {s : Side} {l : NodeIndex} (m : l ∈ (L s).map Prod.fst) :
    l ∈ levelSlots L := (levelSlots_perm L s).mem_iff.mpr (List.mem_append_left _ m)

theorem sides_apart {L : Layout} (apart : (levelSlots L).Nodup) {s t : Side} (other : t ≠ s) :
    ∀ l ∈ (L t).map Prod.fst, l ∉ (L s).map Prod.fst := by
  intro l inT inS
  rw [eq_opposite other] at inT
  exact (List.nodup_append.mp ((levelSlots_perm L s).nodup_iff.mp apart)).2.2 l inS l inT rfl

/-- A list end is the sentinel or a place of the list. -/
theorem front_or (nil : NodeIndex) (l : List NodeIndex) : front nil l = nil ∨ front nil l ∈ l := by
  cases l with
  | nil => exact .inl rfl
  | cons a rest => exact .inr List.mem_cons_self
theorem back_or (nil : NodeIndex) (l : List NodeIndex) : back nil l = nil ∨ back nil l ∈ l := by
  rw [← front_reverse,← List.mem_reverse]
  exact front_or nil l.reverse

/-- A slot of no list is not an end of it. -/
theorem ne_front_of_not_mem {nil a : NodeIndex} {l : List NodeIndex} (absent : a ∉ l) (proper : a ≠ nil) :
    a ≠ front nil l := by
  rcases front_or nil l with missing | inside
  · rwa [missing]
  · exact fun same => absent (same ▸ inside)
theorem ne_back_of_not_mem {nil a : NodeIndex} {l : List NodeIndex} (absent : a ∉ l) (proper : a ≠ nil) :
    a ≠ back nil l := by
  rcases back_or nil l with missing | inside
  · rwa [missing]
  · exact fun same => absent (same ▸ inside)

section
variable {book : OrderBook maxOrders maxPriceLevels} {side : Side} {price : UInt64} {node : NodeIndex}
  {xs ys : List NodeIndex}

/-- The new level stands in its side's list, between the two parts. -/
theorem SideOk.linkLevel (ok : SideOk book side (xs ++ ys)) (fresh : node ∉ xs ++ ys) (proper : node ≠ kNullNode)
    (better : ∀ l ∈ xs, priceRanksFirst side (priceAt book l) price = true)
    (worse : ∀ l ∈ ys, priceRanksFirst side price (priceAt book l) = true) :
    SideOk (OrderBook.linkLevel book side price (back kNullNode xs) (front kNullNode ys) node) side
      (xs ++ node :: ys) := by
  have noNil := ok.linked.noNil
  simp only [List.mem_append,not_or] at noNil fresh
  have nodePrev : node ≠ back kNullNode xs := ne_back_of_not_mem fresh.1 proper
  have nodeCur : node ≠ front kNullNode ys := ne_front_of_not_mem fresh.2 proper
  have after := linkLevel_levelAt book side price _ _ node nodePrev nodeCur
  have away : ∀ l ∈ xs ++ ys, l ≠ node := by
    rintro l m rfl
    rcases List.mem_append.mp m with inX | inY
    · exact fresh.1 inX
    · exact fresh.2 inY
  have prices : ∀ l ∈ xs ++ ys,
      priceAt (OrderBook.linkLevel book side price (back kNullNode xs) (front kNullNode ys) node) l = priceAt book l := by
    intro l m; simp [priceAt,after,away l m]
  refine ⟨?_,?_,?_⟩
  · refine ok.linked.insert (by simp [fresh]) proper (by simp [nextLevelOf,after]) (by simp [prevLevelOf,after]) ?_ ?_ ?_ ?_
    · intro someX
      have properPrev : back kNullNode xs ≠ kNullNode := fun missing => someX ((back_eq_nil noNil.1).mp missing)
      simp [nextLevelOf,after,Ne.symm nodePrev,properPrev]
    · intro someY
      have properCur : front kNullNode ys ≠ kNullNode := fun missing => someY ((front_eq_nil noNil.2).mp missing)
      simp [prevLevelOf,after,Ne.symm nodeCur,properCur]
    · intro l m notPrev; simp [nextLevelOf,after,away l m,notPrev]
    · intro l m notCur; simp [prevLevelOf,after,away l m,notCur]
  · rw [linkLevel_sideHead,ok.head]
    cases xs with
    | nil => simp
    | cons a rest =>
      have properPrev : back kNullNode (a :: rest) ≠ kNullNode :=
        fun missing => absurd ((back_eq_nil noNil.1).mp missing) (by simp)
      rw [if_neg (fun both => properPrev both.2)]
      rfl
  · obtain ⟨rankedX,rankedY,across⟩ := List.pairwise_append.mp ok.ranked
    have nodePrice : priceAt (OrderBook.linkLevel book side price (back kNullNode xs) (front kNullNode ys) node) node =
        price := by simp [priceAt,after]
    rw [List.pairwise_append,List.pairwise_cons]
    refine ⟨rankedX.imp_of_mem ?_,⟨?_,rankedY.imp_of_mem ?_⟩,?_⟩
    · intro a b ma mb
      rw [prices a (List.mem_append_left _ ma),prices b (List.mem_append_left _ mb)]; exact id
    · intro l m
      rw [nodePrice,prices l (List.mem_append_right _ m)]; exact worse l m
    · intro a b ma mb
      rw [prices a (List.mem_append_right _ ma),prices b (List.mem_append_right _ mb)]; exact id
    · intro a ma b mb
      rw [prices a (List.mem_append_left _ ma)]
      rcases List.mem_cons.mp mb with rfl | inY
      · rw [nodePrice]; exact better a ma
      · rw [prices b (List.mem_append_right _ inY)]; exact across a ma b inY

/-- The other side does not see the new level. -/
theorem SideOk.linkLevel_other {s : Side} {levels : List NodeIndex} (ok : SideOk book s levels) (other : s ≠ side)
    (fresh : node ∉ xs ++ ys) (proper : node ≠ kNullNode) (freshHere : node ∉ levels)
    (apart : ∀ l ∈ levels, l ∉ xs ++ ys) :
    SideOk (OrderBook.linkLevel book side price (back kNullNode xs) (front kNullNode ys) node) s levels := by
  simp only [List.mem_append,not_or] at fresh apart
  have after := linkLevel_levelAt book side price _ _ node (ne_back_of_not_mem fresh.1 proper)
    (ne_front_of_not_mem fresh.2 proper)
  have away : ∀ l ∈ levels, l ≠ node := by rintro l m rfl; exact freshHere m
  apply ok.congr
  · rw [linkLevel_sideHead,if_neg (fun both => other both.1)]
  · intro l m
    have notPrev : l ≠ back kNullNode xs :=
      ne_back_of_not_mem (apart l m).1 (fun missing => ok.linked.noNil (missing ▸ m))
    simp [nextLevelOf,after,away l m,notPrev]
  · intro l m
    have notCur : l ≠ front kNullNode ys :=
      ne_front_of_not_mem (apart l m).2 (fun missing => ok.linked.noNil (missing ▸ m))
    simp [prevLevelOf,after,away l m,notCur]
  · intro l m; simp [priceAt,after,away l m]

/-- The other levels keep their orders. -/
theorem LevelOk.linkLevel {s : Side} {l : NodeIndex} {nodes : List NodeIndex} (ok : LevelOk book s l nodes)
    (fresh : node ∉ xs ++ ys) (proper : node ≠ kNullNode) (away : l ≠ node) :
    LevelOk (OrderBook.linkLevel book side price (back kNullNode xs) (front kNullNode ys) node) s l nodes := by
  simp only [List.mem_append,not_or] at fresh
  have after := linkLevel_levelAt book side price _ _ node (ne_back_of_not_mem fresh.1 proper)
    (ne_front_of_not_mem fresh.2 proper)
  exact ok.congr (by simp [after,away]) (by simp [after,away]) (by simp [after,away]) (by simp [priceAt,after,away])
    (fun n _ => by simp only [OrderBook.orderAt,linkLevel_orders])
end

/-- Linking a fresh slot as an empty level of a new price, between the levels
    that rank before the price and those that it ranks before. -/
theorem Shaped.linkLevel {book : OrderBook maxOrders maxPriceLevels} {L : Layout} (shaped : Shaped book L)
    {side : Side} {price : UInt64} {node : NodeIndex} {xs ys : List (NodeIndex × List NodeIndex)}
    (split : L side = xs ++ ys) (fresh : node ∉ levelSlots L) (proper : node ≠ kNullNode)
    (better : ∀ e ∈ xs, priceRanksFirst side (priceAt book e.1) price = true)
    (worse : ∀ e ∈ ys, priceRanksFirst side price (priceAt book e.1) = true) :
    Shaped (OrderBook.linkLevel book side price (back kNullNode (xs.map Prod.fst)) (front kNullNode (ys.map Prod.fst)) node)
      (Function.update L side (xs ++ (node,[]) :: ys)) := by
  have parts : (L side).map Prod.fst = xs.map Prod.fst ++ ys.map Prod.fst := by rw [split,List.map_append]
  have freshSide : node ∉ xs.map Prod.fst ++ ys.map Prod.fst := by
    rw [← parts]; exact fun m => fresh (mem_levelSlots_of_map m)
  have levelFrame : ∀ s, ∀ e ∈ L s, LevelOk (OrderBook.linkLevel book side price (back kNullNode (xs.map Prod.fst))
      (front kNullNode (ys.map Prod.fst)) node) s e.1 e.2 := fun s e m =>
    (shaped.level s e m).linkLevel freshSide proper (fun same => fresh (same ▸ mem_levelSlots m))
  refine ⟨?_,?_,?_,?_⟩
  · intro s
    by_cases same : s = side
    · subst same
      rw [Function.update_self,List.map_append,List.map_cons]
      have ok := shaped.sides s
      rw [parts] at ok
      refine ok.linkLevel freshSide proper ?_ ?_
      · intro l m
        obtain ⟨e,inX,rfl⟩ := List.mem_map.mp m
        exact better e inX
      · intro l m
        obtain ⟨e,inY,rfl⟩ := List.mem_map.mp m
        exact worse e inY
    · rw [Function.update_of_ne same]
      refine (shaped.sides s).linkLevel_other same freshSide proper (fun m => fresh (mem_levelSlots_of_map m)) ?_
      rw [← parts]
      exact sides_apart shaped.levelsApart same
  · intro s e m
    by_cases same : s = side
    · subst same
      rw [Function.update_self] at m
      rcases List.mem_append.mp m with inX | rest
      · exact levelFrame s e (by rw [split]; exact List.mem_append_left _ inX)
      · rcases List.mem_cons.mp rest with rfl | inY
        · simp only [List.mem_append,not_or] at freshSide
          have after := linkLevel_levelAt book s price _ _ node (ne_back_of_not_mem freshSide.1 proper)
            (ne_front_of_not_mem freshSide.2 proper) node
          exact ⟨linked_nil _ _ _,by simp [after],by simp [after],by simp [after],by simp,List.Pairwise.nil⟩
        · exact levelFrame s e (by rw [split]; exact List.mem_append_right _ inY)
    · rw [Function.update_of_ne same] at m
      exact levelFrame s e m
  · exact (levelSlots_insert L split node []).nodup_iff.mpr (List.nodup_cons.mpr ⟨fresh,shaped.levelsApart⟩)
  · exact (orderSlots_insert L split node []).nodup_iff.mpr shaped.ordersApart

section
variable (book : OrderBook maxOrders maxPriceLevels) (side : Side) (level : NodeIndex)

/-- What removing a level does to a level slot. -/
theorem removeLevel_levelAt (l : NodeIndex) :
    (removeLevel book side level).levelAt l =
      { book.levelAt l with
        nextLevel := if l = prevLevelOf book level ∧ prevLevelOf book level ≠ kNullNode then nextLevelOf book level
          else (book.levelAt l).nextLevel
        prevLevel := if l = nextLevelOf book level ∧ nextLevelOf book level ≠ kNullNode then prevLevelOf book level
          else (book.levelAt l).prevLevel } := by
  simp only [removeLevel,OrderBook.levelAt,FreeListPool.release,prevLevelOf,nextLevelOf]
  by_cases noPrev : (book.levels.slots level).prevLevel = kNullNode
  · by_cases noNext : (book.levels.slots level).nextLevel = kNullNode
    · simp [noPrev,noNext,setSideHead_levels]
    · simp only [noPrev,noNext,ne_eq,not_false_eq_true,not_true_eq_false,if_true,setSideHead_levels,modify_slots]
      split_ifs <;> simp_all
  · by_cases noNext : (book.levels.slots level).nextLevel = kNullNode
    · simp only [noPrev,noNext,ne_eq,not_false_eq_true,not_true_eq_false,if_false,modify_slots]
      split_ifs <;> simp_all
    · simp only [noPrev,noNext,ne_eq,not_false_eq_true,if_true,if_false,modify_slots]
      split_ifs <;> simp_all

theorem removeLevel_sideHead (s : Side) :
    (removeLevel book side level).sideHead s =
      if s = side ∧ prevLevelOf book level = kNullNode then nextLevelOf book level else book.sideHead s := by
  simp only [prevLevelOf,nextLevelOf]
  by_cases noPrev : (book.levelAt level).prevLevel = kNullNode
  · cases side <;> cases s <;> simp only [removeLevel,noPrev,if_true,OrderBook.setSideHead,reduceCtorEq,true_and,
      false_and,and_true,if_false] <;> split <;> rfl
  · simp only [removeLevel,noPrev,if_false,and_false]
    split <;> simp only [sideHead_with]

theorem removeLevel_orders : (removeLevel book side level).orders = book.orders := by
  simp only [removeLevel]
  split_ifs <;> simp

theorem removeLevel_pool {used : List NodeIndex} (owns : Owns book.levels (level :: used)) :
    Owns (removeLevel book side level).levels used := by
  have same : (removeLevel book side level).levels.nextFree = (book.levels.release level).nextFree ∧
      (removeLevel book side level).levels.freeHead = (book.levels.release level).freeHead ∧
      (removeLevel book side level).levels.inUse = (book.levels.release level).inUse := by
    simp only [removeLevel]
    split_ifs <;> simp [FreeListPool.release,FreeListPool.modify]
  exact owns.release.congr same.1 same.2.1 same.2.2
end

section
variable {book : OrderBook maxOrders maxPriceLevels} {side : Side} {level : NodeIndex} {xs ys : List NodeIndex}

theorem SideOk.removeLevel (ok : SideOk book side (xs ++ level :: ys)) :
    SideOk (OrderBook.removeLevel book side level) side (xs ++ ys) := by
  have noNil := ok.linked.noNil
  simp only [List.mem_append,List.mem_cons,not_or] at noNil
  obtain ⟨next,prev⟩ := ok.linked.links
  have after := removeLevel_levelAt book side level
  rw [next,prev] at after
  have prices : ∀ l, priceAt (OrderBook.removeLevel book side level) l = priceAt book l := by
    intro l; simp [priceAt,after]
  refine ⟨?_,?_,?_⟩
  · refine ok.linked.remove ?_ ?_ ?_ ?_
    · intro someX
      have properPrev : back kNullNode xs ≠ kNullNode := fun missing => someX ((back_eq_nil noNil.1).mp missing)
      simp [nextLevelOf,after,properPrev]
    · intro someY
      have properNext : front kNullNode ys ≠ kNullNode := fun missing => someY ((front_eq_nil noNil.2.2).mp missing)
      simp [prevLevelOf,after,properNext]
    · intro l m notPrev; simp [nextLevelOf,after,notPrev]
    · intro l m notNext; simp [prevLevelOf,after,notNext]
  · rw [removeLevel_sideHead,next,prev,ok.head]
    cases xs with
    | nil => simp
    | cons a rest =>
      have properPrev : back kNullNode (a :: rest) ≠ kNullNode :=
        fun missing => absurd ((back_eq_nil noNil.1).mp missing) (by simp)
      rw [if_neg (fun both => properPrev both.2)]
      rfl
  · simp only [prices]
    exact ok.ranked.sublist ((List.sublist_cons_self level ys).append_left xs)

theorem SideOk.removeLevel_other {s : Side} {levels : List NodeIndex} (ok : SideOk book s levels) (other : s ≠ side)
    (here : SideOk book side (xs ++ level :: ys)) (apart : ∀ l ∈ levels, l ∉ xs ++ level :: ys) :
    SideOk (OrderBook.removeLevel book side level) s levels := by
  obtain ⟨next,prev⟩ := here.linked.links
  have after := removeLevel_levelAt book side level
  rw [next,prev] at after
  simp only [List.mem_append,List.mem_cons,not_or] at apart
  apply ok.congr
  · rw [removeLevel_sideHead,if_neg (fun both => other both.1)]
  · intro l m
    have notPrev : l ≠ back kNullNode xs :=
      ne_back_of_not_mem (apart l m).1 (fun missing => ok.linked.noNil (missing ▸ m))
    simp [nextLevelOf,after,notPrev]
  · intro l m
    have notNext : l ≠ front kNullNode ys :=
      ne_front_of_not_mem (apart l m).2.2 (fun missing => ok.linked.noNil (missing ▸ m))
    simp [prevLevelOf,after,notNext]
  · intro l m; simp [priceAt,after]
end

/-- Removing an empty level. -/
theorem Shaped.removeLevel {book : OrderBook maxOrders maxPriceLevels} {L : Layout} (shaped : Shaped book L)
    {side : Side} {level : NodeIndex} {xs ys : List (NodeIndex × List NodeIndex)}
    (split : L side = xs ++ (level,[]) :: ys) :
    Shaped (OrderBook.removeLevel book side level) (Function.update L side (xs ++ ys)) := by
  have parts : (L side).map Prod.fst = xs.map Prod.fst ++ level :: ys.map Prod.fst := by
    rw [split,List.map_append,List.map_cons]
  have here := shaped.sides side
  rw [parts] at here
  have levelFrame : ∀ s, ∀ e ∈ L s, LevelOk (OrderBook.removeLevel book side level) s e.1 e.2 := by
    intro s e m
    have after := removeLevel_levelAt book side level e.1
    exact (shaped.level s e m).congr (by simp [after]) (by simp [after]) (by simp [after]) (by simp [priceAt,after])
      (fun n _ => by simp only [OrderBook.orderAt,removeLevel_orders])
  have smaller : Function.update (Function.update L side (xs ++ ys)) side (xs ++ (level,[]) :: ys) = L := by
    rw [Function.update_idem,← split,Function.update_eq_self]
  have levelPerm := levelSlots_insert (Function.update L side (xs ++ ys)) (Function.update_self side _ L) level []
  have orderPerm := orderSlots_insert (Function.update L side (xs ++ ys)) (Function.update_self side _ L) level []
  rw [smaller] at levelPerm orderPerm
  refine ⟨?_,?_,?_,?_⟩
  · intro s
    by_cases same : s = side
    · subst same
      rw [Function.update_self,List.map_append]
      exact here.removeLevel
    · rw [Function.update_of_ne same]
      refine (shaped.sides s).removeLevel_other same here ?_
      rw [← parts]
      exact sides_apart shaped.levelsApart same
  · intro s e m
    by_cases same : s = side
    · subst same
      rw [Function.update_self] at m
      apply levelFrame s e
      rw [split]
      rcases List.mem_append.mp m with inX | inY
      · exact List.mem_append_left _ inX
      · exact List.mem_append_right _ (List.mem_cons_of_mem _ inY)
    · rw [Function.update_of_ne same] at m
      exact levelFrame s e m
  · exact (List.nodup_cons.mp (levelPerm.nodup_iff.mp shaped.levelsApart)).2
  · exact orderPerm.nodup_iff.mp shaped.ordersApart

end HyperMatch.BookLayout
