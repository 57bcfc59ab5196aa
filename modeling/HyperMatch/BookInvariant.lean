import HyperMatch.BookOps

/-!
The representation invariant of the order book. The layout of a book can be read
off its links; in every book that its operations reach, that layout is kept. So
every operation returns, reserving never hands out a slot in use, and what the
best-first walks read is what the book holds.
-/
namespace HyperMatch.BookLayout
open HyperMatch.Wire HyperMatch.Links HyperMatch.OrderBook HyperMatch.Pools
set_option linter.unusedSimpArgs false

variable {maxOrders maxPriceLevels : PoolCapacity}

/-! ### Reading a book -/

/-- The levels of a side from its head, and the orders of a level from its head. -/
def levelsOf (book : OrderBook maxOrders maxPriceLevels) (side : Side) : List NodeIndex :=
  follow (nextLevelOf book) kNullNode maxPriceLevels.size (book.sideHead side)
def ordersOf (book : OrderBook maxOrders maxPriceLevels) (level : NodeIndex) : List NodeIndex :=
  follow (nextOf book) kNullNode maxOrders.size (book.levelAt level).head

def layoutOf (book : OrderBook maxOrders maxPriceLevels) : Layout :=
  fun side => (levelsOf book side).map (fun level => (level,ordersOf book level))

/-- The resting orders of a side, best first. -/
def resting (book : OrderBook maxOrders maxPriceLevels) (side : Side) : List Entry := walk book (layoutOf book) side

theorem Kept.layout {book : OrderBook maxOrders maxPriceLevels} {L : Layout} (kept : Kept book L) :
    layoutOf book = L := by
  funext s
  have ok := kept.shaped.sides s
  have levels : levelsOf book s = (L s).map Prod.fst := by
    rw [levelsOf,ok.head]
    exact follow_forward ok.linked.segment ok.linked.noNil (by simpa using side_length_le kept.levelPool s)
  rw [layoutOf,levels,List.map_map]
  have same : ∀ e ∈ L s, ((fun level => (level,ordersOf book level)) ∘ Prod.fst) e = e := by
    intro e m
    have level := kept.shaped.level s e m
    have orders : ordersOf book e.1 = e.2 := by
      rw [ordersOf,level.head]
      exact follow_forward level.linked.segment level.linked.noNil (level_length_le kept.orderPool m)
    exact Prod.ext rfl orders
  rw [List.map_congr_left same,List.map_id']

theorem Kept.resting_eq {book : OrderBook maxOrders maxPriceLevels} {L : Layout} (kept : Kept book L) :
    resting book = walk book L := by
  funext s
  rw [resting,kept.layout]

/-! ### Runs -/

/-- The books that the operations reach; handles are given to `remove_order` and
    quantities decreased in place only while they rest. -/
inductive Reachable : OrderBook maxOrders maxPriceLevels → Prop
  | new : Reachable OrderBook.new
  | insert {book book' : OrderBook maxOrders maxPriceLevels} {orderId : UInt64} {side : Side} {priceTicks seq : UInt64}
      {qty : UInt32} {done : Bool} (reached : Reachable book)
      (ran : book.insertOrder orderId side priceTicks seq qty = some (done,book')) : Reachable book'
  | remove {book book' : OrderBook maxOrders maxPriceLevels} {node : NodeIndex} {side : Side} (reached : Reachable book)
      (live : node ∈ queue (layoutOf book) side) (ran : book.removeOrder node = some book') : Reachable book'
  | clear {book : OrderBook maxOrders maxPriceLevels} (reached : Reachable book) : Reachable book.clear
  | decrease {book : OrderBook maxOrders maxPriceLevels} (reached : Reachable book) (node : NodeIndex) (side : Side)
      (qty : UInt32) (live : node ∈ queue (layoutOf book) side) (positive : 0 < qty)
      (less : qty < (book.orderAt node).remainingQty) : Reachable (book.setRemainingQty node qty)

/-- What an insertion does, whether or not the pools have room. -/
theorem insertOrder_cases {book : OrderBook maxOrders maxPriceLevels} {L : Layout} (kept : Kept book L) (new : Entry) :
    (Refused book L new.side new.priceTicks ∧
        book.insertOrder new.orderId new.side new.priceTicks new.seq new.remainingQty = some (false,book)) ∨
      (¬ Refused book L new.side new.priceTicks ∧ ∃ book' L' node,
        book.insertOrder new.orderId new.side new.priceTicks new.seq new.remainingQty = some (true,book') ∧
          Placed book L new book' L' node) := by
  by_cases refused : Refused book L new.side new.priceTicks
  · exact .inl ⟨refused,insertOrder_refused kept _ _ _ _ _ refused⟩
  · exact .inr ⟨refused,insertOrder_placed kept new refused⟩

theorem Reachable.kept {book : OrderBook maxOrders maxPriceLevels} (reached : Reachable book) :
    Kept book (layoutOf book) := by
  have of_kept : ∀ {book : OrderBook maxOrders maxPriceLevels} {L : Layout}, Kept book L → Kept book (layoutOf book) := by
    intro book L kept
    rw [kept.layout]
    exact kept
  induction reached with
  | new => exact of_kept kept_new
  | @insert book book' orderId side priceTicks seq qty done _ ran kept =>
    rcases insertOrder_cases kept ⟨orderId,seq,priceTicks,qty,side⟩ with ⟨_,same⟩ | ⟨_,after,L',node,placed,ok⟩
    · rw [ran] at same
      obtain ⟨_,rfl⟩ := Prod.mk.inj (Option.some.inj same)
      exact kept
    · rw [ran] at placed
      obtain ⟨_,rfl⟩ := Prod.mk.inj (Option.some.inj placed)
      exact of_kept ok.kept
  | remove _ live ran kept =>
    obtain ⟨after,L',removed,ok⟩ := removeOrder_taken kept live
    rw [ran] at removed
    obtain rfl := Option.some.inj removed
    exact of_kept ok.kept
  | clear _ _ => exact of_kept (kept_clear _)
  | decrease _ node side qty _ _ _ kept => exact of_kept (kept.setRemainingQty _ _)

/-- The representation invariant, in every book that the operations reach: the
    links spell the layout, both pools own exactly its slots, every operation
    returns, and the slots that an insertion would reserve are nobody's. -/
theorem reachable_book_kept {book : OrderBook maxOrders maxPriceLevels} (reached : Reachable book) :
    Kept book (layoutOf book) ∧
      (∀ orderId side priceTicks seq qty, (book.insertOrder orderId side priceTicks seq qty).isSome = true) ∧
      (∀ side, ∀ node ∈ queue (layoutOf book) side, (book.removeOrder node).isSome = true) ∧
      (book.orders.full = false → book.orders.acquire.1 < maxOrders.size ∧
        book.orders.acquire.1 ∉ orderSlots (layoutOf book)) ∧
      (book.levels.full = false → book.levels.acquire.1 < maxPriceLevels.size ∧
        book.levels.acquire.1 ∉ levelSlots (layoutOf book)) := by
  have kept := reached.kept
  refine ⟨kept,?_,?_,fun free => kept.orderPool.acquire_fresh free,fun free => kept.levelPool.acquire_fresh free⟩
  · intro orderId side priceTicks seq qty
    rcases insertOrder_cases kept ⟨orderId,seq,priceTicks,qty,side⟩ with ⟨_,ran⟩ | ⟨_,_,_,_,ran,_⟩
    · rw [ran]; rfl
    · rw [ran]; rfl
  · intro side node live
    obtain ⟨_,_,ran,_⟩ := removeOrder_taken kept live
    rw [ran]; rfl

/-- Insertions one after the other. -/
def insertAll (book : OrderBook maxOrders maxPriceLevels) (orders : List Entry) : Option (OrderBook maxOrders maxPriceLevels) :=
  orders.foldlM (fun book e => (book.insertOrder e.orderId e.side e.priceTicks e.seq e.remainingQty).map Prod.snd) book

theorem Reachable.insertAll {book book' : OrderBook maxOrders maxPriceLevels} (reached : Reachable book) {orders : List Entry}
    (ran : insertAll book orders = some book') : Reachable book' := by
  induction orders generalizing book with
  | nil =>
    cases ran
    exact reached
  | cons e rest ih =>
    rw [BookLayout.insertAll,List.foldlM_cons] at ran
    obtain ⟨next,inserted,later⟩ := Option.bind_eq_some_iff.mp ran
    obtain ⟨⟨done,after⟩,placed,rfl⟩ := Option.map_eq_some_iff.mp inserted
    exact ih (reached.insert placed) later

/-- Three bids at two prices and an ask. -/
def crowd : List Entry := [⟨7,3,100,5,.Buy⟩,⟨8,4,101,2,.Buy⟩,⟨9,2,100,1,.Buy⟩,⟨10,5,105,4,.Sell⟩]

/-- Together they fill the pool of orders. The best bid is removed and its level with it,
    and the last bid is decreased; a slot and a level are free then. -/
theorem reachable_book_kept_crowd :
    ∃ book book' : OrderBook .four .four, insertAll OrderBook.new crowd = some book ∧ book.orders.full = true ∧
      resting book .Buy = [⟨8,4,101,2,.Buy⟩,⟨9,2,100,1,.Buy⟩,⟨7,3,100,5,.Buy⟩] ∧ Kept book (layoutOf book) ∧
      book.removeOrder 1 = some book' ∧ layoutOf (book'.setRemainingQty 0 3) .Buy = [(0,[2,0])] ∧
      resting (book'.setRemainingQty 0 3) .Buy = [⟨9,2,100,1,.Buy⟩,⟨7,3,100,3,.Buy⟩] ∧
      Kept (book'.setRemainingQty 0 3) (layoutOf (book'.setRemainingQty 0 3)) ∧
      (book'.setRemainingQty 0 3).orders.acquire.1 ∉ orderSlots (layoutOf (book'.setRemainingQty 0 3)) ∧
      (book'.setRemainingQty 0 3).levels.acquire.1 ∉ levelSlots (layoutOf (book'.setRemainingQty 0 3)) := by
  have shown : (insertAll (OrderBook.new : OrderBook .four .four) crowd).bind (fun book => (book.removeOrder 1).map (fun book' =>
      decide (book.orders.full = true ∧ resting book .Buy = [⟨8,4,101,2,.Buy⟩,⟨9,2,100,1,.Buy⟩,⟨7,3,100,5,.Buy⟩] ∧
        1 ∈ queue (layoutOf book) .Buy ∧ 0 ∈ queue (layoutOf book') .Buy ∧ 3 < (book'.orderAt 0).remainingQty ∧
        layoutOf (book'.setRemainingQty 0 3) .Buy = [(0,[2,0])] ∧
        resting (book'.setRemainingQty 0 3) .Buy = [⟨9,2,100,1,.Buy⟩,⟨7,3,100,3,.Buy⟩] ∧
        (book'.setRemainingQty 0 3).orders.full = false ∧ (book'.setRemainingQty 0 3).levels.full = false))) = some true := by
    decide +kernel
  obtain ⟨book,inserted,rest⟩ := Option.bind_eq_some_iff.mp shown
  obtain ⟨book',removed,facts⟩ := Option.map_eq_some_iff.mp rest
  obtain ⟨full,bids,first,last,less,layout,left,free,freeLevel⟩ := of_decide_eq_true facts
  have reached := Reachable.new.insertAll inserted
  have reached' := (reached.remove first removed).decrease 0 .Buy 3 last (by decide) less
  obtain ⟨kept',-,-,orderSlot,levelSlot⟩ := reachable_book_kept reached'
  exact ⟨book,book',inserted,full,bids,(reachable_book_kept reached).1,removed,layout,left,kept',(orderSlot free).2,
    (levelSlot freeLevel).2⟩

end HyperMatch.BookLayout
