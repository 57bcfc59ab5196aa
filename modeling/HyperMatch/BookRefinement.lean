import HyperMatch.IntegrityGuard

/-!
The book as its callers read it: from `best_bid` or `best_ask` through `level_after`,
and at each level from `level_head` through `next`. On every book that the operations
reach these loops end, and the operations are operations on the lists that they read.
-/
namespace HyperMatch.BookLayout
open HyperMatch.Wire HyperMatch.Links HyperMatch.OrderBook HyperMatch.Pools

variable {maxOrders maxPriceLevels : PoolCapacity}

/-! ### Reading loops -/

def levelsFrom (book : OrderBook maxOrders maxPriceLevels) : Nat → Option PriceLevel → Option (List PriceLevel)
  | 0,_ => none
  | _+1,none => some []
  | bound+1,some level => do return level :: (← levelsFrom book bound (book.levelAfter level))

def handlesFrom (book : OrderBook maxOrders maxPriceLevels) : Nat → NodeIndex → Option (List NodeIndex)
  | 0,_ => none
  | bound+1,node =>
    if node = kNullNode then some []
    else do return node :: (← handlesFrom book bound (book.orderAt node).next)

def bestOf (book : OrderBook maxOrders maxPriceLevels) : Side → Option PriceLevel
  | .Buy => book.bestBid
  | .Sell => book.bestAsk

/-- The levels of a side, best first. -/
def readLevels (book : OrderBook maxOrders maxPriceLevels) (side : Side) : Option (List PriceLevel) :=
  levelsFrom book (maxPriceLevels.size + 1) (bestOf book side)

/-- The handles of a side's orders, best first. -/
def readHandles (book : OrderBook maxOrders maxPriceLevels) (side : Side) : Option (List NodeIndex) := do
  let levels ← readLevels book side
  let queues ← levels.mapM (fun level => handlesFrom book (maxOrders.size + 1) (levelHead level))
  return queues.flatten

/-- The best-first walk of a side. -/
def abs (book : OrderBook maxOrders maxPriceLevels) (side : Side) : Option (List Entry) := do
  return (← readHandles book side).map (entryAt book)

section
variable {book : OrderBook maxOrders maxPriceLevels} {L : Layout}

theorem handlesFrom_eq {left : NodeIndex} {nodes : List NodeIndex}
    (segment : Segment (nextOf book) (prevOf book) left kNullNode nodes) (noNull : kNullNode ∉ nodes) {bound : Nat}
    (enough : nodes.length < bound) : handlesFrom book bound (front kNullNode nodes) = some nodes := by
  induction nodes generalizing left bound with
  | nil =>
    obtain ⟨bound,rfl⟩ := Nat.exists_eq_succ_of_ne_zero (Nat.ne_zero_of_lt enough)
    simp [handlesFrom]
  | cons node rest ih =>
    obtain ⟨bound,rfl⟩ := Nat.exists_eq_succ_of_ne_zero (Nat.ne_zero_of_lt enough)
    obtain ⟨next,_,tail⟩ := segment
    simp only [List.mem_cons,not_or] at noNull
    rw [List.length_cons] at enough
    have later := ih tail noNull.2 (Nat.lt_of_succ_lt_succ enough)
    rw [← next,nextOf] at later
    simp [handlesFrom,Ne.symm noNull.1,later]

theorem bestOf_eq (book : OrderBook maxOrders maxPriceLevels) (s : Side) : bestOf book s = pointer book (book.sideHead s) := by
  cases s <;> rfl

theorem levelsFrom_eq {left : NodeIndex} {levels : List NodeIndex}
    (segment : Segment (nextLevelOf book) (prevLevelOf book) left kNullNode levels) (noNull : kNullNode ∉ levels)
    {bound : Nat} (enough : levels.length < bound) :
    levelsFrom book bound (pointer book (front kNullNode levels)) = some (levels.map book.levelAt) := by
  induction levels generalizing left bound with
  | nil =>
    obtain ⟨bound,rfl⟩ := Nat.exists_eq_succ_of_ne_zero (Nat.ne_zero_of_lt enough)
    simp [levelsFrom,pointer]
  | cons level rest ih =>
    obtain ⟨bound,rfl⟩ := Nat.exists_eq_succ_of_ne_zero (Nat.ne_zero_of_lt enough)
    obtain ⟨next,_,tail⟩ := segment
    simp only [List.mem_cons,not_or] at noNull
    rw [List.length_cons] at enough
    have later := ih tail noNull.2 (Nat.lt_of_succ_lt_succ enough)
    have after : book.levelAfter (book.levelAt level) = pointer book (front kNullNode rest) := by
      rw [levelAfter_eq,next]
    have proper : pointer book (front kNullNode (level :: rest)) = some (book.levelAt level) := by
      simp [pointer,Ne.symm noNull.1]
    rw [proper,levelsFrom,after,later]
    rfl

theorem readLevels_eq (kept : Kept book L) (s : Side) :
    readLevels book s = some ((L s).map (fun e => book.levelAt e.1)) := by
  have ok := kept.shaped.sides s
  have short : ((L s).map Prod.fst).length < maxPriceLevels.size + 1 := by
    rw [List.length_map]
    exact Nat.lt_succ_of_le (side_length_le kept.levelPool s)
  rw [readLevels,bestOf_eq,ok.head,levelsFrom_eq ok.linked.segment ok.linked.noNil short,List.map_map]
  rfl

/-- The reading loops end, with the handles of the layout. -/
theorem readHandles_eq (kept : Kept book L) (s : Side) : readHandles book s = some (queue L s) := by
  have each : ∀ es : List (NodeIndex × List NodeIndex), (∀ e ∈ es, e ∈ L s) →
      (es.map (fun e => book.levelAt e.1)).mapM (fun level => handlesFrom book (maxOrders.size + 1) (levelHead level)) =
        some (es.map Prod.snd) := by
    intro es inside
    induction es with
    | nil => rfl
    | cons e rest ih =>
      have ok := kept.shaped.level s e (inside e List.mem_cons_self)
      have short : e.2.length < maxOrders.size + 1 :=
        Nat.lt_succ_of_le (level_length_le kept.orderPool (inside e List.mem_cons_self))
      have here : handlesFrom book (maxOrders.size + 1) (levelHead (book.levelAt e.1)) = some e.2 := by
        rw [levelHead,ok.head]
        exact handlesFrom_eq ok.linked.segment ok.linked.noNil short
      have later := ih (fun f m => inside f (List.mem_cons_of_mem e m))
      simp only [List.map_cons,List.mapM_cons,here,later]
      rfl
  simp [readHandles,readLevels_eq kept s,each (L s) (fun _ m => m),queue,List.flatMap_def]

theorem abs_eq (kept : Kept book L) (s : Side) : abs book s = some ((queue L s).map (entryAt book)) := by
  simp [abs,readHandles_eq kept s]
end

/-! ### Books in use -/

/-- The books that any calls reach. A handle is given to `remove_order` only while its
    order rests; any quantity may be written through `order_at`. -/
inductive Used : OrderBook maxOrders maxPriceLevels → Prop
  | new : Used OrderBook.new
  | insert {book book' : OrderBook maxOrders maxPriceLevels} {orderId : UInt64} {side : Side} {priceTicks seq : UInt64}
      {qty : UInt32} {done : Bool} (used : Used book)
      (ran : book.insertOrder orderId side priceTicks seq qty = some (done,book')) : Used book'
  | remove {book book' : OrderBook maxOrders maxPriceLevels} {node : NodeIndex} {side : Side} {handles : List NodeIndex}
      (used : Used book) (read : readHandles book side = some handles) (live : node ∈ handles)
      (ran : book.removeOrder node = some book') : Used book'
  | clear {book : OrderBook maxOrders maxPriceLevels} (used : Used book) : Used book.clear
  | write {book : OrderBook maxOrders maxPriceLevels} (used : Used book) (node : NodeIndex) (qty : UInt32) :
      Used (book.setRemainingQty node qty)

theorem Used.good {book : OrderBook maxOrders maxPriceLevels} (used : Used book) : Good book := by
  induction used with
  | new => exact Kept.good kept_new
  | @insert book book' orderId side priceTicks seq qty done _ ran good =>
    rcases insertOrder_cases good ⟨orderId,seq,priceTicks,qty,side⟩ with ⟨_,same⟩ | ⟨_,after,L',node,inserted,placed⟩
    · rw [ran] at same
      obtain ⟨_,rfl⟩ := Prod.mk.inj (Option.some.inj same)
      exact good
    · rw [ran] at inserted
      obtain ⟨_,rfl⟩ := Prod.mk.inj (Option.some.inj inserted)
      exact placed.kept.good
  | remove _ read live ran good =>
    rw [readHandles_eq good] at read
    obtain rfl := Option.some.inj read
    obtain ⟨after,L',removed,taken⟩ := removeOrder_taken good live
    rw [ran] at removed
    obtain rfl := Option.some.inj removed
    exact taken.kept.good
  | clear _ _ => exact (kept_clear _).good
  | write _ node qty good => exact (Kept.setRemainingQty good node qty).good

/-! ### The operations on lists -/

/-- `insert_order` has no slot for the order, or none for the level that it needs. -/
def Exhausted (book : OrderBook maxOrders maxPriceLevels) (levels : List PriceLevel) (price : UInt64) : Prop :=
  book.orders.full = true ∨ ((∀ level ∈ levels, level.priceTicks ≠ price) ∧ book.levels.full = true)

section
variable {book book' : OrderBook maxOrders maxPriceLevels} {L L' : Layout} {node : NodeIndex}

theorem exhausted_iff (kept : Kept book L) (side : Side) (price : UInt64) :
    Exhausted book ((L side).map (fun e => book.levelAt e.1)) price ↔ Refused book L side price := by
  have missing : (∀ level ∈ (L side).map (fun e => book.levelAt e.1), level.priceTicks ≠ price) ↔
      ¬ HasLevel book L side price := by
    simp only [List.forall_mem_map,HasLevel,priceAt,not_exists,not_and,ne_eq]
  rw [Exhausted,Refused,kept.orderPool.full_iff,kept.levelPool.full_iff,missing]

/-- What a successful insertion does to the lists that are read. -/
structure Inserts (book : OrderBook maxOrders maxPriceLevels) (live : Side → List NodeIndex) (new : Entry)
    (book' : OrderBook maxOrders maxPriceLevels) (node : NodeIndex) (ahead behind : List NodeIndex) : Prop where
  split : live new.side = ahead ++ behind
  notAhead : ∀ h ∈ ahead, ¬ Outranks new.side new (entryAt book h)
  isAhead : ∀ h ∈ behind, Outranks new.side new (entryAt book h)
  here : abs book' new.side = some (ahead.map (entryAt book) ++ new :: behind.map (entryAt book))
  far : abs book' (opposite new.side) = abs book (opposite new.side)
  handles : readHandles book' new.side = some (ahead ++ node :: behind)
  farHandles : readHandles book' (opposite new.side) = some (live (opposite new.side))
  fresh : ∀ s, node ∉ live s
  same : ∀ s, ∀ h ∈ live s, entryAt book' h = entryAt book h

/-- What a removal does to them. -/
structure Removes (book : OrderBook maxOrders maxPriceLevels) (live : Side → List NodeIndex) (side : Side)
    (node : NodeIndex) (book' : OrderBook maxOrders maxPriceLevels) (ahead behind : List NodeIndex) : Prop where
  split : live side = ahead ++ node :: behind
  once : node ∉ ahead ++ behind
  here : abs book' side = some (ahead.map (entryAt book) ++ behind.map (entryAt book))
  far : abs book' (opposite side) = abs book (opposite side)
  handles : readHandles book' side = some (ahead ++ behind)
  farHandles : readHandles book' (opposite side) = some (live (opposite side))
  same : ∀ s, ∀ h ∈ live s, h ≠ node → entryAt book' h = entryAt book h

theorem mem_slots_of_queue {s : Side} {h : NodeIndex} (inside : h ∈ queue L s) : h ∈ orderSlots L :=
  (orderSlots_perm L s).mem_iff.mpr (List.mem_append_left _ inside)

theorem Placed.inserts {new : Entry} (kept : Kept book L) (placed : Placed book L new book' L' node) :
    ∃ ahead behind, Inserts book (queue L) new book' node ahead behind := by
  obtain ⟨ahead,behind,old,after,notAhead,isAhead⟩ := placed.place
  have fresh : ∀ s, node ∉ queue L s := fun s inside => placed.fresh (mem_slots_of_queue inside)
  have same : ∀ s, ∀ h ∈ queue L s, entryAt book' h = entryAt book h := by
    intro s h inside
    apply placed.others
    rintro rfl
    exact fresh s inside
  have farQueue : queue L' (opposite new.side) = queue L (opposite new.side) := by rw [queue,placed.far,queue]
  refine ⟨ahead,behind,old,notAhead,isAhead,?_,?_,?_,?_,fresh,same⟩
  · have aheadSame : ∀ h ∈ ahead, entryAt book' h = entryAt book h := by
      intro h inside
      exact same new.side h (by rw [old]; exact List.mem_append_left _ inside)
    have behindSame : ∀ h ∈ behind, entryAt book' h = entryAt book h := by
      intro h inside
      exact same new.side h (by rw [old]; exact List.mem_append_right _ inside)
    rw [abs_eq placed.kept,after,List.map_append,List.map_cons,placed.entry,List.map_congr_left aheadSame,
      List.map_congr_left behindSame]
  · rw [abs_eq placed.kept,abs_eq kept,farQueue,List.map_congr_left (same _)]
  · rw [readHandles_eq placed.kept,after]
  · rw [readHandles_eq placed.kept,farQueue]

theorem Taken.removes {side : Side} (kept : Kept book L) (taken : Taken book L side node book' L') :
    ∃ ahead behind, Removes book (queue L) side node book' ahead behind := by
  obtain ⟨ahead,behind,old,after⟩ := taken.place
  have distinct := queue_nodup kept side
  have farQueue : queue L' (opposite side) = queue L (opposite side) := by rw [queue,taken.far,queue]
  have same := List.map_congr_left (fun h (_ : h ∈ ahead ++ behind) => taken.entries h)
  refine ⟨ahead,behind,old,?_,?_,?_,?_,?_,fun _ h _ _ => taken.entries h⟩
  · rw [old,List.nodup_middle,List.nodup_cons] at distinct
    exact distinct.1
  · rw [abs_eq taken.kept,after,same,List.map_append]
  · rw [abs_eq taken.kept,abs_eq kept,farQueue,List.map_congr_left (fun h _ => taken.entries h)]
  · rw [readHandles_eq taken.kept,after]
  · rw [readHandles_eq taken.kept,farQueue]
end

/-- The operations of every book in use, on the lists that its callers read. An
    insertion is refused exactly when a pool has no room for it and then changes
    nothing; otherwise the order stands behind all that it does not outrank. A removal
    takes out its handle. A search gives the first handle, bids before asks. The other
    handles denote the orders that they did. -/
theorem book_refines_lists {book : OrderBook maxOrders maxPriceLevels} (used : Used book) :
    ∃ (levels : Side → List PriceLevel) (live : Side → List NodeIndex),
      (∀ s, readLevels book s = some (levels s)) ∧ (∀ s, readHandles book s = some (live s)) ∧
      (∀ s, abs book s = some ((live s).map (entryAt book))) ∧
      (∀ new : Entry,
        (Exhausted book (levels new.side) new.priceTicks ∧
          book.insertOrder new.orderId new.side new.priceTicks new.seq new.remainingQty = some (false,book)) ∨
        (¬ Exhausted book (levels new.side) new.priceTicks ∧ ∃ book' node ahead behind,
          book.insertOrder new.orderId new.side new.priceTicks new.seq new.remainingQty = some (true,book') ∧
            Inserts book live new book' node ahead behind)) ∧
      (∀ side, ∀ node ∈ live side, ∃ book' ahead behind,
        book.removeOrder node = some book' ∧ Removes book live side node book' ahead behind) ∧
      (∀ orderId, book.findOrder orderId =
        some ((((live .Buy).find? (fun h => decide ((entryAt book h).orderId = orderId))).or
          ((live .Sell).find? (fun h => decide ((entryAt book h).orderId = orderId)))).getD kNullNode)) := by
  have kept : Kept book (layoutOf book) := used.good
  refine ⟨_,_,readLevels_eq kept,readHandles_eq kept,abs_eq kept,?_,?_,?_⟩
  · intro new
    rw [exhausted_iff kept]
    rcases insertOrder_cases kept new with ⟨refused,ran⟩ | ⟨room,book',L',node,ran,placed⟩
    · exact .inl ⟨refused,ran⟩
    · obtain ⟨ahead,behind,inserts⟩ := placed.inserts kept
      exact .inr ⟨room,book',node,ahead,behind,ran,inserts⟩
  · intro side node live
    obtain ⟨book',L',ran,taken⟩ := removeOrder_taken kept live
    obtain ⟨ahead,behind,removes⟩ := taken.removes kept
    exact ⟨book',ahead,behind,ran,removes⟩
  · intro orderId
    rw [findOrder_eq kept,List.find?_append]

/-- Two bids of one price, the second one ahead of the first by its sequence number. -/
def lateBid : Option (OrderBook .four .four) := do
  let (_,book) ← OrderBook.new.insertOrder 7 .Buy 100 3 5
  let (_,book) ← book.insertOrder 8 .Buy 100 1 2
  return book

theorem book_refines_lists_late :
    ∃ book, lateBid = some book ∧ abs book .Buy = some [⟨8,1,100,2,.Buy⟩,⟨7,3,100,5,.Buy⟩] ∧
      ∃ live book' ahead behind, live .Buy = [1,0] ∧ book.removeOrder 0 = some book' ∧
        Removes book live .Buy 0 book' ahead behind := by
  obtain ⟨first,afterFirst⟩ : ∃ result, (OrderBook.new : OrderBook .four .four).insertOrder 7 .Buy 100 3 5 = some result :=
    ⟨_,rfl⟩
  obtain ⟨second,afterSecond⟩ : ∃ result, first.2.insertOrder 8 .Buy 100 1 2 = some result := by
    obtain rfl := Option.some.inj afterFirst
    exact ⟨_,rfl⟩
  have used : Used second.2 := (Used.new.insert afterFirst).insert afterSecond
  have ran : lateBid = some second.2 := by simp [lateBid,afterFirst,afterSecond]
  have reads : lateBid.bind (fun book => readHandles book .Buy) = some [1,0] := rfl
  have walks : lateBid.bind (fun book => abs book .Buy) = some [⟨8,1,100,2,.Buy⟩,⟨7,3,100,5,.Buy⟩] := rfl
  rw [ran,Option.bind_some] at reads walks
  obtain ⟨levels,live,_,handles,_,_,removing,_⟩ := book_refines_lists used
  have here : live .Buy = [1,0] := Option.some.inj ((handles .Buy).symm.trans reads)
  obtain ⟨book',ahead,behind,removed,removes⟩ := removing .Buy 0 (by simp [here])
  exact ⟨second.2,ran,walks,live,book',ahead,behind,here,removed,removes⟩

end HyperMatch.BookLayout
