import HyperMatch.Links
import HyperMatch.Wire
import Mathlib.Logic.Function.Basic

/-!
The order book of `cpp/engine/include/hme/order_book.hpp`: resting orders and
price levels in two pools of fixed capacity, each with its free list, threaded
into doubly linked lists by slot index. An array is the function of its slots;
the capacities are the template arguments, with the bounds of their
`static_assert`s. A loop over a list in a pool makes at most one step for each
slot and one more test for the end; it returns `none` when that bound is not
enough, which the invariant of the book rules out.
-/
namespace HyperMatch.OrderBook
open HyperMatch.Wire HyperMatch.Links

abbrev NodeIndex := Nat
/-- `std::numeric_limits<std::uint32_t>::max()`. -/
def kNullNode : NodeIndex := 4294967295

/-- A capacity that `FreeListPool` compiles for. -/
structure PoolCapacity where
  size : Nat
  positive : 0 < size
  addressable : size ≤ kNullNode

/-- A capacity for small examples. -/
def PoolCapacity.four : PoolCapacity := ⟨4,by decide,by decide⟩

/-! ### Pools -/

structure FreeListPool (T : Type) (capacity : PoolCapacity) where
  slots : Nat → T
  nextFree : Nat → NodeIndex
  freeHead : NodeIndex
  inUse : Nat

namespace FreeListPool
variable {T : Type} {capacity : PoolCapacity}

def size (pool : FreeListPool T capacity) : Nat := pool.inUse
def empty (pool : FreeListPool T capacity) : Bool := pool.inUse == 0
def full (pool : FreeListPool T capacity) : Bool := pool.inUse == capacity.size

/-- The reserved slot, `kNullNode` when the pool is exhausted, and the pool. -/
def acquire (pool : FreeListPool T capacity) : NodeIndex × FreeListPool T capacity :=
  if pool.freeHead = kNullNode then (kNullNode,pool)
  else (pool.freeHead,{ pool with freeHead := pool.nextFree pool.freeHead, inUse := pool.inUse + 1 })

def release (pool : FreeListPool T capacity) (index : NodeIndex) : FreeListPool T capacity :=
  { pool with
    nextFree := Function.update pool.nextFree index pool.freeHead
    freeHead := index
    inUse := pool.inUse - 1 }

/-- The contents of the slots stay. -/
def reset (pool : FreeListPool T capacity) : FreeListPool T capacity :=
  { pool with
    nextFree := fun i =>
      if i < capacity.size then (if i + 1 = capacity.size then kNullNode else i + 1) else pool.nextFree i
    freeHead := 0
    inUse := 0 }

/-- The constructor: value-initialised slots, then `reset`. -/
def new (value : T) : FreeListPool T capacity := reset ⟨fun _ => value,fun _ => 0,kNullNode,0⟩

/-- Assignment through `operator[]`. -/
def modify (pool : FreeListPool T capacity) (index : NodeIndex) (change : T → T) : FreeListPool T capacity :=
  { pool with slots := Function.update pool.slots index (change (pool.slots index)) }

end FreeListPool

/-! ### Orders and levels -/

structure RestingOrder where
  orderId : UInt64 := 0
  seq : UInt64 := 0
  priceTicks : UInt64 := 0
  remainingQty : UInt32 := 0
  side : Side := .Buy
  next : NodeIndex := kNullNode
  prev : NodeIndex := kNullNode
  deriving Repr, DecidableEq

def hasPriorityOver (aSeq aId bSeq bId : UInt64) : Bool :=
  decide (aSeq < bSeq) || (decide (aSeq = bSeq) && decide (aId < bId))

structure PriceLevel where
  priceTicks : UInt64 := 0
  orderCount : UInt32 := 0
  head : NodeIndex := kNullNode
  tail : NodeIndex := kNullNode
  nextLevel : NodeIndex := kNullNode
  prevLevel : NodeIndex := kNullNode
  deriving Repr, DecidableEq

end HyperMatch.OrderBook

namespace HyperMatch
open HyperMatch.Wire HyperMatch.Links HyperMatch.OrderBook

structure OrderBook (maxOrders maxPriceLevels : PoolCapacity) where
  orders : FreeListPool RestingOrder maxOrders
  levels : FreeListPool PriceLevel maxPriceLevels
  bidHead : NodeIndex
  askHead : NodeIndex

namespace OrderBook
variable {maxOrders maxPriceLevels : PoolCapacity}

def new : OrderBook maxOrders maxPriceLevels :=
  ⟨FreeListPool.new {},FreeListPool.new {},kNullNode,kNullNode⟩

def orderCount (book : OrderBook maxOrders maxPriceLevels) : Nat := book.orders.size
def levelCount (book : OrderBook maxOrders maxPriceLevels) : Nat := book.levels.size

def orderAt (book : OrderBook maxOrders maxPriceLevels) (node : NodeIndex) : RestingOrder := book.orders.slots node
def levelAt (book : OrderBook maxOrders maxPriceLevels) (level : NodeIndex) : PriceLevel := book.levels.slots level

def sideHead (book : OrderBook maxOrders maxPriceLevels) : Side → NodeIndex
  | .Buy => book.bidHead
  | .Sell => book.askHead
def setSideHead (book : OrderBook maxOrders maxPriceLevels) (side : Side) (level : NodeIndex) :
    OrderBook maxOrders maxPriceLevels :=
  match side with
  | .Buy => { book with bidHead := level }
  | .Sell => { book with askHead := level }

/-- The best level of each side; a null pointer is `none`. -/
def bestBid (book : OrderBook maxOrders maxPriceLevels) : Option PriceLevel :=
  if book.bidHead = kNullNode then none else some (book.levelAt book.bidHead)
def bestAsk (book : OrderBook maxOrders maxPriceLevels) : Option PriceLevel :=
  if book.askHead = kNullNode then none else some (book.levelAt book.askHead)

def frontOrder (book : OrderBook maxOrders maxPriceLevels) (side : Side) : Option RestingOrder :=
  let level := book.sideHead side
  if level = kNullNode then none
  else
    let head := (book.levelAt level).head
    if head = kNullNode then none else some (book.orderAt head)

def levelHead (level : PriceLevel) : NodeIndex := level.head
def levelAfter (book : OrderBook maxOrders maxPriceLevels) (level : PriceLevel) : Option PriceLevel :=
  if level.nextLevel = kNullNode then none else some (book.levelAt level.nextLevel)

def priceRanksFirst (side : Side) (a b : UInt64) : Bool :=
  match side with
  | .Buy => decide (a > b)
  | .Sell => decide (a < b)

/-- The level of a price on a side, or `kNullNode`. -/
def locateLevel (book : OrderBook maxOrders maxPriceLevels) (side : Side) (priceTicks : UInt64) : Option NodeIndex := do
  let found ← scan (fun level => (book.levelAt level).nextLevel) kNullNode
    (fun level =>
      if (book.levelAt level).priceTicks = priceTicks then some level
      else if priceRanksFirst side priceTicks (book.levelAt level).priceTicks then some kNullNode
      else none)
    (maxPriceLevels.size + 1) (book.sideHead side)
  return found.getD kNullNode

/-- Link a new level between two neighbours, `kNullNode` at the ends. -/
def linkLevel (book : OrderBook maxOrders maxPriceLevels) (side : Side) (priceTicks : UInt64)
    (prev cur node : NodeIndex) : OrderBook maxOrders maxPriceLevels :=
  let levels := book.levels.modify node (fun level =>
    { level with
      priceTicks := priceTicks, orderCount := 0, head := kNullNode, tail := kNullNode
      prevLevel := prev, nextLevel := cur })
  let book := { book with levels := levels }
  let book :=
    if prev = kNullNode then book.setSideHead side node
    else { book with levels := book.levels.modify prev (fun level => { level with nextLevel := node }) }
  if cur ≠ kNullNode then
    { book with levels := book.levels.modify cur (fun level => { level with prevLevel := node }) }
  else book

/-- The level of a price, created and linked in its place when there is none;
    `kNullNode` when it is needed and the level pool is full. The walk stops at
    the price or at the first level that the price ranks before. -/
def findOrCreateLevel (book : OrderBook maxOrders maxPriceLevels) (side : Side) (priceTicks : UInt64) :
    Option (NodeIndex × OrderBook maxOrders maxPriceLevels) := do
  let (prev,cur) ← seek (fun level => (book.levelAt level).nextLevel) kNullNode
    (fun level => decide ((book.levelAt level).priceTicks = priceTicks) ||
      priceRanksFirst side priceTicks (book.levelAt level).priceTicks)
    (maxPriceLevels.size + 1) kNullNode (book.sideHead side)
  if cur ≠ kNullNode ∧ (book.levelAt cur).priceTicks = priceTicks then return (cur,book)
  if book.levels.full then return (kNullNode,book)
  let (node,levels) := book.levels.acquire
  return (node,linkLevel { book with levels := levels } side priceTicks prev cur node)

/-- Unlink an empty level from its side and release it. -/
def removeLevel (book : OrderBook maxOrders maxPriceLevels) (side : Side) (level : NodeIndex) :
    OrderBook maxOrders maxPriceLevels :=
  let lv := book.levelAt level
  let book :=
    if lv.prevLevel = kNullNode then book.setSideHead side lv.nextLevel
    else { book with levels := book.levels.modify lv.prevLevel (fun l => { l with nextLevel := lv.nextLevel }) }
  let book :=
    if lv.nextLevel ≠ kNullNode then
      { book with levels := book.levels.modify lv.nextLevel (fun l => { l with prevLevel := lv.prevLevel }) }
    else book
  { book with levels := book.levels.release level }

/-- Link an order into a level's list behind `cur`, at its head when `cur` is
    `kNullNode`. -/
def linkOrder (book : OrderBook maxOrders maxPriceLevels) (level node cur : NodeIndex) :
    OrderBook maxOrders maxPriceLevels :=
  let lv := book.levelAt level
  let book :=
    if cur = kNullNode then
      let orders := book.orders.modify node (fun ro => { ro with prev := kNullNode, next := lv.head })
      let orders := if lv.head ≠ kNullNode then orders.modify lv.head (fun o => { o with prev := node }) else orders
      let levels := book.levels.modify level (fun l => { l with head := node })
      let levels := if lv.tail = kNullNode then levels.modify level (fun l => { l with tail := node }) else levels
      { book with orders := orders, levels := levels }
    else
      let after := (book.orderAt cur).next
      let orders := book.orders.modify node (fun ro => { ro with prev := cur, next := after })
      let orders := if after ≠ kNullNode then orders.modify after (fun o => { o with prev := node }) else orders
      let levels :=
        if after ≠ kNullNode then book.levels else book.levels.modify level (fun l => { l with tail := node })
      { book with orders := orders.modify cur (fun o => { o with next := node }), levels := levels }
  { book with levels := book.levels.modify level (fun l => { l with orderCount := l.orderCount + 1 }) }

/-- Insert an order into its level: back from the tail past the orders that it
    has priority over. -/
def insertIntoLevel (book : OrderBook maxOrders maxPriceLevels) (level node : NodeIndex) :
    Option (OrderBook maxOrders maxPriceLevels) := do
  let ro := book.orderAt node
  let cur ← scan (fun cur => (book.orderAt cur).prev) kNullNode
    (fun cur =>
      if hasPriorityOver ro.seq ro.orderId (book.orderAt cur).seq (book.orderAt cur).orderId then none else some cur)
    (maxOrders.size + 1) (book.levelAt level).tail
  return linkOrder book level node (cur.getD kNullNode)

/-- Unlink an order from its level's list. -/
def unlinkFromLevel (book : OrderBook maxOrders maxPriceLevels) (level node : NodeIndex) :
    OrderBook maxOrders maxPriceLevels :=
  let ro := book.orderAt node
  let book :=
    if ro.prev = kNullNode then { book with levels := book.levels.modify level (fun l => { l with head := ro.next }) }
    else { book with orders := book.orders.modify ro.prev (fun o => { o with next := ro.next }) }
  let book :=
    if ro.next = kNullNode then { book with levels := book.levels.modify level (fun l => { l with tail := ro.prev }) }
    else { book with orders := book.orders.modify ro.next (fun o => { o with prev := ro.prev }) }
  { book with levels := book.levels.modify level (fun l => { l with orderCount := l.orderCount - 1 }) }

def insertOrder (book : OrderBook maxOrders maxPriceLevels) (orderId : UInt64) (side : Side) (priceTicks seq : UInt64)
    (remainingQty : UInt32) : Option (Bool × OrderBook maxOrders maxPriceLevels) := do
  if book.orders.full then return (false,book)
  let (level,book) ← book.findOrCreateLevel side priceTicks
  if level = kNullNode then return (false,book)
  let (node,orders) := book.orders.acquire
  let orders := orders.modify node (fun _ =>
    { orderId := orderId, seq := seq, priceTicks := priceTicks, remainingQty := remainingQty, side := side,
      next := kNullNode, prev := kNullNode })
  let book ← insertIntoLevel { book with orders := orders } level node
  return (true,book)

/-- The side and price are read from the slot again after its release, which
    leaves its contents. -/
def removeOrder (book : OrderBook maxOrders maxPriceLevels) (node : NodeIndex) :
    Option (OrderBook maxOrders maxPriceLevels) := do
  let ro := book.orderAt node
  let level ← book.locateLevel ro.side ro.priceTicks
  let book := book.unlinkFromLevel level node
  let book := { book with orders := book.orders.release node }
  if (book.levelAt level).orderCount = 0 then return book.removeLevel (book.orderAt node).side level
  return book

def findInLevel (book : OrderBook maxOrders maxPriceLevels) (level : NodeIndex) (orderId : UInt64) :
    Option NodeIndex := do
  let found ← scan (fun node => (book.orderAt node).next) kNullNode
    (fun node => if (book.orderAt node).orderId = orderId then some node else none)
    (maxOrders.size + 1) (book.levelAt level).head
  return found.getD kNullNode

/-- One of the two loops of `find_order`, over the levels from a side's head.
    The inner search may itself run out of its bound: an answer `none` of a
    level stops the loop. -/
def findOnSide (book : OrderBook maxOrders maxPriceLevels) (head : NodeIndex) (orderId : UInt64) :
    Option (Option NodeIndex) := do
  let found ← scan (fun level => (book.levelAt level).nextLevel) kNullNode
    (fun level =>
      match book.findInLevel level orderId with
      | some node => if node = kNullNode then none else some (some node)
      | none => some none)
    (maxPriceLevels.size + 1) head
  match found with
  | none => return none
  | some none => none
  | some (some node) => return some node

def findOrder (book : OrderBook maxOrders maxPriceLevels) (orderId : UInt64) : Option NodeIndex := do
  match ← book.findOnSide book.bidHead orderId with
  | some node => return node
  | none =>
    match ← book.findOnSide book.askHead orderId with
    | some node => return node
    | none => return kNullNode

def clear (book : OrderBook maxOrders maxPriceLevels) : OrderBook maxOrders maxPriceLevels :=
  { orders := book.orders.reset, levels := book.levels.reset, bidHead := kNullNode, askHead := kNullNode }

/-- Assignment through `order_at(node).remaining_qty`. -/
def setRemainingQty (book : OrderBook maxOrders maxPriceLevels) (node : NodeIndex) (qty : UInt32) :
    OrderBook maxOrders maxPriceLevels :=
  { book with orders := book.orders.modify node (fun o => { o with remainingQty := qty }) }

end OrderBook
end HyperMatch
