import Mathlib.Data.Finset.Sort
import HyperMatch.Projection

/-!
Whole lives of the projection in `gateway-server/src/book.rs`, and the snapshots that it
gives out. After any calls the levels of a side are the totals of the orders that are
tracked there, nothing is ever subtracted from less, and a snapshot lists the best
levels first.
-/
namespace HyperMatch.Projection
open HyperMatch.Wire

/-! ### Snapshots -/

structure BookLevel where
  price : Float
  quantity : UInt64
  orders : UInt32

structure BookSnapshot where
  bids : List BookLevel
  asks : List BookLevel
  sequence : UInt64

def ticksToPrice (priceTicks : UInt64) : Float := priceTicks.toFloat / 100.0

/-- `BTreeMap::iter`: the entries, by increasing price. -/
def iter (levels : Levels) : List (UInt64 × Level) :=
  (levels.keys.sort (· ≤ ·)).filterMap (fun priceTicks => (levels.lookup priceTicks).map (fun level => (priceTicks,level)))

def bookLevel (entry : UInt64 × Level) : BookLevel := ⟨ticksToPrice entry.1,entry.2.quantity,entry.2.orders⟩

def OrderBook.snapshot (book : OrderBook) (depth : Nat) : BookSnapshot where
  bids := ((iter book.bids).reverse.take depth).map bookLevel
  asks := ((iter book.asks).take depth).map bookLevel
  sequence := book.sequence

/-! ### Calls -/

inductive Call where
  | insertResting (orderId : UInt64) (side : Side) (priceTicks : UInt64) (remaining : UInt32)
  | applyTrade (restingId : UInt64) (quantity : UInt32)
  | remove (orderId : UInt64)
  deriving Repr, DecidableEq

def OrderBook.call (book : OrderBook) : Call → OrderBook
  | .insertResting orderId side priceTicks remaining => book.insertResting orderId side priceTicks remaining
  | .applyTrade restingId quantity => book.applyTrade restingId quantity
  | .remove orderId => book.remove orderId

/-- The order that a call takes something from, how much it takes, and whether nothing
    is left of the order. -/
def OrderBook.takes (book : OrderBook) : Call → Option (RestingOrder × UInt32 × Bool)
  | .insertResting orderId _ _ remaining =>
    if remaining = 0 then none else (book.orders.lookup orderId).map (fun order => (order,order.remaining,true))
  | .applyTrade restingId quantity =>
    (book.orders.lookup restingId).map (fun order =>
      (order,min quantity order.remaining,decide (order.remaining - min quantity order.remaining = 0)))
  | .remove orderId => (book.orders.lookup orderId).map (fun order => (order,order.remaining,true))

/-- The books after any calls, as long as the orders at a price can be counted. -/
inductive Kept : OrderBook → Prop
  | new : Kept {}
  | call {book : OrderBook} (kept : Kept book) (c : Call) (few : Few (book.call c).orders) : Kept (book.call c)

section
variable {book : OrderBook}

theorem few_new : Few ({} : OrderBook).orders := by
  intro side priceTicks
  exact (by decide : 0 < 2^32)

theorem Kept.few (kept : Kept book) : Few book.orders := by
  cases kept with
  | new => exact few_new
  | call kept c few => exact few

theorem Kept.consistent (kept : Kept book) : Consistent book := by
  induction kept with
  | new => exact consistent_new
  | call kept c few ih =>
    cases c with
    | insertResting orderId side priceTicks remaining => exact ih.insertResting kept.few orderId side priceTicks remaining
    | applyTrade restingId quantity => exact ih.applyTrade kept.few restingId quantity
    | remove orderId => exact ih.remove kept.few orderId

/-! ### Totals in numbers -/

theorem iter_prices (levels : Levels) : (iter levels).map Prod.fst = levels.keys.sort (· ≤ ·) := by
  have every : ∀ priceTicks ∈ levels.keys.sort (· ≤ ·), ∃ level, levels.lookup priceTicks = some level := by
    intro priceTicks inside
    rw [Finset.mem_sort,Finmap.mem_keys] at inside
    exact Option.isSome_iff_exists.mp (Finmap.lookup_isSome.mpr inside)
  rw [iter,List.map_filterMap]
  generalize levels.keys.sort (· ≤ ·) = prices at every
  induction prices with
  | nil => rfl
  | cons priceTicks prices ih =>
    obtain ⟨level,found⟩ := every priceTicks List.mem_cons_self
    rw [List.filterMap_cons,ih (fun p inside => every p (List.mem_cons_of_mem _ inside)),found]
    rfl

theorem iter_entry {levels : Levels} {entry : UInt64 × Level} (inside : entry ∈ iter levels) :
    levels.lookup entry.1 = some entry.2 := by
  rw [iter,List.mem_filterMap] at inside
  obtain ⟨priceTicks,_,shown⟩ := inside
  obtain ⟨level,found,same⟩ := Option.map_eq_some_iff.mp shown
  cases same
  exact found

/-- The prices of a side with orders, lowest first. -/
def OrderBook.prices (book : OrderBook) (side : Side) : List UInt64 := (book.levels side).keys.sort (· ≤ ·)

theorem prices_ascend (book : OrderBook) (side : Side) : (book.prices side).Pairwise (· < ·) := by
  have sorted : ((book.levels side).keys.sort (· ≤ ·)).Pairwise (· ≤ ·) := Finset.pairwise_sort _ _
  refine (sorted.and (Finset.sort_nodup _ _)).imp ?_
  rintro a b ⟨less,different⟩
  exact UInt64.lt_of_le_of_ne less different

theorem mem_prices {side : Side} {priceTicks : UInt64} :
    priceTicks ∈ book.prices side ↔ ((book.levels side).lookup priceTicks).isSome = true := by
  rw [OrderBook.prices,Finset.mem_sort,Finmap.mem_keys,Finmap.lookup_isSome]

/-- A level as its orders make it. -/
def OrderBook.total (book : OrderBook) (side : Side) (priceTicks : UInt64) : BookLevel :=
  ⟨ticksToPrice priceTicks,UInt64.ofNat (quantityOf (atPrice book.orders side priceTicks)),
    UInt32.ofNat (atPrice book.orders side priceTicks).card⟩

/-- The levels of a side are shown as the totals of their orders. -/
theorem Consistent.iter_totals (consistent : Consistent book) (side : Side) :
    (iter (book.levels side)).map bookLevel = (book.prices side).map (book.total side) := by
  have each : ∀ entry ∈ iter (book.levels side), bookLevel entry = book.total side entry.1 := by
    rintro ⟨priceTicks,level⟩ inside
    have found : (book.levels side).lookup priceTicks = some level := iter_entry inside
    rw [consistent.tallied,tally] at found
    split_ifs at found
    obtain rfl := Option.some.inj found
    rfl
  rw [List.map_congr_left each,OrderBook.prices,← iter_prices,List.map_map]
  rfl

theorem Consistent.snapshot_totals (consistent : Consistent book) (depth : Nat) :
    book.snapshot depth =
      ⟨((book.prices .Buy).reverse.take depth).map (book.total .Buy),((book.prices .Sell).take depth).map (book.total .Sell),
        book.sequence⟩ := by
  have bids := consistent.iter_totals .Buy
  have asks := consistent.iter_totals .Sell
  rw [OrderBook.levels.eq_def] at bids asks
  rw [OrderBook.snapshot,List.map_take,List.map_take,List.map_take,List.map_take,List.map_reverse,List.map_reverse,bids,asks]

/-- An order that is sent again at another price, an unknown order, and a trade larger
    than what is left. -/
def mixed : List Call :=
  [.insertResting 1 .Buy 500 10,.insertResting 2 .Buy 400 3,.insertResting 1 .Buy 450 7,.remove 9,.applyTrade 2 8]

end

end HyperMatch.Projection
