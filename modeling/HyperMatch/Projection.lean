import HyperMatch.Wire
import Mathlib.Data.Finmap
import Mathlib.Algebra.BigOperators.Group.Multiset.Basic
import Mathlib.Data.UInt

/-!
The projection of the book in `gateway-server/src/book.rs`: the resting orders that
the gateway knows of, and their totals at each price. Hash maps and ordered maps are
finite maps. The totals match the orders after every operation (`Consistent`), as
long as no price holds more than a 32-bit count of orders.
-/
namespace HyperMatch.Projection
open HyperMatch.Wire

structure RestingOrder where
  side : Side
  priceTicks : UInt64
  remaining : UInt32
  deriving Repr, DecidableEq

structure Level where
  quantity : UInt64 := 0
  orders : UInt32 := 0
  deriving Repr, DecidableEq

abbrev Orders := Finmap (fun _ : UInt64 => RestingOrder)
abbrev Levels := Finmap (fun _ : UInt64 => Level)

structure OrderBook where
  orders : Orders := ∅
  bids : Levels := ∅
  asks : Levels := ∅
  sequence : UInt64 := 0

/-- `u64::saturating_sub` and `u32::saturating_sub`. -/
def saturatingSub64 (a b : UInt64) : UInt64 := if b ≤ a then a - b else 0
def saturatingSub32 (a b : UInt32) : UInt32 := if b ≤ a then a - b else 0

/-- One more order at a price (`entry(price_ticks).or_default()`). -/
def raise (levels : Levels) (priceTicks : UInt64) (remaining : UInt32) : Levels :=
  let level := (levels.lookup priceTicks).getD {}
  levels.insert priceTicks ⟨level.quantity + remaining.toUInt64,level.orders + 1⟩

/-- Less quantity at a price, and one order less if it is emptied. -/
def lower (levels : Levels) (priceTicks : UInt64) (decrement : UInt32) (emptied : Bool) : Levels :=
  match levels.lookup priceTicks with
  | none => levels
  | some level =>
    let quantity := saturatingSub64 level.quantity decrement.toUInt64
    let orders := if emptied then saturatingSub32 level.orders 1 else level.orders
    if orders = 0 ∨ quantity = 0 then levels.erase priceTicks else levels.insert priceTicks ⟨quantity,orders⟩

namespace OrderBook

def levels (book : OrderBook) : Side → Levels
  | .Buy => book.bids
  | .Sell => book.asks

/-- `levels_mut`. -/
def levelsMut (book : OrderBook) (side : Side) (change : Levels → Levels) : OrderBook :=
  match side with
  | .Buy => { book with bids := change book.bids }
  | .Sell => { book with asks := change book.asks }

def remove (book : OrderBook) (orderId : UInt64) : OrderBook :=
  match book.orders.lookup orderId with
  | none => book
  | some order =>
    let book := { book with orders := book.orders.erase orderId }
    let book := book.levelsMut order.side (fun levels => lower levels order.priceTicks order.remaining true)
    { book with sequence := book.sequence + 1 }

def insertResting (book : OrderBook) (orderId : UInt64) (side : Side) (priceTicks : UInt64) (remaining : UInt32) : OrderBook :=
  if remaining = 0 then book
  else
    let book := if (book.orders.lookup orderId).isSome then book.remove orderId else book
    let book := { book with orders := book.orders.insert orderId ⟨side,priceTicks,remaining⟩ }
    let book := book.levelsMut side (fun levels => raise levels priceTicks remaining)
    { book with sequence := book.sequence + 1 }

def applyTrade (book : OrderBook) (restingId : UInt64) (quantity : UInt32) : OrderBook :=
  match book.orders.lookup restingId with
  | none => book
  | some order =>
    let decrement := min quantity order.remaining
    let remaining := order.remaining - decrement
    let emptied := decide (remaining = 0)
    let book := { book with orders := book.orders.insert restingId { order with remaining := remaining } }
    let book := book.levelsMut order.side (fun levels => lower levels order.priceTicks decrement emptied)
    let book := if emptied then { book with orders := book.orders.erase restingId } else book
    { book with sequence := book.sequence + 1 }

@[simp] theorem levelsMut_orders (book : OrderBook) (side : Side) (change : Levels → Levels) :
    (book.levelsMut side change).orders = book.orders := by cases side <;> rfl

theorem levelsMut_levels (book : OrderBook) (side s : Side) (change : Levels → Levels) :
    (book.levelsMut side change).levels s = if s = side then change (book.levels s) else book.levels s := by
  cases side <;> cases s <;> rfl

end OrderBook

/-! ### Totals -/

/-- The orders of a side at a price. -/
def atPrice (orders : Orders) (side : Side) (priceTicks : UInt64) : Multiset RestingOrder :=
  (orders.entries.map Sigma.snd).filter (fun o => o.side = side ∧ o.priceTicks = priceTicks)

/-- The level that these orders make. -/
def tally (here : Multiset RestingOrder) : Option Level :=
  if here = 0 then none
  else some ⟨UInt64.ofNat (here.map (fun o => o.remaining.toNat)).sum,UInt32.ofNat here.card⟩

/-- Every tracked order has something left, and the levels are those of the orders. -/
structure Consistent (book : OrderBook) : Prop where
  positive : ∀ id order, book.orders.lookup id = some order → 0 < order.remaining
  tallied : ∀ side priceTicks, (book.levels side).lookup priceTicks = tally (atPrice book.orders side priceTicks)

theorem consistent_new : Consistent {} := by
  refine ⟨?_,?_⟩
  · intro id order found
    cases found
  · intro side priceTicks
    cases side <;> rfl

/-- What is found after an insertion: the new value under its key, an old one elsewhere. -/
theorem lookup_insert_some {κ β : Type} [DecidableEq κ] {map : Finmap (fun _ : κ => β)} {key id : κ} {value entry : β}
    (found : (map.insert key value).lookup id = some entry) :
    (id = key ∧ entry = value) ∨ (id ≠ key ∧ map.lookup id = some entry) := by
  by_cases same : id = key
  · subst same
    rw [Finmap.lookup_insert] at found
    exact .inl ⟨rfl,(Option.some.inj found).symm⟩
  · rw [Finmap.lookup_insert_of_ne _ same] at found
    exact .inr ⟨same,found⟩

theorem entries_insert {orders : Orders} {id : UInt64} {order : RestingOrder} (missing : orders.lookup id = none) :
    (orders.insert id order).entries = ⟨id,order⟩ ::ₘ orders.entries :=
  Finmap.entries_insert_of_notMem (Finmap.lookup_eq_none.mp missing)

/-- A tracked order and the others. -/
theorem entries_erase {orders : Orders} {id : UInt64} {order : RestingOrder} (found : orders.lookup id = some order) :
    orders.entries = ⟨id,order⟩ ::ₘ (orders.erase id).entries := by
  have again : (orders.erase id).insert id order = orders := by
    refine Finmap.ext_lookup ?_
    intro a
    by_cases same : a = id
    · subst same
      rw [Finmap.lookup_insert,found]
    · rw [Finmap.lookup_insert_of_ne _ same,Finmap.lookup_erase_ne same]
  rw [← entries_insert (Finmap.lookup_erase id orders),again]

theorem atPrice_cons {orders rest : Orders} {id : UInt64} {order : RestingOrder}
    (split : orders.entries = ⟨id,order⟩ ::ₘ rest.entries) (side : Side) (priceTicks : UInt64) :
    atPrice orders side priceTicks =
      if order.side = side ∧ order.priceTicks = priceTicks then order ::ₘ atPrice rest side priceTicks
      else atPrice rest side priceTicks := by
  rw [atPrice,split,Multiset.map_cons]
  split_ifs with here
  · rw [Multiset.filter_cons_of_pos (p := fun o : RestingOrder => o.side = side ∧ o.priceTicks = priceTicks) _ here]
    rfl
  · rw [Multiset.filter_cons_of_neg (p := fun o : RestingOrder => o.side = side ∧ o.priceTicks = priceTicks) _ here]
    rfl

/-! ### Levels -/

/-- The quantity of orders. -/
def quantityOf (here : Multiset RestingOrder) : Nat := (here.map (fun o => o.remaining.toNat)).sum

theorem quantityOf_cons (order : RestingOrder) (here : Multiset RestingOrder) :
    quantityOf (order ::ₘ here) = order.remaining.toNat + quantityOf here := by
  rw [quantityOf,Multiset.map_cons,Multiset.sum_cons]
  rfl

theorem quantityOf_le (here : Multiset RestingOrder) : quantityOf here ≤ here.card * (2^32 - 1) := by
  induction here using Multiset.induction_on with
  | empty => exact Nat.zero_le _
  | cons order here ih =>
    have bound := UInt32.toNat_lt order.remaining
    rw [quantityOf_cons,Multiset.card_cons,Nat.add_mul]
    omega

/-- Fewer orders than a count of 32 bits can hold have a quantity that 64 bits hold. -/
theorem quantityOf_lt {here : Multiset RestingOrder} (few : here.card < 2^32) : quantityOf here < 2^64 := by
  have most := quantityOf_le here
  have product : here.card * (2^32 - 1) ≤ (2^32 - 1) * (2^32 - 1) := Nat.mul_le_mul_right _ (by omega)
  have number : (2^32 - 1) * (2^32 - 1) < 2^64 := by decide
  omega

theorem quantityOf_eq_zero {here : Multiset RestingOrder} (positive : ∀ o ∈ here, 0 < o.remaining) :
    quantityOf here = 0 ↔ here = 0 := by
  constructor
  · intro none
    by_contra some
    obtain ⟨o,inside⟩ := Multiset.exists_mem_of_ne_zero some
    obtain ⟨rest,rfl⟩ := Multiset.exists_cons_of_mem inside
    have more := positive o inside
    rw [UInt32.lt_iff_toNat_lt,UInt32.toNat_zero] at more
    rw [quantityOf_cons] at none
    omega
  · rintro rfl
    rfl

theorem tally_cons (order : RestingOrder) (here : Multiset RestingOrder) :
    tally (order ::ₘ here) =
      some ⟨UInt64.ofNat (order.remaining.toNat + quantityOf here),UInt32.ofNat (here.card + 1)⟩ := by
  rw [tally,if_neg (Multiset.cons_ne_zero),Multiset.card_cons,← quantityOf_cons]
  rfl

theorem lookup_raise (levels : Levels) {priceTicks : UInt64} {remaining : UInt32} (p : UInt64) :
    (raise levels priceTicks remaining).lookup p =
      if p = priceTicks then
        some ⟨((levels.lookup priceTicks).getD {}).quantity + remaining.toUInt64,((levels.lookup priceTicks).getD {}).orders + 1⟩
      else levels.lookup p := by
  rw [raise]
  split_ifs with same
  · subst same
    rw [Finmap.lookup_insert]
  · rw [Finmap.lookup_insert_of_ne _ same]

/-- One order more, in numbers. -/
theorem tally_raise {here : Multiset RestingOrder} {order : RestingOrder} :
    (some ⟨((tally here).getD {}).quantity + order.remaining.toUInt64,((tally here).getD {}).orders + 1⟩ : Option Level) =
      tally (order ::ₘ here) := by
  rw [tally_cons]
  by_cases none : here = 0
  · subst none
    have one : tally 0 = none := rfl
    rw [one]
    simp [quantityOf]
  · have some_ : tally here = some ⟨UInt64.ofNat (quantityOf here),UInt32.ofNat here.card⟩ := by
      rw [tally,if_neg none]
      rfl
    rw [some_]
    simp only [Option.getD_some,UInt64.ofNat_add,UInt32.ofNat_add]
    rw [UInt64.add_comm]
    simp

/-- A level after a reduction. -/
def lowered (level : Option Level) (decrement : UInt32) (emptied : Bool) : Option Level :=
  match level with
  | none => none
  | some level =>
    if (if emptied then saturatingSub32 level.orders 1 else level.orders) = 0 ∨
        saturatingSub64 level.quantity decrement.toUInt64 = 0 then none
    else some ⟨saturatingSub64 level.quantity decrement.toUInt64,
      if emptied then saturatingSub32 level.orders 1 else level.orders⟩

theorem lookup_lower (levels : Levels) (priceTicks : UInt64) (decrement : UInt32) (emptied : Bool) (p : UInt64) :
    (lower levels priceTicks decrement emptied).lookup p =
      if p = priceTicks then lowered (levels.lookup priceTicks) decrement emptied else levels.lookup p := by
  rw [lower]
  cases found : levels.lookup priceTicks with
  | none =>
    simp only [lowered]
    split_ifs with same
    · rw [same,found]
    · rfl
  | some level =>
    simp only [lowered]
    by_cases gone : (if emptied then saturatingSub32 level.orders 1 else level.orders) = 0 ∨
        saturatingSub64 level.quantity decrement.toUInt64 = 0
    · rw [if_pos gone,if_pos gone]
      split_ifs with same
      · rw [same,Finmap.lookup_erase]
      · rw [Finmap.lookup_erase_ne same]
    · rw [if_neg gone,if_neg gone]
      by_cases same : p = priceTicks
      · rw [if_pos same,same,Finmap.lookup_insert]
      · rw [if_neg same,Finmap.lookup_insert_of_ne _ same]

theorem saturatingSub64_ofNat {a b : Nat} (below : a < 2^64) (less : b ≤ a) :
    saturatingSub64 (UInt64.ofNat a) (UInt64.ofNat b) = UInt64.ofNat (a - b) := by
  have first : (UInt64.ofNat a).toNat = a := UInt64.toNat_ofNat_of_lt' below
  have second : (UInt64.ofNat b).toNat = b := UInt64.toNat_ofNat_of_lt' (Nat.lt_of_le_of_lt less below)
  have third : (UInt64.ofNat (a - b)).toNat = a - b :=
    UInt64.toNat_ofNat_of_lt' (Nat.lt_of_le_of_lt (Nat.sub_le a b) below)
  have ordered : UInt64.ofNat b ≤ UInt64.ofNat a := by
    rw [UInt64.le_iff_toNat_le,first,second]
    exact less
  rw [saturatingSub64,if_pos ordered,← UInt64.toNat_inj,UInt64.toNat_sub_of_le _ _ ordered,first,second,third]

theorem saturatingSub32_succ {n : Nat} (below : n + 1 < 2^32) : saturatingSub32 (UInt32.ofNat (n + 1)) 1 = UInt32.ofNat n := by
  have one : (1 : UInt32).toNat = 1 := rfl
  have first : (UInt32.ofNat (n + 1)).toNat = n + 1 := UInt32.toNat_ofNat_of_lt' below
  have second : (UInt32.ofNat n).toNat = n := UInt32.toNat_ofNat_of_lt' (Nat.lt_of_succ_lt below)
  have least : (1 : UInt32) ≤ UInt32.ofNat (n + 1) := by
    rw [UInt32.le_iff_toNat_le,first,one]
    omega
  rw [saturatingSub32,if_pos least,← UInt32.toNat_inj,UInt32.toNat_sub_of_le _ _ least,first,second,one]
  omega

theorem toUInt64_eq_ofNat (q : UInt32) : q.toUInt64 = UInt64.ofNat q.toNat := by
  rw [← UInt64.toNat_inj,UInt32.toNat_toUInt64,UInt64.toNat_ofNat_of_lt' (Nat.lt_trans (UInt32.toNat_lt q) (by decide))]

theorem ofNat32_eq_zero {n : Nat} (below : n < 2^32) : UInt32.ofNat n = 0 ↔ n = 0 := by
  rw [← UInt32.toNat_inj,UInt32.toNat_ofNat_of_lt' below,UInt32.toNat_zero]
theorem ofNat64_eq_zero {n : Nat} (below : n < 2^64) : UInt64.ofNat n = 0 ↔ n = 0 := by
  rw [← UInt64.toNat_inj,UInt64.toNat_ofNat_of_lt' below,UInt64.toNat_zero]

section
variable {here : Multiset RestingOrder} {order : RestingOrder} (few : here.card + 1 < 2^32)
include few

/-- An order leaves its level. -/
theorem lowered_emptied (positive : ∀ o ∈ here, 0 < o.remaining) :
    lowered (tally (order ::ₘ here)) order.remaining true = tally here := by
  have total : quantityOf (order ::ₘ here) < 2^64 := quantityOf_lt (by rw [Multiset.card_cons]; exact few)
  rw [quantityOf_cons] at total
  rw [tally_cons,lowered]
  simp only [if_true,toUInt64_eq_ofNat]
  rw [saturatingSub64_ofNat total (by omega),saturatingSub32_succ few,Nat.add_sub_cancel_left]
  have count : UInt32.ofNat here.card = 0 ↔ here = 0 := by rw [ofNat32_eq_zero (by omega),Multiset.card_eq_zero]
  have quantity : UInt64.ofNat (quantityOf here) = 0 ↔ here = 0 := by
    rw [ofNat64_eq_zero (by omega),quantityOf_eq_zero positive]
  rw [tally]
  by_cases none : here = 0
  · rw [if_pos (.inl (count.mpr none)),if_pos none]
  · rw [if_neg,if_neg none]
    · rfl
    · rintro (zero | zero)
      · exact none (count.mp zero)
      · exact none (quantity.mp zero)

/-- An order of a level is reduced but stays. -/
theorem lowered_reduced {decrement : UInt32} (less : decrement < order.remaining) :
    lowered (tally (order ::ₘ here)) decrement false =
      tally ({ order with remaining := order.remaining - decrement } ::ₘ here) := by
  have total : quantityOf (order ::ₘ here) < 2^64 := quantityOf_lt (by rw [Multiset.card_cons]; exact few)
  have left : (order.remaining - decrement).toNat = order.remaining.toNat - decrement.toNat :=
    UInt32.toNat_sub_of_le _ _ (UInt32.le_of_lt less)
  rw [UInt32.lt_iff_toNat_lt] at less
  rw [quantityOf_cons] at total
  rw [tally_cons,tally_cons,lowered]
  simp only [Bool.false_eq_true,if_false,toUInt64_eq_ofNat]
  rw [saturatingSub64_ofNat total (by omega),if_neg,left,
    show order.remaining.toNat + quantityOf here - decrement.toNat =
      order.remaining.toNat - decrement.toNat + quantityOf here by omega]
  rintro (zero | zero)
  · rw [ofNat32_eq_zero few] at zero
    omega
  · rw [ofNat64_eq_zero (by omega)] at zero
    omega
end

/-! ### Operations -/

section
variable {book : OrderBook} {id : UInt64} {order : RestingOrder}

theorem mem_entries {orders : Orders} {id : UInt64} {order : RestingOrder} :
    (⟨id,order⟩ : Sigma fun _ : UInt64 => RestingOrder) ∈ orders.entries ↔ orders.lookup id = some order :=
  Finmap.lookup_eq_some_iff.symm

theorem mem_atPrice {orders : Orders} {o : RestingOrder} {side : Side} {priceTicks : UInt64}
    (inside : o ∈ atPrice orders side priceTicks) : ∃ id, orders.lookup id = some o := by
  rw [atPrice,Multiset.mem_filter,Multiset.mem_map] at inside
  obtain ⟨⟨⟨id,_⟩,tracked,rfl⟩,_⟩ := inside
  exact ⟨id,mem_entries.mp tracked⟩

theorem card_atPrice_le (orders : Orders) (side : Side) (priceTicks : UInt64) :
    (atPrice orders side priceTicks).card ≤ orders.entries.card := by
  rw [atPrice]
  refine Nat.le_trans (Multiset.card_le_card (Multiset.filter_le _ _)) ?_
  rw [Multiset.card_map]

/-- Every count of orders at a price fits its 32 bits. -/
def Few (orders : Orders) : Prop := ∀ side priceTicks, (atPrice orders side priceTicks).card < 2^32

theorem few_of_card {orders : Orders} (few : orders.entries.card < 2^32) : Few orders :=
  fun side priceTicks => Nat.lt_of_le_of_lt (card_atPrice_le orders side priceTicks) few

theorem lookup_lowered (book : OrderBook) (side s : Side) (priceTicks p : UInt64) (decrement : UInt32) (emptied : Bool) :
    ((book.levelsMut side (fun levels => lower levels priceTicks decrement emptied)).levels s).lookup p =
      if s = side ∧ p = priceTicks then lowered ((book.levels s).lookup p) decrement emptied
      else (book.levels s).lookup p := by
  rw [OrderBook.levelsMut_levels]
  by_cases same : s = side
  · rw [if_pos same,lookup_lower]
    by_cases price : p = priceTicks
    · rw [if_pos price,if_pos ⟨same,price⟩,price]
    · rw [if_neg price,if_neg (fun both => price both.2)]
  · rw [if_neg same,if_neg (fun both => same both.1)]

theorem erase_missing {orders : Orders} {id : UInt64} (missing : orders.lookup id = none) : orders.erase id = orders := by
  refine Finmap.ext_lookup ?_
  intro a
  by_cases same : a = id
  · rw [same,Finmap.lookup_erase,missing]
  · rw [Finmap.lookup_erase_ne same]

theorem entries_reinsert (orders : Orders) (id : UInt64) (order : RestingOrder) :
    (orders.insert id order).entries = ⟨id,order⟩ ::ₘ (orders.erase id).entries := by
  have again : orders.insert id order = (orders.erase id).insert id order := by
    refine Finmap.ext_lookup ?_
    intro a
    by_cases same : a = id
    · subst same
      rw [Finmap.lookup_insert,Finmap.lookup_insert]
    · rw [Finmap.lookup_insert_of_ne _ same,Finmap.lookup_insert_of_ne _ same,Finmap.lookup_erase_ne same]
  rw [again,entries_insert (Finmap.lookup_erase id orders)]

/-! #### Removing -/

theorem remove_missing (missing : book.orders.lookup id = none) : book.remove id = book := by
  rw [OrderBook.remove,missing]

theorem remove_orders (book : OrderBook) (id : UInt64) : (book.remove id).orders = book.orders.erase id := by
  cases found : book.orders.lookup id with
  | none => rw [remove_missing found,erase_missing found]
  | some order => simp only [OrderBook.remove,found,OrderBook.levelsMut_orders]

theorem remove_levels (found : book.orders.lookup id = some order) (s : Side) (p : UInt64) :
    ((book.remove id).levels s).lookup p =
      if s = order.side ∧ p = order.priceTicks then lowered ((book.levels s).lookup p) order.remaining true
      else (book.levels s).lookup p := by
  have same : ((book.remove id).levels s).lookup p =
      (({ book with orders := book.orders.erase id }.levelsMut order.side
        (fun levels => lower levels order.priceTicks order.remaining true)).levels s).lookup p := by
    rw [OrderBook.remove,found]
    cases s <;> rfl
  have untouched : ({ book with orders := book.orders.erase id } : OrderBook).levels s = book.levels s := by
    cases s <;> rfl
  rw [same,lookup_lowered,untouched]

theorem Consistent.remove (consistent : Consistent book) (few : Few book.orders) (id : UInt64) :
    Consistent (book.remove id) := by
  cases found : book.orders.lookup id with
  | none =>
    rw [remove_missing found]
    exact consistent
  | some order =>
    have split := atPrice_cons (entries_erase found)
    have positive : ∀ other o, (book.orders.erase id).lookup other = some o → 0 < o.remaining := by
      intro other o tracked
      have different : other ≠ id := by
        rintro rfl
        rw [Finmap.lookup_erase] at tracked
        cases tracked
      rw [Finmap.lookup_erase_ne different] at tracked
      exact consistent.positive other o tracked
    constructor
    · rw [remove_orders]
      exact positive
    · intro s p
      rw [remove_levels found,consistent.tallied,remove_orders]
      have here := split s p
      by_cases place : order.side = s ∧ order.priceTicks = p
      · rw [if_pos place] at here
        have count := few s p
        rw [here,Multiset.card_cons] at count
        rw [if_pos ⟨place.1.symm,place.2.symm⟩,here]
        refine lowered_emptied count ?_
        intro o inside
        obtain ⟨other,tracked⟩ := mem_atPrice inside
        exact positive other o tracked
      · rw [if_neg place] at here
        rw [if_neg (fun both => place ⟨both.1.symm,both.2.symm⟩),here]

/-! #### Trading -/

theorem min_of_ge {a b : UInt32} (less : b ≤ a) : min a b = b := by
  change (if a ≤ b then a else b) = b
  split_ifs with more
  · exact UInt32.le_antisymm more less
  · rfl

theorem min_of_lt {a b : UInt32} (less : a < b) : min a b = a := if_pos (UInt32.le_of_lt less)

theorem sub_ne_zero_of_lt {a b : UInt32} (less : a < b) : b - a ≠ 0 := by
  intro none
  have numbers := congrArg UInt32.toNat none
  rw [UInt32.toNat_sub_of_le _ _ (UInt32.le_of_lt less),UInt32.toNat_zero] at numbers
  rw [UInt32.lt_iff_toNat_lt] at less
  omega

theorem applyTrade_missing (missing : book.orders.lookup id = none) (quantity : UInt32) :
    book.applyTrade id quantity = book := by
  rw [OrderBook.applyTrade,missing]

/-- A trade that takes all of an order removes it. -/
theorem applyTrade_emptied (found : book.orders.lookup id = some order) {quantity : UInt32}
    (all : order.remaining ≤ quantity) : book.applyTrade id quantity = book.remove id := by
  have least := min_of_ge all
  have cleared : ∀ o, (book.orders.insert id o).erase id = book.orders.erase id := by
    intro o
    refine Finmap.ext_lookup ?_
    intro a
    by_cases same : a = id
    · rw [same,Finmap.lookup_erase,Finmap.lookup_erase]
    · rw [Finmap.lookup_erase_ne same,Finmap.lookup_erase_ne same,Finmap.lookup_insert_of_ne _ same]
  rw [OrderBook.applyTrade,OrderBook.remove,found]
  simp only [least,UInt32.sub_self,decide_true,if_true,OrderBook.levelsMut_orders,cleared]
  cases order.side <;> rfl

/-- A trade that takes less than an order has reduces it. -/
theorem applyTrade_orders (found : book.orders.lookup id = some order) {quantity : UInt32}
    (less : quantity < order.remaining) :
    (book.applyTrade id quantity).orders =
      book.orders.insert id { order with remaining := order.remaining - quantity } := by
  have least := min_of_lt less
  have some := sub_ne_zero_of_lt less
  rw [OrderBook.applyTrade,found]
  simp only [least,some,decide_false,Bool.false_eq_true,if_false,OrderBook.levelsMut_orders]

theorem applyTrade_levels (found : book.orders.lookup id = some order) {quantity : UInt32}
    (less : quantity < order.remaining) (s : Side) (p : UInt64) :
    ((book.applyTrade id quantity).levels s).lookup p =
      if s = order.side ∧ p = order.priceTicks then lowered ((book.levels s).lookup p) quantity false
      else (book.levels s).lookup p := by
  have least := min_of_lt less
  have some := sub_ne_zero_of_lt less
  have same : ((book.applyTrade id quantity).levels s).lookup p =
      (({ book with orders := book.orders.insert id { order with remaining := order.remaining - quantity } }.levelsMut
        order.side (fun levels => lower levels order.priceTicks quantity false)).levels s).lookup p := by
    rw [OrderBook.applyTrade,found]
    simp only [least,some,decide_false,Bool.false_eq_true,if_false]
    cases s <;> rfl
  have untouched : ∀ orders, ({ book with orders := orders } : OrderBook).levels s = book.levels s := by
    intro orders
    cases s <;> rfl
  rw [same,lookup_lowered,untouched]

theorem Consistent.applyTrade (consistent : Consistent book) (few : Few book.orders) (id : UInt64) (quantity : UInt32) :
    Consistent (book.applyTrade id quantity) := by
  cases found : book.orders.lookup id with
  | none =>
    rw [applyTrade_missing found]
    exact consistent
  | some order =>
    by_cases all : order.remaining ≤ quantity
    · rw [applyTrade_emptied found all]
      exact consistent.remove few id
    · have less : quantity < order.remaining := UInt32.not_le.mp all
      have before := atPrice_cons (entries_erase found)
      have after := atPrice_cons (entries_reinsert book.orders id { order with remaining := order.remaining - quantity })
      constructor
      · intro other o tracked
        rw [applyTrade_orders found less] at tracked
        rcases lookup_insert_some tracked with ⟨rfl,rfl⟩ | ⟨_,old⟩
        · exact UInt32.pos_iff_ne_zero.mpr (sub_ne_zero_of_lt less)
        · exact consistent.positive other o old
      · intro s p
        rw [applyTrade_levels found less,consistent.tallied,applyTrade_orders found less,after s p]
        have here := before s p
        by_cases place : order.side = s ∧ order.priceTicks = p
        · rw [if_pos place] at here ⊢
          have count := few s p
          rw [here,Multiset.card_cons] at count
          rw [if_pos ⟨place.1.symm,place.2.symm⟩,here]
          exact lowered_reduced count less
        · rw [if_neg place] at here ⊢
          rw [if_neg (fun both => place ⟨both.1.symm,both.2.symm⟩),here]

/-! #### Coming to rest -/

variable {side : Side} {priceTicks : UInt64} {remaining : UInt32}

theorem insertResting_zero (book : OrderBook) (id : UInt64) (side : Side) (priceTicks : UInt64) :
    book.insertResting id side priceTicks 0 = book := if_pos rfl

/-- What was tracked under the identifier goes first. -/
theorem insertResting_eq (some : 0 < remaining) :
    book.insertResting id side priceTicks remaining =
      { { book.remove id with orders := (book.orders.erase id).insert id ⟨side,priceTicks,remaining⟩ }.levelsMut side
          (fun levels => raise levels priceTicks remaining) with sequence := (book.remove id).sequence + 1 } := by
  have nonzero : remaining ≠ 0 := UInt32.pos_iff_ne_zero.mp some
  have first : (if (book.orders.lookup id).isSome then book.remove id else book) = book.remove id := by
    cases found : book.orders.lookup id with
    | none => exact (remove_missing found).symm
    | some order => rfl
  rw [OrderBook.insertResting,if_neg nonzero,first,← remove_orders]
  cases side <;> rfl

theorem insertResting_orders (some : 0 < remaining) :
    (book.insertResting id side priceTicks remaining).orders =
      (book.orders.erase id).insert id ⟨side,priceTicks,remaining⟩ := by
  rw [insertResting_eq some,OrderBook.levelsMut_orders]

theorem Consistent.insertResting (consistent : Consistent book) (few : Few book.orders) (id : UInt64) (side : Side)
    (priceTicks : UInt64) (remaining : UInt32) : Consistent (book.insertResting id side priceTicks remaining) := by
  by_cases none : remaining = 0
  · subst none
    rw [insertResting_zero]
    exact consistent
  · have some : 0 < remaining := UInt32.pos_iff_ne_zero.mpr none
    have removed := consistent.remove few id
    have new : ((book.orders.erase id).insert id ⟨side,priceTicks,remaining⟩).entries =
        ⟨id,⟨side,priceTicks,remaining⟩⟩ ::ₘ (book.orders.erase id).entries := entries_insert (Finmap.lookup_erase id book.orders)
    have after := atPrice_cons new
    constructor
    · intro other o tracked
      rw [insertResting_orders some] at tracked
      rcases lookup_insert_some tracked with ⟨rfl,rfl⟩ | ⟨_,old⟩
      · exact some
      · rw [← remove_orders] at old
        exact removed.positive other o old
    · intro s p
      have levels : (book.insertResting id side priceTicks remaining).levels s =
          if s = side then raise ((book.remove id).levels s) priceTicks remaining else (book.remove id).levels s := by
        rw [insertResting_eq some]
        cases s <;> cases side <;> rfl
      rw [levels,insertResting_orders some,after s p]
      by_cases here : s = side
      · rw [if_pos here,lookup_raise]
        by_cases price : p = priceTicks
        · rw [if_pos price,if_pos ⟨here.symm,price.symm⟩,← tally_raise,← remove_orders,← removed.tallied,price]
        · rw [if_neg price,if_neg (fun both => price both.2.symm),removed.tallied,remove_orders]
      · rw [if_neg here,if_neg (fun both => here both.1.symm),removed.tallied,remove_orders]
end

end HyperMatch.Projection
