import HyperMatch.BookWalk

/-!
The integrity guard of `cpp/engine/include/hme/integrity_guard.hpp`: the checks
over the state of a book, which walk it through its accessors, and the guard that
takes an operation back when a check fails. On a book whose layout is kept, the
checks say what the best-first walks say.
-/
namespace HyperMatch
open HyperMatch.Wire HyperMatch.Links HyperMatch.OrderBook

inductive Invariant where
  | None
  | PriceOrdering
  | PositiveQuantity
  | QuantityConservation
  deriving Repr, DecidableEq

def invariantName : Invariant → String
  | .None => "none"
  | .PriceOrdering => "price-ordering"
  | .PositiveQuantity => "positive-quantity"
  | .QuantityConservation => "quantity-conservation"

structure IntegrityError where
  invariant : Invariant := .None
  name : String := "none"
  deriving Repr, DecidableEq

namespace IntegrityGuard
variable {maxOrders maxPriceLevels : PoolCapacity}

/-! ### The checks -/

/-- A loop of `check_price_ordering`: the levels from one on, against the one
    before. -/
def levelsOrdered (book : OrderBook maxOrders maxPriceLevels) (misplaced : UInt64 → UInt64 → Bool) :
    Nat → Option PriceLevel → Option PriceLevel → Option Bool
  | 0,_,_ => none
  | _+1,_,none => some true
  | bound+1,prev,some lvl =>
    if prev.any (fun p => misplaced lvl.priceTicks p.priceTicks) then some false
    else levelsOrdered book misplaced bound (some lvl) (book.levelAfter lvl)

def checkPriceOrdering (book : OrderBook maxOrders maxPriceLevels) : Option Bool := do
  let bids ← levelsOrdered book (fun price prev => decide (price ≥ prev)) (maxPriceLevels.size + 1) none book.bestBid
  if !bids then return false
  let asks ← levelsOrdered book (fun price prev => decide (price ≤ prev)) (maxPriceLevels.size + 1) none book.bestAsk
  if !asks then return false
  match book.bestBid,book.bestAsk with
  | some bestBid,some bestAsk => return !decide (bestBid.priceTicks ≥ bestAsk.priceTicks)
  | _,_ => return true

/-- The innermost loop of `check_positive_quantity`. -/
def ordersPositive (book : OrderBook maxOrders maxPriceLevels) (lvl : PriceLevel) : Option Bool := do
  let empty ← scan (fun node => (book.orderAt node).next) kNullNode
    (fun node => if (book.orderAt node).remainingQty = 0 then some () else none) (maxOrders.size + 1) (levelHead lvl)
  return empty.isNone

def levelsPositive (book : OrderBook maxOrders maxPriceLevels) : Nat → Option PriceLevel → Option Bool
  | 0,_ => none
  | _+1,none => some true
  | bound+1,some lvl => do
    if !(← ordersPositive book lvl) then return false
    levelsPositive book bound (book.levelAfter lvl)

def checkPositiveQuantity (book : OrderBook maxOrders maxPriceLevels) : Option Bool := do
  if !(← levelsPositive book (maxPriceLevels.size + 1) book.bestBid) then return false
  levelsPositive book (maxPriceLevels.size + 1) book.bestAsk

def checkQuantityConservation (incomingQty tradedQty restedQty : UInt64) : Bool :=
  decide (incomingQty = tradedQty + restedQty)

def findStateViolation (book : OrderBook maxOrders maxPriceLevels) : Option Invariant := do
  if !(← checkPriceOrdering book) then return .PriceOrdering
  if !(← checkPositiveQuantity book) then return .PositiveQuantity
  return .None

/-! ### The guard -/

structure OpOutcome where
  checkConservation : Bool := false
  incomingQty : UInt64 := 0
  tradedQty : UInt64 := 0
  restedQty : UInt64 := 0
  deriving Repr, DecidableEq

def OpOutcome.conserving (incoming traded rested : UInt64) : OpOutcome := ⟨true,incoming,traded,rested⟩

def evaluate (book : OrderBook maxOrders maxPriceLevels) (outcome : OpOutcome) : Option Invariant := do
  let state ← findStateViolation book
  if state ≠ .None then return state
  if outcome.checkConservation ∧
      checkQuantityConservation outcome.incomingQty outcome.tradedQty outcome.restedQty = false then
    return .QuantityConservation
  return .None

/-- `commit`: the operation's book, or the old one and the error that is emitted. -/
def commit (book : OrderBook maxOrders maxPriceLevels)
    (op : OrderBook maxOrders maxPriceLevels → Option (OpOutcome × OrderBook maxOrders maxPriceLevels)) :
    Option (Bool × List IntegrityError × OrderBook maxOrders maxPriceLevels) := do
  let (outcome,after) ← op book
  let violated ← evaluate after outcome
  if violated ≠ .None then return (false,[⟨violated,invariantName violated⟩],book)
  return (true,[],after)

end IntegrityGuard
end HyperMatch

namespace HyperMatch.BookLayout
open HyperMatch.Wire HyperMatch.Links HyperMatch.OrderBook HyperMatch.Pools HyperMatch.IntegrityGuard
set_option linter.unusedSimpArgs false

variable {maxOrders maxPriceLevels : PoolCapacity} {book : OrderBook maxOrders maxPriceLevels}

/-! ### What the checks find -/

/-- A pointer to a level, null at the sentinel. -/
def pointer (book : OrderBook maxOrders maxPriceLevels) (level : NodeIndex) : Option PriceLevel :=
  if level = kNullNode then none else some (book.levelAt level)

theorem levelAfter_eq (level : NodeIndex) : book.levelAfter (book.levelAt level) = pointer book (nextLevelOf book level) := rfl

/-- The prices of the levels from one on are in place. -/
theorem levelsOrdered_eq {misplaced : UInt64 → UInt64 → Bool} {left : NodeIndex} {levels : List NodeIndex}
    (segment : Segment (nextLevelOf book) (prevLevelOf book) left kNullNode levels) (noNil : kNullNode ∉ levels)
    (ordered : levels.Pairwise (fun a b => misplaced (priceAt book b) (priceAt book a) = false)) {bound : Nat}
    (enough : levels.length < bound) {prev : Option PriceLevel}
    (behind : ∀ p ∈ prev, ∀ a ∈ levels, misplaced (priceAt book a) p.priceTicks = false) :
    levelsOrdered book misplaced bound prev (pointer book (front kNullNode levels)) = some true := by
  induction levels generalizing left prev bound with
  | nil =>
    obtain ⟨bound,rfl⟩ := Nat.exists_eq_succ_of_ne_zero (by omega : bound ≠ 0)
    simp [pointer,levelsOrdered]
  | cons a rest ih =>
    obtain ⟨bound,rfl⟩ := Nat.exists_eq_succ_of_ne_zero (by omega : bound ≠ 0)
    obtain ⟨next,_,tail⟩ := segment
    obtain ⟨first,ordered⟩ := List.pairwise_cons.mp ordered
    rw [List.mem_cons,not_or] at noNil
    have here : ¬ prev.any (fun p => misplaced (book.levelAt a).priceTicks p.priceTicks) = true := by
      cases prev with
      | none => simp
      | some p => simpa [priceAt] using behind p rfl a List.mem_cons_self
    rw [front_cons,pointer,if_neg (Ne.symm noNil.1),levelsOrdered,if_neg here,levelAfter_eq,next]
    refine ih tail noNil.2 ordered (by simpa using enough) ?_
    rintro p ⟨⟩ b inRest
    exact first b inRest

/-- No order of the levels from one on is empty. -/
theorem levelsPositive_eq {left : NodeIndex} {levels : List (NodeIndex × List NodeIndex)}
    (segment : Segment (nextLevelOf book) (prevLevelOf book) left kNullNode (levels.map Prod.fst))
    (noNil : kNullNode ∉ levels.map Prod.fst)
    (ok : ∀ e ∈ levels, ordersPositive book (book.levelAt e.1) = some true) {bound : Nat}
    (enough : levels.length < bound) :
    levelsPositive book bound (pointer book (front kNullNode (levels.map Prod.fst))) = some true := by
  induction levels generalizing left bound with
  | nil =>
    obtain ⟨bound,rfl⟩ := Nat.exists_eq_succ_of_ne_zero (by omega : bound ≠ 0)
    simp [pointer,levelsPositive]
  | cons e rest ih =>
    obtain ⟨bound,rfl⟩ := Nat.exists_eq_succ_of_ne_zero (by omega : bound ≠ 0)
    obtain ⟨next,_,tail⟩ := segment
    rw [List.map_cons,List.mem_cons,not_or] at noNil
    have later := ih tail noNil.2 (fun f m => ok f (List.mem_cons_of_mem _ m)) (show rest.length < bound by simpa using enough)
    rw [List.map_cons,front_cons,pointer,if_neg (Ne.symm noNil.1),levelsPositive,ok e List.mem_cons_self]
    rw [levelAfter_eq,next]
    simpa using later

theorem ordersPositive_eq (good : Good book) {s : Side} {e : NodeIndex × List NodeIndex} (m : e ∈ layoutOf book s)
    (positive : ∀ n ∈ e.2, 0 < (entryAt book n).remainingQty) : ordersPositive book (book.levelAt e.1) = some true := by
  have level := good.shaped.level s e m
  have bound := level_length_le good.orderPool m
  rw [ordersPositive,levelHead,level.head,show (fun node => (book.orderAt node).next) = nextOf book from rfl,
    scan_forward _ level.linked.segment level.linked.noNil (by omega)]
  have none : e.2.findSome? (fun node => if (book.orderAt node).remainingQty = 0 then some () else none) = none := by
    rw [List.findSome?_eq_none_iff]
    intro n inside
    have some := positive n inside
    rw [if_neg]
    intro zero
    rw [show (entryAt book n).remainingQty = 0 from zero] at some
    exact UInt32.lt_irrefl 0 some
  rw [none]
  rfl

/-- No bid reaches an ask. -/
def Uncrossed (walks : Side → List Entry) : Prop :=
  ∀ bid ∈ walks .Buy, ∀ ask ∈ walks .Sell, bid.priceTicks < ask.priceTicks

theorem bestBid_eq : book.bestBid = pointer book (book.sideHead .Buy) := rfl
theorem bestAsk_eq : book.bestAsk = pointer book (book.sideHead .Sell) := rfl

/-- The best level of a side has the price of the front order. -/
theorem pointer_front (good : Good book) {s : Side} {level : PriceLevel}
    (best : pointer book (book.sideHead s) = some level) : ∃ e ∈ resting book s, e.priceTicks = level.priceTicks := by
  cases front : resting book s with
  | nil =>
    rw [pointer,if_pos (sideHead_empty good front)] at best
    cases best
  | cons e rest =>
    obtain ⟨proper,price,_⟩ := sideHead_front good front
    rw [pointer,if_neg proper] at best
    obtain rfl := Option.some.inj best
    exact ⟨e,List.mem_cons_self,price.symm⟩

theorem checkPriceOrdering_eq (good : Good book) (uncrossed : Uncrossed (resting book)) :
    checkPriceOrdering book = some true := by
  have side : ∀ (s : Side) (misplaced : UInt64 → UInt64 → Bool),
      (∀ a b, priceRanksFirst s a b = true → misplaced b a = false) →
      levelsOrdered book misplaced (maxPriceLevels.size + 1) none (pointer book (book.sideHead s)) = some true := by
    intro s misplaced ranks
    have ok := good.shaped.sides s
    rw [ok.head]
    refine levelsOrdered_eq ok.linked.segment ok.linked.noNil (ok.ranked.imp (fun first => ranks _ _ first)) ?_ (by simp)
    have bound := side_length_le good.levelPool s
    simp only [List.length_map]
    omega
  have bids := side .Buy (fun price prev => decide (price ≥ prev)) (by simp [priceRanksFirst])
  have asks := side .Sell (fun price prev => decide (price ≤ prev)) (by simp [priceRanksFirst])
  rw [checkPriceOrdering,bestBid_eq,bestAsk_eq,bids,asks]
  cases bid : pointer book (book.sideHead .Buy) with
  | none => rfl
  | some bestBid =>
    cases ask : pointer book (book.sideHead .Sell) with
    | none => rfl
    | some bestAsk =>
      obtain ⟨b,inBids,priceB⟩ := pointer_front good bid
      obtain ⟨a,inAsks,priceA⟩ := pointer_front good ask
      have apart := uncrossed b inBids a inAsks
      rw [priceB,priceA] at apart
      have below : ¬ bestBid.priceTicks ≥ bestAsk.priceTicks := by
        rw [ge_iff_le,UInt64.not_le]
        exact apart
      simp [below]

theorem checkPositiveQuantity_eq (good : Good book) (positive : ∀ s, ∀ e ∈ resting book s, 0 < e.remainingQty) :
    checkPositiveQuantity book = some true := by
  have side : ∀ s : Side,
      levelsPositive book (maxPriceLevels.size + 1) (pointer book (book.sideHead s)) = some true := by
    intro s
    have ok := good.shaped.sides s
    have bound := side_length_le good.levelPool s
    rw [ok.head]
    refine levelsPositive_eq ok.linked.segment ok.linked.noNil ?_ (by omega)
    intro e m
    refine ordersPositive_eq good m ?_
    intro n inside
    exact positive s _ (List.mem_map_of_mem (List.mem_flatMap.mpr ⟨e,m,inside⟩))
  rw [checkPositiveQuantity,bestBid_eq,bestAsk_eq,side .Buy,side .Sell]
  rfl

/-- A kept book that is not crossed and holds no empty order passes the checks. -/
theorem findStateViolation_eq (good : Good book) (uncrossed : Uncrossed (resting book))
    (positive : ∀ s, ∀ e ∈ resting book s, 0 < e.remainingQty) : findStateViolation book = some .None := by
  rw [findStateViolation,checkPriceOrdering_eq good uncrossed,checkPositiveQuantity_eq good positive]
  rfl

end HyperMatch.BookLayout
