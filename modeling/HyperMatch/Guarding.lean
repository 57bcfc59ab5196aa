import Mathlib.Data.List.Chain
import HyperMatch.EngineFrames

/-!
The guard of `cpp/engine/include/hme/integrity_guard.hpp` around operations that keep an
invariant: the calls of the engine, and the faults that the tests of the guard inject.
The checks find exactly what is wrong with a book, an operation that is taken back leaves
nothing behind, and a guarded run is the run of the operations that stand.
-/
namespace HyperMatch.Guarding
open HyperMatch.Wire HyperMatch.Links HyperMatch.OrderBook HyperMatch.BookLayout HyperMatch.IntegrityGuard
  HyperMatch.Matching HyperMatch.Processing

variable {maxOrders maxPriceLevels : PoolCapacity} {book after : OrderBook maxOrders maxPriceLevels} {L : Layout}

/-! ### Books that can be walked -/

/-- The walks of the checks go through these levels and orders and end. Nothing is said
    about prices, quantities, counts, tails or the links backwards. -/
structure Walkable (book : OrderBook maxOrders maxPriceLevels) (L : Layout) : Prop where
  levels : ∀ s, Threaded (nextLevelOf book) kNullNode (book.sideHead s) ((L s).map Prod.fst)
  orders : ∀ s, ∀ e ∈ L s, Threaded (nextOf book) kNullNode (book.levelAt e.1).head e.2
  proper : ∀ s, kNullNode ∉ (L s).map Prod.fst
  properOrders : ∀ s, ∀ e ∈ L s, kNullNode ∉ e.2
  bounded : ∀ s, (L s).length ≤ maxPriceLevels.size
  boundedOrders : ∀ s, ∀ e ∈ L s, e.2.length ≤ maxOrders.size

/-- The prices of the levels that a walk meets. -/
def pricesOf (book : OrderBook maxOrders maxPriceLevels) (L : Layout) (s : Side) : List UInt64 :=
  ((L s).map Prod.fst).map (priceAt book)

/-- Every side is strictly sorted, best price first, and no bid reaches an ask. -/
def Ordered (book : OrderBook maxOrders maxPriceLevels) (L : Layout) : Prop :=
  (∀ s, (pricesOf book L s).Pairwise (fun a b => priceRanksFirst s a b = true)) ∧
    ∀ bid ∈ pricesOf book L .Buy, ∀ ask ∈ pricesOf book L .Sell, bid < ask

/-- No order is empty. -/
def Stocked (book : OrderBook maxOrders maxPriceLevels) (L : Layout) : Prop :=
  ∀ s, ∀ e ∈ L s, ∀ n ∈ e.2, (book.orderAt n).remainingQty ≠ 0

/-- The quantities of the operation add up, in 64 bits, if it asks for the check. -/
def Conserves (outcome : OpOutcome) : Prop :=
  outcome.checkConservation = true → outcome.incomingQty = outcome.tradedQty + outcome.restedQty

/-- What is wrong first with a book and an operation. -/
def Verdict (book : OrderBook maxOrders maxPriceLevels) (L : Layout) (outcome : OpOutcome) : Invariant → Prop
  | .None => Ordered book L ∧ Stocked book L ∧ Conserves outcome
  | .PriceOrdering => ¬ Ordered book L
  | .PositiveQuantity => Ordered book L ∧ ¬ Stocked book L
  | .QuantityConservation => Ordered book L ∧ Stocked book L ∧ ¬ Conserves outcome

/-- The book passes the checks. -/
def Passing (book : OrderBook maxOrders maxPriceLevels) : Prop := ∃ L, Walkable book L ∧ Ordered book L ∧ Stocked book L

/-! ### What the checks find -/

theorem levelsOrdered_exact {misplaced : UInt64 → UInt64 → Bool} {level : NodeIndex} {levels : List NodeIndex}
    (threaded : Threaded (nextLevelOf book) kNullNode level levels) (proper : kNullNode ∉ levels) {bound : Nat}
    (enough : levels.length < bound) (prev : Option PriceLevel) :
    ∃ ok, levelsOrdered book misplaced bound prev (pointer book level) = some ok ∧
      (ok = true ↔ (prev.toList.map PriceLevel.priceTicks ++ levels.map (priceAt book)).IsChain
        (fun a b => misplaced b a = false)) := by
  induction levels generalizing level prev bound with
  | nil =>
    obtain ⟨bound,rfl⟩ := Nat.exists_eq_succ_of_ne_zero (by omega : bound ≠ 0)
    have null : level = kNullNode := threaded
    refine ⟨true,by simp [pointer,null,levelsOrdered],?_⟩
    cases prev with
    | none => simp
    | some p => simp
  | cons a rest ih =>
    obtain ⟨bound,rfl⟩ := Nat.exists_eq_succ_of_ne_zero (by omega : bound ≠ 0)
    obtain ⟨rfl,tail⟩ := threaded
    rw [List.mem_cons,not_or] at proper
    obtain ⟨ok,ran,exact'⟩ := ih tail proper.2 (by simpa using enough) (some (book.levelAt level))
    rw [pointer,if_neg (Ne.symm proper.1),levelsOrdered]
    -- The level against the one before it, then the levels from it on.
    cases prev with
    | none => exact ⟨ok,ran,exact'⟩
    | some p =>
      by_cases wrong : misplaced (priceAt book level) p.priceTicks = true
      · refine ⟨false,?_,?_⟩
        · simp only [Option.any_some]
          exact if_pos wrong
        · simp [wrong]
      · refine ⟨ok,?_,?_⟩
        · simp only [Option.any_some]
          rw [if_neg (show ¬ misplaced (book.levelAt level).priceTicks p.priceTicks = true from wrong)]
          exact ran
        · rw [exact']
          have right : misplaced (book.levelAt level).priceTicks p.priceTicks = false := by simpa [priceAt] using wrong
          simp [right,priceAt]

theorem ordersPositive_exact {lvl : PriceLevel} {nodes : List NodeIndex}
    (threaded : Threaded (nextOf book) kNullNode lvl.head nodes) (proper : kNullNode ∉ nodes)
    (enough : nodes.length ≤ maxOrders.size) :
    ∃ ok, ordersPositive book lvl = some ok ∧ (ok = true ↔ ∀ n ∈ nodes, (book.orderAt n).remainingQty ≠ 0) := by
  have walked := threaded.scan (fun node => if (book.orderAt node).remainingQty = 0 then some () else none) proper
    (Nat.lt_succ_of_le enough)
  refine ⟨_,by rw [ordersPositive,show (fun node => (book.orderAt node).next) = nextOf book from rfl,levelHead,walked]; rfl,?_⟩
  rw [Option.isNone_iff_eq_none,List.findSome?_eq_none_iff]
  simp

theorem levelsPositive_exact {level : NodeIndex} {levels : List (NodeIndex × List NodeIndex)}
    (threaded : Threaded (nextLevelOf book) kNullNode level (levels.map Prod.fst)) (proper : kNullNode ∉ levels.map Prod.fst)
    (orders : ∀ e ∈ levels, ∃ ok, ordersPositive book (book.levelAt e.1) = some ok ∧
      (ok = true ↔ ∀ n ∈ e.2, (book.orderAt n).remainingQty ≠ 0)) {bound : Nat} (enough : levels.length < bound) :
    ∃ ok, levelsPositive book bound (pointer book level) = some ok ∧
      (ok = true ↔ ∀ e ∈ levels, ∀ n ∈ e.2, (book.orderAt n).remainingQty ≠ 0) := by
  induction levels generalizing level bound with
  | nil =>
    obtain ⟨bound,rfl⟩ := Nat.exists_eq_succ_of_ne_zero (by omega : bound ≠ 0)
    have null : level = kNullNode := threaded
    exact ⟨true,by simp [pointer,null,levelsPositive],by simp⟩
  | cons e rest ih =>
    obtain ⟨bound,rfl⟩ := Nat.exists_eq_succ_of_ne_zero (by omega : bound ≠ 0)
    obtain ⟨rfl,tail⟩ := threaded
    rw [List.map_cons,List.mem_cons,not_or] at proper
    obtain ⟨here,ranHere,exactHere⟩ := orders e List.mem_cons_self
    obtain ⟨later,ranLater,exactLater⟩ :=
      ih tail proper.2 (fun f inside => orders f (List.mem_cons_of_mem _ inside)) (by simpa using enough)
    rw [pointer,if_neg (Ne.symm proper.1),levelsPositive,ranHere,List.forall_mem_cons,← exactHere,← exactLater]
    cases here with
    | false => exact ⟨false,rfl,by simp⟩
    | true => exact ⟨later,ranLater,by simp⟩

/-- The best level is the first one of the walk. -/
theorem pointer_first (walkable : Walkable book L) (s : Side) :
    (pointer book (book.sideHead s)).map PriceLevel.priceTicks = (pricesOf book L s).head? := by
  have threaded := walkable.levels s
  have proper := walkable.proper s
  rw [pricesOf]
  cases walk : (L s).map Prod.fst with
  | nil =>
    rw [walk] at threaded
    simp [pointer,show book.sideHead s = kNullNode from threaded]
  | cons a rest =>
    rw [walk] at threaded proper
    rw [List.mem_cons,not_or] at proper
    rw [threaded.1,pointer,if_neg (Ne.symm proper.1)]
    rfl

/-- A side is sorted when every level is in place after the one before it. -/
theorem sideOrdered_exact (walkable : Walkable book L) (s : Side) {misplaced : UInt64 → UInt64 → Bool}
    (ranks : ∀ a b, misplaced b a = false ↔ priceRanksFirst s a b = true) :
    ∃ ok, levelsOrdered book misplaced (maxPriceLevels.size + 1) none (pointer book (book.sideHead s)) = some ok ∧
      (ok = true ↔ (pricesOf book L s).Pairwise (fun a b => priceRanksFirst s a b = true)) := by
  have bounded := walkable.bounded s
  obtain ⟨ok,ran,chained⟩ := levelsOrdered_exact (walkable.levels s) (walkable.proper s)
    (show ((L s).map Prod.fst).length < maxPriceLevels.size + 1 by simp; omega) none
  refine ⟨ok,ran,?_⟩
  have : IsTrans UInt64 (fun a b => priceRanksFirst s a b = true) := by
    constructor
    intro a b c first second
    cases s with
    | Buy =>
      simp only [priceRanksFirst,decide_eq_true_eq] at first second ⊢
      exact UInt64.lt_trans second first
    | Sell =>
      simp only [priceRanksFirst,decide_eq_true_eq] at first second ⊢
      exact UInt64.lt_trans first second
  rw [chained,← List.isChain_iff_pairwise]
  simp only [ranks]
  rfl

/-- Of sorted sides the best bid and the best ask stand for all. -/
theorem uncrossed_iff (sorted : ∀ s, (pricesOf book L s).Pairwise (fun a b => priceRanksFirst s a b = true)) :
    (∀ bid ∈ pricesOf book L .Buy, ∀ ask ∈ pricesOf book L .Sell, bid < ask) ↔
      ∀ bid ∈ (pricesOf book L .Buy).head?, ∀ ask ∈ (pricesOf book L .Sell).head?, bid < ask := by
  have buys := sorted .Buy
  have sells := sorted .Sell
  cases bids : pricesOf book L .Buy with
  | nil => simp
  | cons bid lower =>
    cases asks : pricesOf book L .Sell with
    | nil => simp
    | cons ask higher =>
      rw [bids] at buys
      rw [asks] at sells
      simp only [List.pairwise_cons,priceRanksFirst,decide_eq_true_eq] at buys sells
      have below : ∀ b ∈ bid :: lower, b ≤ bid := by
        rintro b (_ | ⟨_,inside⟩)
        · exact UInt64.le_refl _
        · exact UInt64.le_of_lt (buys.1 b inside)
      have above : ∀ a ∈ ask :: higher, ask ≤ a := by
        rintro a (_ | ⟨_,inside⟩)
        · exact UInt64.le_refl _
        · exact UInt64.le_of_lt (sells.1 a inside)
      constructor
      · intro apart b first a first'
        cases first
        cases first'
        exact apart _ List.mem_cons_self _ List.mem_cons_self
      · intro apart b insideB a insideA
        have best := apart bid rfl ask rfl
        exact UInt64.lt_of_le_of_lt (below b insideB) (UInt64.lt_of_lt_of_le best (above a insideA))

theorem checkPriceOrdering_exact (walkable : Walkable book L) :
    ∃ ok, checkPriceOrdering book = some ok ∧ (ok = true ↔ Ordered book L) := by
  obtain ⟨bids,ranBids,bids_iff⟩ := sideOrdered_exact walkable .Buy (fun a b => by simp [priceRanksFirst] :
    ∀ a b, (fun price prev : UInt64 => decide (price ≥ prev)) b a = false ↔ priceRanksFirst .Buy a b = true)
  obtain ⟨asks,ranAsks,asks_iff⟩ := sideOrdered_exact walkable .Sell (fun a b => by simp [priceRanksFirst] :
    ∀ a b, (fun price prev : UInt64 => decide (price ≤ prev)) b a = false ↔ priceRanksFirst .Sell a b = true)
  have firstBid := pointer_first walkable .Buy
  have firstAsk := pointer_first walkable .Sell
  rw [checkPriceOrdering,bestBid_eq,bestAsk_eq,ranBids,ranAsks]
  cases bids with
  | false =>
    refine ⟨false,rfl,?_⟩
    simp only [Bool.false_eq_true,false_iff] at bids_iff ⊢
    exact fun ordered => bids_iff (ordered.1 .Buy)
  | true =>
    cases asks with
    | false =>
      refine ⟨false,rfl,?_⟩
      simp only [Bool.false_eq_true,false_iff] at asks_iff ⊢
      exact fun ordered => asks_iff (ordered.1 .Sell)
    | true =>
      have sorted : ∀ s, (pricesOf book L s).Pairwise (fun a b => priceRanksFirst s a b = true) := by
        intro s
        cases s with
        | Buy => exact bids_iff.mp rfl
        | Sell => exact asks_iff.mp rfl
      rw [Ordered,uncrossed_iff sorted,← firstBid,← firstAsk]
      cases pointer book (book.sideHead .Buy) with
      | none => exact ⟨true,rfl,by simp [sorted]⟩
      | some bestBid =>
        cases pointer book (book.sideHead .Sell) with
        | none => exact ⟨true,rfl,by simp [sorted]⟩
        | some bestAsk => exact ⟨_,rfl,by simp [sorted]⟩

theorem checkPositiveQuantity_exact (walkable : Walkable book L) :
    ∃ ok, checkPositiveQuantity book = some ok ∧ (ok = true ↔ Stocked book L) := by
  have side : ∀ s, ∃ ok, levelsPositive book (maxPriceLevels.size + 1) (pointer book (book.sideHead s)) = some ok ∧
      (ok = true ↔ ∀ e ∈ L s, ∀ n ∈ e.2, (book.orderAt n).remainingQty ≠ 0) := by
    intro s
    refine levelsPositive_exact (walkable.levels s) (walkable.proper s) ?_ (Nat.lt_succ_of_le (walkable.bounded s))
    intro e inside
    exact ordersPositive_exact (walkable.orders s e inside) (walkable.properOrders s e inside)
      (walkable.boundedOrders s e inside)
  obtain ⟨bids,ranBids,bids_iff⟩ := side .Buy
  obtain ⟨asks,ranAsks,asks_iff⟩ := side .Sell
  have both : Stocked book L ↔ bids = true ∧ asks = true := by
    rw [bids_iff,asks_iff,Stocked]
    exact ⟨fun all => ⟨all .Buy,all .Sell⟩,fun each s => by cases s with | Buy => exact each.1 | Sell => exact each.2⟩
  rw [checkPositiveQuantity,bestBid_eq,bestAsk_eq,ranBids,both]
  cases bids with
  | false => exact ⟨false,rfl,by simp⟩
  | true => exact ⟨asks,ranAsks,by simp⟩

/-- The guard names what is wrong first, and nothing if nothing is. -/
theorem evaluate_exact (walkable : Walkable book L) (outcome : OpOutcome) :
    ∃ violated, evaluate book outcome = some violated ∧ Verdict book L outcome violated := by
  obtain ⟨ordered,ranOrdered,ordered_iff⟩ := checkPriceOrdering_exact walkable
  obtain ⟨stocked,ranStocked,stocked_iff⟩ := checkPositiveQuantity_exact walkable
  have conserves : Conserves outcome ↔ ¬ (outcome.checkConservation ∧
      checkQuantityConservation outcome.incomingQty outcome.tradedQty outcome.restedQty = false) := by
    simp [Conserves,checkQuantityConservation]
  rw [evaluate,findStateViolation,ranOrdered]
  cases ordered with
  | false => exact ⟨.PriceOrdering,rfl,fun wrong => absurd (ordered_iff.mpr wrong) (by simp)⟩
  | true =>
    rw [ranStocked]
    have sorted := ordered_iff.mp rfl
    cases stocked with
    | false => exact ⟨.PositiveQuantity,rfl,sorted,fun wrong => absurd (stocked_iff.mpr wrong) (by simp)⟩
    | true =>
      have full := stocked_iff.mp rfl
      by_cases lost : outcome.checkConservation ∧
          checkQuantityConservation outcome.incomingQty outcome.tradedQty outcome.restedQty = false
      · exact ⟨.QuantityConservation,by simp [lost],sorted,full,fun kept => conserves.mp kept lost⟩
      · exact ⟨.None,by simp only [Bool.not_true,Bool.false_eq_true,if_false,Option.bind_eq_bind,Option.bind_some,
          Option.pure_def,ne_eq,not_true_eq_false,if_neg lost],sorted,full,conserves.mpr lost⟩

/-! ### Books of the engine -/

theorem walkable_of_good (good : Good book) : Walkable book (layoutOf book) where
  levels := by
    intro s
    have ok := good.shaped.sides s
    rw [ok.head]
    exact ok.linked.segment.threaded
  orders := by
    intro s e inside
    have ok := good.shaped.level s e inside
    rw [ok.head]
    exact ok.linked.segment.threaded
  proper := fun s => (good.shaped.sides s).linked.noNil
  properOrders := fun s e inside => (good.shaped.level s e inside).linked.noNil
  bounded := side_length_le good.levelPool
  boundedOrders := fun s e inside => level_length_le good.orderPool inside

/-- On a book that is kept, sides are sorted, and only a crossing can break the order. -/
theorem ordered_iff (good : Good book) : Ordered book (layoutOf book) ↔ Uncrossed (resting book) := by
  have prices : ∀ s price, price ∈ pricesOf book (layoutOf book) s ↔ ∃ e ∈ resting book s, e.priceTicks = price := by
    intro s price
    have members := mem_prices good s price
    rw [List.mem_map] at members
    rw [pricesOf,List.map_map,List.mem_map]
    exact members.symm
  have sorted : ∀ s, (pricesOf book (layoutOf book) s).Pairwise (fun a b => priceRanksFirst s a b = true) :=
    fun s => List.pairwise_map.mpr (good.shaped.sides s).ranked
  constructor
  · intro ordered bid inBids ask inAsks
    exact ordered.2 _ ((prices .Buy _).mpr ⟨bid,inBids,rfl⟩) _ ((prices .Sell _).mpr ⟨ask,inAsks,rfl⟩)
  · intro uncrossed
    refine ⟨sorted,?_⟩
    intro b insideB a insideA
    obtain ⟨bid,inBids,rfl⟩ := (prices .Buy b).mp insideB
    obtain ⟨ask,inAsks,rfl⟩ := (prices .Sell a).mp insideA
    exact uncrossed bid inBids ask inAsks

theorem stocked_iff : Stocked book (layoutOf book) ↔ ∀ s, ∀ e ∈ resting book s, 0 < e.remainingQty := by
  constructor
  · intro stocked s e rests
    obtain ⟨n,inQueue,rfl⟩ := List.mem_map.mp rests
    obtain ⟨level,inside,inLevel⟩ := List.mem_flatMap.mp inQueue
    exact UInt32.pos_iff_ne_zero.mpr (stocked s level inside n inLevel)
  · intro positive s level inside n inLevel
    have rests : entryAt book n ∈ resting book s :=
      List.mem_map_of_mem (List.mem_flatMap.mpr ⟨level,inside,inLevel⟩)
    exact UInt32.pos_iff_ne_zero.mp (positive s _ rests)

/-- The book of every engine that any calls reach passes the checks. -/
theorem passing_of_settled {engine : MatchingEngine maxOrders maxPriceLevels} (settled : Settled engine) :
    Passing engine.book :=
  ⟨_,walkable_of_good settled.sound.good,(ordered_iff settled.sound.good).mpr settled.uncrossed,
    stocked_iff.mpr settled.sound.positive⟩

/-! ### Runs under the guard -/

/-- A state with a book in it. The guard gives back the book, the rest of the state
    belongs to the operations. -/
structure Holder (State : Type) (maxOrders maxPriceLevels : PoolCapacity) where
  book : State → OrderBook maxOrders maxPriceLevels
  restore : State → OrderBook maxOrders maxPriceLevels → State
  restore_book : ∀ state, restore state (book state) = state

abbrev Op (State : Type) := State → Option (OpOutcome × State)

section
variable {State : Type} {holder : Holder State maxOrders maxPriceLevels} {Inv : State → Prop} {state final : State}
  {ops : List (Op State)} {reports : List (Bool × List IntegrityError)}

/-- `commit` around an operation, in its state. -/
def guard (holder : Holder State maxOrders maxPriceLevels) (op : Op State) (state : State) :
    Option (Bool × List IntegrityError × State) := do
  let (outcome,after) ← op state
  let (done,errors,book) ← commit (holder.book state) (fun _ => some (outcome,holder.book after))
  return (done,errors,holder.restore after book)

/-- One `commit` after the other, with what each of them returns and emits. -/
def guardAll (holder : Holder State maxOrders maxPriceLevels) (state : State) :
    List (Op State) → Option (List (Bool × List IntegrityError) × State)
  | [] => some ([],state)
  | op :: rest => do
    let (done,errors,state) ← guard holder op state
    let (reports,state) ← guardAll holder state rest
    return ((done,errors) :: reports,state)

/-- The operations without the guard. -/
def runAll (state : State) : List (Op State) → Option State
  | [] => some state
  | op :: rest => do
    let (_,state) ← op state
    runAll state rest

/-- The operations that the guard let stand. -/
def standing : List (Op State) → List (Bool × List IntegrityError) → List (Op State)
  | op :: ops,(true,_) :: reports => op :: standing ops reports
  | _ :: ops,(false,_) :: reports => standing ops reports
  | _,_ => []

/-- What a guarded run needs of an operation. From the states with the invariant it
    returns and leaves a book whose lists end. If it stands, it keeps the invariant; if it
    is taken back, it has changed nothing but the book. -/
def Keeps (holder : Holder State maxOrders maxPriceLevels) (Inv : State → Prop) (op : Op State) : Prop :=
  ∀ state, Inv state → ∃ outcome after L, op state = some (outcome,after) ∧ Walkable (holder.book after) L ∧
    (Verdict (holder.book after) L outcome .None → Inv after) ∧
    (¬ Verdict (holder.book after) L outcome .None → holder.restore after (holder.book state) = state)

/-- A run as it should be: an operation stands exactly if it leaves a book without a
    flaw and its quantities add up; else its first flaw is reported and the next
    operation finds the state as it was. -/
inductive Guarded (holder : Holder State maxOrders maxPriceLevels) :
    State → List (Op State) → List (Bool × List IntegrityError) → State → Prop
  | done (state : State) : Guarded holder state [] [] state
  | stands {state after final : State} {L : Layout} {op : Op State} {outcome : OpOutcome} {ops : List (Op State)}
      {reports : List (Bool × List IntegrityError)} (ran : op state = some (outcome,after))
      (walkable : Walkable (holder.book after) L) (sound : Verdict (holder.book after) L outcome .None)
      (rest : Guarded holder after ops reports final) : Guarded holder state (op :: ops) ((true,[]) :: reports) final
  | takenBack {state after final : State} {L : Layout} {op : Op State} {outcome : OpOutcome} {violated : Invariant}
      {ops : List (Op State)} {reports : List (Bool × List IntegrityError)} (ran : op state = some (outcome,after))
      (walkable : Walkable (holder.book after) L) (flaw : violated ≠ .None)
      (sound : Verdict (holder.book after) L outcome violated) (rest : Guarded holder state ops reports final) :
      Guarded holder state (op :: ops) ((false,[⟨violated,invariantName violated⟩]) :: reports) final

theorem Guarded.passing (guarded : Guarded holder state ops reports final) (passing : Passing (holder.book state)) :
    Passing (holder.book final) := by
  induction guarded with
  | done state => exact passing
  | stands ran walkable sound rest ih => exact ih ⟨_,walkable,sound.1,sound.2.1⟩
  | takenBack ran walkable flaw sound rest ih => exact ih passing

theorem Guarded.standing (guarded : Guarded holder state ops reports final) :
    runAll state (standing ops reports) = some final := by
  induction guarded with
  | done state => rfl
  | stands ran walkable sound rest ih => simp [Guarding.standing,runAll,ran,ih]
  | takenBack ran walkable flaw sound rest ih => exact ih

/-- Only one verdict on a book and an operation. -/
theorem Verdict.none {outcome : OpOutcome} {violated : Invariant} (sound : Verdict book L outcome violated)
    (flaw : violated ≠ .None) : ¬ Verdict book L outcome .None := by
  rintro ⟨ordered,stocked,conserves⟩
  cases violated with
  | None => exact flaw rfl
  | PriceOrdering => exact sound ordered
  | PositiveQuantity => exact sound.2 stocked
  | QuantityConservation => exact sound.2.2 conserves

/-- One `commit`: the operation stands and keeps the invariant, or its flaw is named and
    the state is what it was. -/
theorem guard_spec {op : Op State} (keeps : Keeps holder Inv op) (start : Inv state) :
    ∃ outcome after L, op state = some (outcome,after) ∧ Walkable (holder.book after) L ∧
      ((Verdict (holder.book after) L outcome .None ∧ guard holder op state = some (true,[],after) ∧ Inv after) ∨
        ∃ violated, violated ≠ .None ∧ Verdict (holder.book after) L outcome violated ∧
          guard holder op state = some (false,[⟨violated,invariantName violated⟩],state)) := by
  obtain ⟨outcome,after,L,ran,walkable,kept,same⟩ := keeps state start
  obtain ⟨violated,evaluated,sound⟩ := evaluate_exact walkable outcome
  refine ⟨outcome,after,L,ran,walkable,?_⟩
  by_cases fine : violated = .None
  · subst fine
    exact .inl ⟨sound,by simp [guard,commit,ran,evaluated,holder.restore_book],kept sound⟩
  · exact .inr ⟨violated,fine,sound,by simp [guard,commit,ran,evaluated,fine,same (sound.none fine)]⟩

theorem guardAll_guarded (keeps : ∀ op ∈ ops, Keeps holder Inv op) (start : Inv state) :
    ∃ reports final, guardAll holder state ops = some (reports,final) ∧ Guarded holder state ops reports final ∧ Inv final := by
  induction ops generalizing state with
  | nil => exact ⟨[],state,rfl,.done state,start⟩
  | cons op rest ih =>
    have later : ∀ op ∈ rest, Keeps holder Inv op := fun op inside => keeps op (List.mem_cons_of_mem _ inside)
    obtain ⟨outcome,after,L,ran,walkable,⟨sound,guarded,kept⟩ | ⟨violated,flaw,sound,guarded⟩⟩ :=
      guard_spec (keeps op List.mem_cons_self) start
    · obtain ⟨reports,final,ran',run,inv⟩ := ih later kept
      exact ⟨_,final,by simp [guardAll,guarded,ran'],run.stands ran walkable sound,inv⟩
    · obtain ⟨reports,final,ran',run,inv⟩ := ih later start
      exact ⟨_,final,by simp [guardAll,guarded,ran'],run.takenBack ran walkable flaw sound,inv⟩

/-- From a book that passes the checks, in a state with an invariant, operations that keep
    it under the guard: the run ends in a book that passes, each operation is taken back
    exactly for a flaw of its own and with the name of the first one, and the state is
    what the operations that stand make of it without the guard. -/
theorem guarded_run (passing : Passing (holder.book state)) (start : Inv state) (keeps : ∀ op ∈ ops, Keeps holder Inv op) :
    ∃ reports final, guardAll holder state ops = some (reports,final) ∧ Guarded holder state ops reports final ∧
      Passing (holder.book final) ∧ Inv final ∧ runAll state (standing ops reports) = some final := by
  obtain ⟨reports,final,ran,guarded,inv⟩ := guardAll_guarded keeps start
  exact ⟨reports,final,ran,guarded,guarded.passing passing,inv,guarded.standing⟩
end

/-! ### The engine under the guard -/

def engineHolder : Holder (MatchingEngine maxOrders maxPriceLevels) maxOrders maxPriceLevels :=
  ⟨MatchingEngine.book,fun engine book => { engine with book := book },fun _ => rfl⟩

section
variable {engine : MatchingEngine maxOrders maxPriceLevels}

/-- `process_new_order`, which reports the quantities. -/
def newOrder (m : NewOrder) : Op (MatchingEngine maxOrders maxPriceLevels) := fun engine => do
  let (trades,after) ← engine.processNewOrder m
  return (OpOutcome.conserving m.quantity.toUInt64 (sumOfTrades trades) (UInt64.ofNat (restedQty engine after m)),after)
/-- `process_cancel_order`, for which nothing has to add up. -/
def cancelOrder (c : CancelOrder) : Op (MatchingEngine maxOrders maxPriceLevels) := fun engine => do
  let (_,after) ← engine.processCancelOrder c
  return ({},after)
/-- An operation that writes the book past the engine, as the tests of the guard do. -/
def onBook (change : OrderBook maxOrders maxPriceLevels → Option (OpOutcome × OrderBook maxOrders maxPriceLevels)) :
    Op (MatchingEngine maxOrders maxPriceLevels) := fun engine => do
  let (outcome,book) ← change engine.book
  return (outcome,{ engine with book := book })

theorem guardedNewOrder_eq (m : NewOrder) : guardedNewOrder engine m = guard engineHolder (newOrder m) engine := by
  unfold guardedNewOrder guard newOrder
  cases engine.processNewOrder m <;> rfl

/-- A new order is taken back only for want of room, and then it has changed nothing. -/
theorem newOrder_keeps (m : NewOrder) : Keeps engineHolder Settled (newOrder m : Op (MatchingEngine maxOrders maxPriceLevels)) := by
  intro engine settled
  obtain ⟨after,ran,settled',viewed⟩ := settled.newOrder m
  have good := settled'.sound.good
  refine ⟨_,after,layoutOf after.book,by simp [newOrder,ran]; rfl,walkable_of_good good,fun _ => settled',?_⟩
  intro flaw
  have unconserved : ¬ Conserves (OpOutcome.conserving m.quantity.toUInt64
      (sumOfTrades ((view engine).newOrder maxOrders maxPriceLevels m).1) (UInt64.ofNat (restedQty engine after m))) :=
    fun conserves => flaw ⟨(ordered_iff good).mpr settled'.uncrossed,stocked_iff.mpr settled'.sound.positive,conserves⟩
  have rested := restedQty_eq viewed
  have shared := sweptBy_traded (view engine) m
  have sum : sumOfTrades ((view engine).newOrder maxOrders maxPriceLevels m).1 =
    UInt64.ofNat (traded ((view engine).sweptBy m).1) := sumOfTrades_eq _
  have checked := conservation_iff m (traded ((view engine).sweptBy m).1) (restedQty engine after m) (by omega)
  have lost : (view engine).dropped maxOrders maxPriceLevels m ≠ 0 := by
    intro kept
    refine unconserved (fun _ => ?_)
    have adds := checked.mpr (by omega)
    rw [checkQuantityConservation,decide_eq_true_eq] at adds
    rw [sum]
    exact adds
  have positive : 0 < m.quantity := by
    rw [UInt32.lt_iff_toNat_lt]
    show 0 < m.quantity.toNat
    omega
  obtain ⟨-,rfl⟩ := Prod.mk.inj (Option.some.inj (ran.symm.trans (processNewOrder_dropped settled.sound positive lost)))
  rfl

/-- A cancellation is never taken back. -/
theorem cancelOrder_keeps (c : CancelOrder) :
    Keeps engineHolder Settled (cancelOrder c : Op (MatchingEngine maxOrders maxPriceLevels)) := by
  intro engine settled
  obtain ⟨outcome,after,ran,settled'⟩ : ∃ outcome after, engine.processCancelOrder c = some (outcome,after) ∧ Settled after := by
    rcases processCancelOrder_spec settled.sound c with ⟨e,after,ran,sound',taken,-⟩ | ⟨_,_,ran,_⟩
    · exact ⟨_,after,ran,settled.fewer sound' (fun s a inside => cancel_entries taken inside)⟩
    · exact ⟨_,engine,ran,settled⟩
  have good := settled'.sound.good
  refine ⟨{},after,layoutOf after.book,by simp [cancelOrder,ran],walkable_of_good good,fun _ => settled',?_⟩
  intro flaw
  refine absurd ⟨(ordered_iff good).mpr settled'.uncrossed,stocked_iff.mpr settled'.sound.positive,?_⟩ flaw
  exact fun checked => nomatch checked

/-- What is written past the engine stands only if the engine could have come to it. -/
theorem onBook_keeps {change : OrderBook maxOrders maxPriceLevels → Option (OpOutcome × OrderBook maxOrders maxPriceLevels)}
    (keeps : ∀ book, Good book → ∃ outcome after, change book = some (outcome,after) ∧ Good after) :
    Keeps engineHolder Settled (onBook change) := by
  intro engine settled
  obtain ⟨outcome,book,ran,good⟩ := keeps engine.book settled.sound.good
  refine ⟨outcome,{ engine with book := book },layoutOf book,by simp [onBook,ran],walkable_of_good good,?_,fun _ => rfl⟩
  rintro ⟨ordered,stocked,-⟩
  exact ⟨⟨good,stocked_iff.mp stocked,settled.sound.retired⟩,(ordered_iff good).mp ordered⟩

/-- `insert_order` of anything at any price, whatever quantities are reported. -/
def inserted (order : Entry) (outcome : OpOutcome) : Op (MatchingEngine maxOrders maxPriceLevels) := onBook fun book => do
  let (_,book) ← book.insertOrder order.orderId order.side order.priceTicks order.seq order.remainingQty
  return (outcome,book)
/-- The order in a slot is emptied but left in the book. -/
def emptied (node : NodeIndex) : Op (MatchingEngine maxOrders maxPriceLevels) :=
  onBook fun book => some ({},book.setRemainingQty node 0)

theorem inserted_keeps (order : Entry) (outcome : OpOutcome) :
    Keeps engineHolder Settled (inserted order outcome : Op (MatchingEngine maxOrders maxPriceLevels)) := by
  refine onBook_keeps (fun book good => ?_)
  rcases insertOrder_resting good order with ⟨-,ran⟩ | ⟨-,book',ran,good',-⟩
  · exact ⟨outcome,book,by simp [ran],good⟩
  · exact ⟨outcome,book',by simp [ran],good'⟩

theorem emptied_keeps (node : NodeIndex) : Keeps engineHolder Settled (emptied node : Op (MatchingEngine maxOrders maxPriceLevels)) :=
  onBook_keeps (fun _ good => ⟨_,_,rfl,(Kept.setRemainingQty good node 0).good⟩)

/-- What the engine is asked for, and what the tests of the guard inject. -/
inductive Guardable where
  | newOrder (m : NewOrder)
  | cancelOrder (c : CancelOrder)
  | inserted (order : Entry) (outcome : OpOutcome)
  | emptied (node : NodeIndex)

def Guardable.op : Guardable → Op (MatchingEngine maxOrders maxPriceLevels)
  | .newOrder m => Guarding.newOrder m
  | .cancelOrder c => Guarding.cancelOrder c
  | .inserted order outcome => Guarding.inserted order outcome
  | .emptied node => Guarding.emptied node

theorem Guardable.keeps (call : Guardable) :
    Keeps engineHolder Settled (call.op : Op (MatchingEngine maxOrders maxPriceLevels)) := by
  cases call with
  | newOrder m => exact newOrder_keeps m
  | cancelOrder c => exact cancelOrder_keeps c
  | inserted order outcome => exact inserted_keeps order outcome
  | emptied node => exact emptied_keeps node

theorem Guardable.all_keep (calls : List Guardable) :
    ∀ op ∈ calls.map Guardable.op, Keeps engineHolder Settled (op : Op (MatchingEngine maxOrders maxPriceLevels)) := by
  intro op inside
  obtain ⟨call,_,rfl⟩ := List.mem_map.mp inside
  exact call.keeps

/-- Any calls and any faults on any reached engine: its book passes the checks at the end,
    and the engine is what the calls and faults that stand make of it without the guard. -/
theorem guarded_engine (reached : Reached engine) (calls : List Guardable) :
    ∃ reports final, guardAll engineHolder engine (calls.map Guardable.op) = some (reports,final) ∧
      Guarded engineHolder engine (calls.map Guardable.op) reports final ∧ Passing final.book ∧ Settled final ∧
      runAll engine (standing (calls.map Guardable.op) reports) = some final := by
  obtain ⟨reports,final,ran,guarded,settled⟩ := guardAll_guarded (Guardable.all_keep calls) reached.settled
  exact ⟨reports,final,ran,guarded,passing_of_settled settled,settled,guarded.standing⟩

/-- Two orders come, then three faults: a bid inserted above the ask, the first order
    emptied in place, and a bid of 2 reported as one of 3. An ask trades, two bids fill the
    pool, the third has no room, and the first order is cancelled twice. -/
def session : List Guardable :=
  [.newOrder ⟨1,.Buy,100,5,1⟩,.newOrder ⟨2,.Sell,103,4,2⟩,
    .inserted ⟨9,3,104,2,.Buy⟩ {},.emptied 0,.inserted ⟨9,3,99,2,.Buy⟩ (.conserving 3 0 2),
    .newOrder ⟨3,.Sell,100,2,3⟩,.newOrder ⟨4,.Buy,98,1,4⟩,.newOrder ⟨5,.Buy,97,1,5⟩,
    .newOrder ⟨6,.Buy,96,1,6⟩,.cancelOrder ⟨1⟩,.cancelOrder ⟨1⟩]

/-- What the guard says to each operation of that session. -/
def verdicts : List Invariant :=
  [.None,.None,.PriceOrdering,.PositiveQuantity,.QuantityConservation,.None,.None,.None,.QuantityConservation,.None,.None]

theorem guarded_run_session :
    ∃ (reports : List (Bool × List IntegrityError)) (final : MatchingEngine .four .four),
      guardAll engineHolder MatchingEngine.new (session.map Guardable.op) = some (reports,final) ∧
      reports = verdicts.map (fun v => if v = .None then (true,[]) else (false,[⟨v,invariantName v⟩])) ∧
      resting final.book .Buy = [⟨4,4,98,1,.Buy⟩,⟨5,5,97,1,.Buy⟩] ∧ resting final.book .Sell = [⟨2,2,103,4,.Sell⟩] ∧
      Passing final.book ∧ runAll MatchingEngine.new (standing (session.map Guardable.op) reports) = some final := by
  have settled : Settled (MatchingEngine.new : MatchingEngine .four .four) := Reached.new.settled
  have passing : Passing (engineHolder.book (MatchingEngine.new : MatchingEngine .four .four)) := passing_of_settled settled
  obtain ⟨reports,final,ran,_,passes,_,stands⟩ := guarded_run passing settled (Guardable.all_keep session)
  have shape : (guardAll engineHolder (MatchingEngine.new : MatchingEngine .four .four) (session.map Guardable.op)).map
      (fun r => decide (r.1 = verdicts.map (fun v => if v = .None then (true,[]) else (false,[⟨v,invariantName v⟩])) ∧
        resting r.2.book .Buy = [⟨4,4,98,1,.Buy⟩,⟨5,5,97,1,.Buy⟩] ∧ resting r.2.book .Sell = [⟨2,2,103,4,.Sell⟩])) =
      some true := by decide +kernel
  rw [ran,Option.map_some] at shape
  obtain ⟨told,bids,asks⟩ := of_decide_eq_true (Option.some.inj shape)
  exact ⟨reports,final,ran,told,bids,asks,passes,stands⟩
end

end HyperMatch.Guarding
