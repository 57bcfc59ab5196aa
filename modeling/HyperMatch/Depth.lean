import HyperMatch.EngineFrames
import HyperMatch.Feed
import HyperMatch.GatewayBook

/-!
What the gateway answers about the book: `get_book` of `gateway-server/src/api.rs` and
the count of resting orders in `stats_value`. Once the events of the first commands are
handled, the answer is the engine's own book after these commands: its levels in the
order in which the engine walks them, cut at the depth asked for, each with the
quantity and the number of the orders that rest there.
-/
namespace HyperMatch.Depth
open HyperMatch.Wire HyperMatch.Matching HyperMatch.MatchingEngine HyperMatch.Streams HyperMatch.Runs HyperMatch.BookLayout
open HyperMatch.Mirror HyperMatch.GatewayBook HyperMatch.Processing
open HyperMatch.OrderBook (PoolCapacity priceRanksFirst)
open HyperMatch.Projection (BookLevel BookSnapshot ticksToPrice atPrice quantityOf)
open HyperMatch.Feed (defaultDepth)

/-- `depth.unwrap_or(DEFAULT_DEPTH).clamp(1, 1000)`. -/
def depthOf (query : Option Nat) : Nat := max 1 (min (query.getD defaultDepth) 1000)

def getBook (app : AppState) (query : Option Nat) : BookSnapshot := app.book.snapshot (depthOf query)

def restingCount (book : Projection.OrderBook) : Nat := book.orders.keys.card

section
variable {maxOrders maxPriceLevels : PoolCapacity}

/-- A level of the engine's book, as its resting orders make it. -/
def levelOf (book : OrderBook maxOrders maxPriceLevels) (side : Side) (priceTicks : UInt64) : BookLevel :=
  let here := (resting book side).filter (fun e => e.priceTicks = priceTicks)
  ⟨ticksToPrice priceTicks,UInt64.ofNat (here.map (fun e => e.remainingQty.toNat)).sum,UInt32.ofNat here.length⟩

variable {book : OrderBook maxOrders maxPriceLevels} {shown : Projection.OrderBook}

theorem total_mirrored (mirrors : Mirrors shown (resting book)) (side : Side) (priceTicks : UInt64) :
    shown.total side priceTicks = levelOf book side priceTicks := by
  rw [Projection.OrderBook.total,levelOf,atPrice_mirrored mirrors,quantityOf,Multiset.map_coe,Multiset.sum_coe,
    Multiset.coe_card,List.map_map,List.length_map]
  rfl

theorem mem_prices_mirrored (mirrors : Mirrors shown (resting book)) (side : Side) (priceTicks : UInt64) :
    priceTicks ∈ shown.prices side ↔ ∃ e ∈ resting book side, e.priceTicks = priceTicks := by
  rw [Projection.mem_prices,mirrors.consistent.tallied,Projection.tally,atPrice_mirrored mirrors]
  simp only [Multiset.coe_eq_zero,List.map_eq_nil_iff]
  by_cases none : (resting book side).filter (fun e => e.priceTicks = priceTicks) = []
  · simp only [if_pos none,Option.isSome_none,Bool.false_eq_true,false_iff]
    rintro ⟨e,rests,rfl⟩
    simpa using List.filter_eq_nil_iff.mp none e rests
  · simp only [if_neg none,Option.isSome_some,true_iff]
    obtain ⟨e,inside⟩ := List.exists_mem_of_ne_nil _ none
    obtain ⟨rests,same⟩ := List.mem_filter.mp inside
    exact ⟨e,rests,by simpa using same⟩

/-- The projection lists the prices of a side as the engine does. -/
theorem bids_mirrored (good : Good book) (mirrors : Mirrors shown (resting book)) :
    levelPrices book .Buy = (shown.prices .Buy).reverse := by
  refine levelPrices_unique good ?_ ?_
  · rw [List.pairwise_reverse]
    refine (Projection.prices_ascend shown .Buy).imp ?_
    intro a b less
    simpa [priceRanksFirst] using less
  · intro priceTicks
    rw [List.mem_reverse,mem_prices_mirrored mirrors]

theorem asks_mirrored (good : Good book) (mirrors : Mirrors shown (resting book)) :
    levelPrices book .Sell = shown.prices .Sell := by
  refine levelPrices_unique good ?_ (mem_prices_mirrored mirrors .Sell)
  refine (Projection.prices_ascend shown .Sell).imp ?_
  intro a b less
  simpa [priceRanksFirst] using less

theorem restingCount_mirrored (mirrors : Mirrors shown (resting book)) :
    restingCount shown = (resting book .Buy).length + (resting book .Sell).length := by
  have count := congrArg Multiset.card mirrors.tracked
  rw [card_trackedOf] at count
  rw [← count,restingCount,Finmap.keys,Finset.card_mk]
  exact Multiset.card_map _ _

/-- The answer shows the levels of the engine, best first. -/
theorem getBook_mirrored (good : Good book) {app : AppState} (mirrors : Mirrors app.book (resting book)) (query : Option Nat) :
    getBook app query =
      ⟨((levelPrices book .Buy).take (depthOf query)).map (levelOf book .Buy),
        ((levelPrices book .Sell).take (depthOf query)).map (levelOf book .Sell),app.book.sequence⟩ := by
  rw [getBook,mirrors.consistent.snapshot_totals,bids_mirrored good mirrors,asks_mirrored good mirrors,
    List.map_congr_left (fun p _ => total_mirrored mirrors .Buy p),List.map_congr_left (fun p _ => total_mirrored mirrors .Sell p)]

/-- No total of a level wraps. -/
theorem levelOf_exact (good : Good book) (side : Side) (priceTicks : UInt64) :
    (levelOf book side priceTicks).quantity.toNat =
        (((resting book side).filter (fun e => e.priceTicks = priceTicks)).map (fun e => e.remainingQty.toNat)).sum ∧
      (levelOf book side priceTicks).orders.toNat = ((resting book side).filter (fun e => e.priceTicks = priceTicks)).length := by
  have total := (resting_total_le good side).1
  have size : maxOrders.size ≤ 4294967295 := maxOrders.addressable
  have fewer := List.length_filter_le (fun e => decide (e.priceTicks = priceTicks)) (resting book side)
  rw [levelOf]
  generalize (resting book side).filter (fun e => decide (e.priceTicks = priceTicks)) = here at fewer ⊢
  have few : (↑(here.map (tracked side)) : Multiset Projection.RestingOrder).card < 2^32 := by
    rw [Multiset.coe_card,List.length_map]
    omega
  have less := Projection.quantityOf_lt few
  rw [quantityOf,Multiset.map_coe,Multiset.sum_coe,List.map_map] at less
  rw [Multiset.coe_card,List.length_map] at few
  exact ⟨UInt64.toNat_ofNat_of_lt' less,UInt32.toNat_ofNat_of_lt' few⟩

end

section
variable {maxOrders maxPriceLevels : PoolCapacity} {start s : System maxOrders maxPriceLevels}

/-- After the events of the first commands the projection mirrors the engine. -/
theorem mirrors_after (opened : Opened start) (empty : ∀ side, resting start.engine.book side = []) (blank : start.app.book = {})
    (leads : Leads System.traffic Matched start s) {k : Nat} (handled : s.applied = (s.processed.take k).flatMap emitted) :
    ∃ outcomes engine, run start.engine (commandsOf (s.processed.take k)) = some (outcomes,engine) ∧ Good engine.book ∧
      Mirrors s.app.book (resting engine.book) := by
  obtain ⟨market,shown⟩ := Opened.shows opened
  have nobody : ∀ side, market.exchange.walks side = [] := by
    intro side
    rw [← shown.walks]
    exact empty side
  have issued : Issued start := by
    constructor
    · rw [opened.requests]
      exact List.nodup_nil
    · rw [opened.requests]
      intro id inside
      cases inside
  have initial : Projected start := by
    constructor
    · intro id entry found
      rw [opened.inflight] at found
      cases found
    · rw [blank,opened.applied]
      rfl
  have all : Traced market s ∧ Issued s ∧ Projected s ∧ AllSmooth maxOrders maxPriceLevels market s.processed := by
    refine leads.keeps (P := fun s => Traced market s ∧ Issued s ∧ Projected s ∧
      AllSmooth maxOrders maxPriceLevels market s.processed) ⟨opened.traced shown,issued,initial,?_⟩ ?_
    · rw [opened.processed]
      trivial
    · rintro s event s' ⟨traced,issued,projected,smooth⟩ may ran
      exact ⟨traced.step ran,issued.step ran,projected.step traced may ran,
        allSmooth_step shown nobody smooth traced issued may ran⟩
  obtain ⟨traced,_,projected,smooth⟩ := all
  -- the commands whose events are handled, apart from the later ones
  have spoken := traced.spoken
  rw [← List.take_append_drop k s.processed,spoken_append] at spoken
  rw [← List.take_append_drop k s.processed,allSmooth_append] at smooth
  have initially : Mirrors {} market.exchange.walks := by
    refine ⟨Projection.consistent_new,?_⟩
    rw [trackedOf,nobody,nobody]
    rfl
  have mirrors := project_mirrors shown initially spoken.1 smooth.1
  rw [← handled,← projected.book,marketAfter_eq] at mirrors
  obtain ⟨engine,ran,shown'⟩ := run_shows shown (commandsOf (s.processed.take k))
  refine ⟨_,engine,ran,shown'.sound.good,?_⟩
  rw [funext shown'.walks]
  exact mirrors

/-- Once the events of the first commands are handled, `get_book` answers with the book
    of the engine after these commands: its levels as the engine walks them, from the
    best on, as many as asked for (15 if nothing is, and always between one and a
    thousand), with no total that wraps, and the count of resting orders is its number of
    orders. -/
theorem get_book_is_engine_book (opened : Opened start) (empty : ∀ side, resting start.engine.book side = [])
    (blank : start.app.book = {}) (leads : Leads System.traffic Matched start s) {k : Nat}
    (handled : s.applied = (s.processed.take k).flatMap emitted) :
    ∃ outcomes engine, run start.engine (commandsOf (s.processed.take k)) = some (outcomes,engine) ∧
      (∀ query, getBook s.app query =
        ⟨((levelPrices engine.book .Buy).take (depthOf query)).map (levelOf engine.book .Buy),
          ((levelPrices engine.book .Sell).take (depthOf query)).map (levelOf engine.book .Sell),s.app.book.sequence⟩) ∧
      (∀ side priceTicks, (levelOf engine.book side priceTicks).quantity.toNat =
          (((resting engine.book side).filter (fun e => e.priceTicks = priceTicks)).map (fun e => e.remainingQty.toNat)).sum ∧
        (levelOf engine.book side priceTicks).orders.toNat =
          ((resting engine.book side).filter (fun e => e.priceTicks = priceTicks)).length) ∧
      restingCount s.app.book = (resting engine.book .Buy).length + (resting engine.book .Sell).length := by
  obtain ⟨outcomes,engine,ran,good,mirrors⟩ := mirrors_after opened empty blank leads handled
  exact ⟨outcomes,engine,ran,getBook_mirrored good mirrors,levelOf_exact good,restingCount_mirrored mirrors⟩

/-- Two bids at one price and an ask that takes part of the first. -/
def layered : List Traffic :=
  .postOrder (Correlation.order "buy" 100 5 5) :: Correlation.submit 0 ++
    .postOrder (Correlation.order "buy" 100 4 6) :: Correlation.submit 1 ++
    .postOrder (Correlation.order "sell" 100 3 7) :: Correlation.submit 2 ++
    [.forward,.forward,.forward,.process,.process,.process,.handle 0,.handle 0,.handle 0,.handle 0]

theorem get_book_is_engine_book_layered :
    ∃ s : System .four .four, Leads System.traffic Matched Correlation.opened s ∧ restingCount s.app.book = 2 ∧
      ∃ outcomes engine, run Correlation.opened.engine (commandsOf s.processed) = some (outcomes,engine) ∧
        (∀ query, getBook s.app query =
          ⟨((levelPrices engine.book .Buy).take (depthOf query)).map (levelOf engine.book .Buy),
            ((levelPrices engine.book .Sell).take (depthOf query)).map (levelOf engine.book .Sell),s.app.book.sequence⟩) ∧
        (resting engine.book .Buy).length + (resting engine.book .Sell).length = 2 := by
  have ran : (follow System.traffic Matched Correlation.opened layered).map
      (fun s => (decide (s.applied = (s.processed.take 3).flatMap emitted),s.processed.length,restingCount s.app.book)) =
        some (true,3,2) := by
    decide +kernel
  obtain ⟨s,followed,result⟩ := Option.map_eq_some_iff.mp ran
  obtain ⟨handled,rest⟩ := Prod.mk.inj result
  obtain ⟨three,two⟩ := Prod.mk.inj rest
  have leads := follow_leads followed
  have empty : ∀ side, resting Correlation.opened.engine.book side = [] := by
    have shown : Shows (MatchingEngine.new : MatchingEngine .four .four) Market.empty := shows_new
    exact shown.walks
  obtain ⟨outcomes,engine,ran',shows,_,count⟩ :=
    get_book_is_engine_book Correlation.opened_opened empty rfl leads (of_decide_eq_true handled)
  rw [List.take_of_length_le (Nat.le_of_eq three)] at ran'
  exact ⟨s,leads,two,outcomes,engine,ran',shows,count.symm.trans two⟩
end

end HyperMatch.Depth
