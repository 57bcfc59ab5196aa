import HyperMatch.Conservation
import HyperMatch.Journaling
import HyperMatch.Retirement

/-!
The projection of the gateway against the book of the engine. The events of a command
do to the projection what the command does to the market: each trade of a sweep takes
from the order that it met, and the acknowledgement puts to rest what the trades have
left (`project_mirrors`). It needs that the engine refuses no remainder, and that no
new order has the identifier of a resting one.
-/
namespace HyperMatch.Mirror
open HyperMatch.Wire HyperMatch.Matching HyperMatch.MatchingEngine HyperMatch.BookLayout HyperMatch.Streams
open HyperMatch.OrderBook (PoolCapacity)
open HyperMatch.Projection (RestingOrder Level Orders Consistent Few atPrice tally saturatingSub32 entries_erase
  entries_reinsert mem_entries few_of_card)

variable {maxOrders maxPriceLevels : PoolCapacity}

/-! ### Two books -/

/-- What the projection holds of an order that rests on a side. -/
def asTracked (s : Side) (e : Entry) : Sigma (fun _ : UInt64 => RestingOrder) :=
  ⟨e.orderId,⟨s,e.priceTicks,e.remainingQty⟩⟩

def trackedOf (walks : Side → List Entry) : Multiset (Sigma (fun _ : UInt64 => RestingOrder)) :=
  ↑((walks .Buy).map (asTracked .Buy)) + ↑((walks .Sell).map (asTracked .Sell))

structure Mirrors (book : Projection.OrderBook) (walks : Side → List Entry) : Prop where
  consistent : Consistent book
  tracked : book.orders.entries = trackedOf walks

theorem trackedOf_side (walks : Side → List Entry) (s : Side) :
    trackedOf walks = ↑((walks s).map (asTracked s)) + ↑((walks (opposite s)).map (asTracked (opposite s))) := by
  cases s with
  | Buy => rfl
  | Sell => exact add_comm _ _

theorem card_trackedOf (walks : Side → List Entry) :
    (trackedOf walks).card = (walks .Buy).length + (walks .Sell).length := by
  rw [trackedOf,Multiset.card_add,Multiset.coe_card,Multiset.coe_card,List.length_map,List.length_map]

/-- One order of the projection and the others. -/
theorem entries_split {orders : Orders} {id : UInt64} {order : RestingOrder}
    {others : Multiset (Sigma (fun _ : UInt64 => RestingOrder))} (split : orders.entries = ⟨id,order⟩ ::ₘ others) :
    orders.lookup id = some order ∧ (orders.erase id).entries = others := by
  have found : orders.lookup id = some order := by
    rw [← mem_entries,split]
    exact Multiset.mem_cons_self _ _
  refine ⟨found,?_⟩
  rw [entries_erase found] at split
  exact Multiset.cons_inj_right _ |>.mp split

/-! ### Trades -/

def applyTrades (book : Projection.OrderBook) (trades : List Trade) : Projection.OrderBook :=
  trades.foldl (fun book t => book.applyTrade t.restingId t.quantity) book

section
variable {book : Projection.OrderBook}

/-- The trades of a sweep leave of the projection what the sweep leaves of the walk. -/
theorem applyTrades_sweep (incoming : NewOrder) (s : Side) (others : Multiset (Sigma (fun _ : UInt64 => RestingOrder)))
    {walk : List Entry} (execSeq : UInt64) (remaining : UInt32) (consistent : Consistent book)
    (tracked : book.orders.entries = ↑(walk.map (asTracked s)) + others) (few : book.orders.entries.card < 2^32) :
    Consistent (applyTrades book (sweep incoming walk execSeq remaining).1) ∧
      (applyTrades book (sweep incoming walk execSeq remaining).1).orders.entries =
        ↑((sweep incoming walk execSeq remaining).2.2.map (asTracked s)) + others := by
  induction walk generalizing book execSeq remaining with
  | nil => exact ⟨consistent,tracked⟩
  | cons e rest ih =>
    have split : book.orders.entries = asTracked s e ::ₘ (↑(rest.map (asTracked s)) + others) := by
      rw [tracked,List.map_cons,← Multiset.cons_coe,Multiset.cons_add]
    obtain ⟨found,erased⟩ := entries_split split
    have value := stdMin_toNat remaining e.remainingQty
    have numbers := (sub_stdMin_toNat remaining e.remainingQty).2
    rcases sweep_cons incoming e rest execSeq remaining with ⟨_,_,gone,swept⟩ | ⟨_,_,kept,swept⟩ | ⟨_,swept⟩
    · -- The front order is consumed: the projection removes it.
      have all : e.remainingQty ≤ stdMin remaining e.remainingQty := by
        rw [gone,UInt32.toNat_zero] at numbers
        rw [UInt32.le_iff_toNat_le]
        omega
      have removed : book.applyTrade e.orderId (stdMin remaining e.remainingQty) = book.remove e.orderId :=
        Projection.applyTrade_emptied found all
      have fewer : (book.remove e.orderId).orders.entries.card < 2^32 := by
        rw [Projection.remove_orders,erased]
        rw [split,Multiset.card_cons] at few
        omega
      rw [swept]
      change Consistent (applyTrades (book.applyTrade e.orderId (stdMin remaining e.remainingQty)) _) ∧
        (applyTrades (book.applyTrade e.orderId (stdMin remaining e.remainingQty)) _).orders.entries = _
      rw [removed]
      refine ih _ _ (consistent.remove (few_of_card few) e.orderId) ?_ fewer
      rw [Projection.remove_orders,erased]
    · -- The front order is reduced and stays.
      have less : stdMin remaining e.remainingQty < e.remainingQty := by
        rw [UInt32.lt_iff_toNat_lt]
        have positive : (e.remainingQty - stdMin remaining e.remainingQty).toNat ≠ 0 := by
          intro zero
          exact kept (UInt32.toNat_inj.mp zero)
        omega
      rw [swept]
      refine ⟨consistent.applyTrade (few_of_card few) _ _,?_⟩
      change (book.applyTrade e.orderId (stdMin remaining e.remainingQty)).orders.entries = _
      rw [Projection.applyTrade_orders found less,entries_reinsert,erased,List.map_cons,← Multiset.cons_coe,
        Multiset.cons_add]
      rfl
    · rw [swept]
      exact ⟨consistent,tracked⟩
end

/-- The quantity of some trades, as the gateway adds it up. -/
theorem sum_quantities (trades : List Trade) (fits : traded trades < 2^32) :
    ((trades.map Trade.quantity).sum).toNat = traded trades := by
  induction trades with
  | nil => rfl
  | cons t rest ih =>
    have total : traded (t :: rest) = t.quantity.toNat + traded rest := by simp [traded,tradedBy]
    rw [total] at fits ⊢
    rw [List.map_cons,List.sum_cons,UInt32.toNat_add,ih (by omega),Nat.mod_eq_of_lt fits]

/-- What is left of an order when its trades are subtracted. -/
theorem left_of_trades (ex : Exchange) (incoming : NewOrder) :
    saturatingSub32 incoming.quantity (((ex.sweptBy incoming).1.map Trade.quantity).sum) = (ex.sweptBy incoming).2.1 := by
  have whole := sweptBy_traded ex incoming
  have bound := UInt32.toNat_lt incoming.quantity
  have sum := sum_quantities (ex.sweptBy incoming).1 (by omega)
  have less : ((ex.sweptBy incoming).1.map Trade.quantity).sum ≤ incoming.quantity := by
    rw [UInt32.le_iff_toNat_le]
    omega
  rw [saturatingSub32,if_pos less,← UInt32.toNat_inj,UInt32.toNat_sub_of_le _ _ less]
  omega

/-! ### Commands -/

section
variable {book : Projection.OrderBook} {ex ex' : Exchange}

theorem mem_trackedOf {walks : Side → List Entry} {id : UInt64} {order : RestingOrder} :
    ⟨id,order⟩ ∈ trackedOf walks ↔
      ∃ e ∈ walks order.side, e.orderId = id ∧ e.priceTicks = order.priceTicks ∧ e.remainingQty = order.remaining := by
  obtain ⟨side,price,remaining⟩ := order
  simp only [trackedOf,Multiset.mem_add,Multiset.mem_coe,List.mem_map,asTracked,Sigma.mk.injEq,heq_eq_eq,
    RestingOrder.mk.injEq]
  cases side with
  | Buy =>
    constructor
    · rintro (⟨e,inside,id,_,price,remaining⟩ | ⟨e,inside,id,⟨⟩,_⟩)
      exact ⟨e,inside,id,price,remaining⟩
    · rintro ⟨e,inside,id,price,remaining⟩
      exact .inl ⟨e,inside,id,rfl,price,remaining⟩
  | Sell =>
    constructor
    · rintro (⟨e,inside,id,⟨⟩,_⟩ | ⟨e,inside,id,_,price,remaining⟩)
      exact ⟨e,inside,id,price,remaining⟩
    · rintro ⟨e,inside,id,price,remaining⟩
      exact .inr ⟨e,inside,id,rfl,price,remaining⟩

theorem Mirrors.newOrder (mirrors : Mirrors book ex.walks) {incoming : NewOrder}
    (few : (ex.walks .Buy).length + (ex.walks .Sell).length < 2^32) (fresh : incoming.orderId ∉ idsOf ex.walks)
    (kept : ex.dropped maxOrders maxPriceLevels incoming = 0) :
    Mirrors ((applyTrades book (ex.sweptBy incoming).1).insertResting incoming.orderId incoming.side incoming.priceTicks
      (ex.sweptBy incoming).2.1) (ex.newOrder maxOrders maxPriceLevels incoming).2.walks := by
  have before : book.orders.entries = ↑((ex.walks (opposite incoming.side)).map (asTracked (opposite incoming.side))) +
      ↑((ex.walks incoming.side).map (asTracked incoming.side)) := by
    rw [mirrors.tracked,trackedOf_side _ incoming.side,add_comm]
  have small : book.orders.entries.card < 2^32 := by rw [mirrors.tracked,card_trackedOf]; exact few
  have swept : Consistent (applyTrades book (ex.sweptBy incoming).1) ∧
      (applyTrades book (ex.sweptBy incoming).1).orders.entries =
        ↑((ex.sweptBy incoming).2.2.map (asTracked (opposite incoming.side))) +
          ↑((ex.walks incoming.side).map (asTracked incoming.side)) :=
    applyTrades_sweep incoming (opposite incoming.side) _ ex.nextExecSeq incoming.quantity mirrors.consistent before small
  obtain ⟨consistent,tracked⟩ := swept
  have own : ex.traded incoming incoming.side = ex.walks incoming.side :=
    Function.update_of_ne (opposite_ne incoming.side).symm _ _
  have other : ex.traded incoming (opposite incoming.side) = (ex.sweptBy incoming).2.2 := Function.update_self _ _ _
  have after : Mirrors (applyTrades book (ex.sweptBy incoming).1) (ex.traded incoming) := by
    refine ⟨consistent,?_⟩
    rw [trackedOf_side _ incoming.side,own,other,add_comm]
    exact tracked
  rcases newOrder_cases maxOrders maxPriceLevels ex incoming with ⟨none,_,walks⟩ | ⟨left,_,lost,_⟩ | ⟨left,_,_,walks⟩
  · rw [none,Projection.insertResting_zero,walks]
    exact after
  · rw [lost] at kept
    rw [UInt32.lt_iff_toNat_lt,UInt32.toNat_zero] at left
    omega
  · have shorter : (ex.sweptBy incoming).2.2.length ≤ (ex.walks (opposite incoming.side)).length := by
      have ids := (sweep_ids incoming (ex.walks (opposite incoming.side)) ex.nextExecSeq incoming.quantity).length_le
      rw [List.length_map,List.length_map] at ids
      exact ids
    have small' : (applyTrades book (ex.sweptBy incoming).1).orders.entries.card < 2^32 := by
      rw [before,Multiset.card_add,Multiset.coe_card,Multiset.coe_card,List.length_map,List.length_map] at small
      rw [tracked,Multiset.card_add,Multiset.coe_card,Multiset.coe_card,List.length_map,List.length_map]
      exact Nat.lt_of_le_of_lt (Nat.add_le_add_right shorter _) small
    have missing : (applyTrades book (ex.sweptBy incoming).1).orders.lookup incoming.orderId = none := by
      cases found : (applyTrades book (ex.sweptBy incoming).1).orders.lookup incoming.orderId with
      | none => rfl
      | some order =>
        rw [← mem_entries,after.tracked,mem_trackedOf] at found
        obtain ⟨e,inside,same,_⟩ := found
        refine absurd (mem_idsOf.mpr ?_) fresh
        by_cases side : order.side = opposite incoming.side
        · rw [side,other] at inside
          obtain ⟨old,inWalk,equal,_⟩ := sweep_entries incoming inside
          exact ⟨_,old,inWalk,by rw [← same,← equal]⟩
        · rw [Exchange.traded,Function.update_of_ne side] at inside
          exact ⟨_,e,inside,same⟩
    refine ⟨after.consistent.insertResting (few_of_card small') _ _ _ _,?_⟩
    rw [Projection.insertResting_orders left,Projection.erase_missing missing,Projection.entries_insert missing,
      after.tracked,walks,trackedOf_side _ incoming.side,trackedOf_side _ incoming.side,Function.update_self,
      Function.update_of_ne (opposite_ne incoming.side),own]
    have sorted : ((↑(((ex.walks incoming.side).orderedInsert (Outranks incoming.side)
        (remainder incoming (ex.sweptBy incoming).2.1)).map (asTracked incoming.side))) :
        Multiset (Sigma (fun _ : UInt64 => RestingOrder))) =
        asTracked incoming.side (remainder incoming (ex.sweptBy incoming).2.1) ::ₘ
          ↑((ex.walks incoming.side).map (asTracked incoming.side)) := by
      rw [Multiset.cons_coe,Multiset.coe_eq_coe,← List.map_cons]
      exact (List.perm_orderedInsert _ _ _).map _
    rw [sorted,Multiset.cons_add]
    rfl

theorem Mirrors.cancel (mirrors : Mirrors book ex.walks) (few : (ex.walks .Buy).length + (ex.walks .Sell).length < 2^32)
    {orderId : UInt64} {e : Entry} (taken : ex.cancel orderId = (some e,ex')) : Mirrors (book.remove orderId) ex'.walks := by
  obtain ⟨rfl,s,xs,ys,split,walks⟩ := cancel_some taken
  have small : book.orders.entries.card < 2^32 := by rw [mirrors.tracked,card_trackedOf]; exact few
  have before : book.orders.entries = asTracked s e ::ₘ trackedOf ex'.walks := by
    rw [mirrors.tracked,trackedOf_side _ s,trackedOf_side ex'.walks s,walks,Function.update_self,
      Function.update_of_ne (opposite_ne s),split,← Multiset.cons_add,Multiset.cons_coe]
    congr 1
    rw [Multiset.coe_eq_coe,List.map_append,List.map_append,List.map_cons]
    exact List.perm_middle
  refine ⟨mirrors.consistent.remove (few_of_card small) e.orderId,?_⟩
  rw [Projection.remove_orders]
  exact (entries_split before).2
end

/-! ### Event streams -/

/-- What the terminator of a command does to the book, given its trades. -/
def settled (book : Projection.OrderBook) (trades : List Trade) : Command → BinaryMessage → Projection.OrderBook
  | .newOrder m,.ack ⟨_,.Accepted⟩ =>
    book.insertResting m.orderId m.side m.priceTicks (saturatingSub32 m.quantity ((trades.map Trade.quantity).sum))
  | .cancelOrder c,.ack ⟨_,.Cancelled⟩ => book.remove c.orderId
  | _,_ => book

/-- The book after an event, and the trades since the last terminator. -/
def project (acc : Projection.OrderBook × List Trade) (p : Frame × BinaryMessage) : Projection.OrderBook × List Trade :=
  match p.2 with
  | .trade t => (acc.1.applyTrade t.restingId t.quantity,acc.2 ++ [t])
  | msg => (settled acc.1 acc.2 p.1.command msg,[])

def projectAll (acc : Projection.OrderBook × List Trade) (events : List (Frame × BinaryMessage)) :
    Projection.OrderBook × List Trade := events.foldl project acc

theorem projectAll_append (acc : Projection.OrderBook × List Trade) (events later : List (Frame × BinaryMessage)) :
    projectAll acc (events ++ later) = projectAll (projectAll acc events) later := List.foldl_append

theorem projectAll_trades (frame : Frame) (acc : Projection.OrderBook × List Trade) (trades : List Trade) :
    projectAll acc ((trades.map BinaryMessage.trade).map (frame,·)) = (applyTrades acc.1 trades,acc.2 ++ trades) := by
  induction trades generalizing acc with
  | nil => simp [projectAll,applyTrades]
  | cons t rest ih =>
    rw [List.map_cons,List.map_cons,projectAll,List.foldl_cons]
    refine (ih _).trans ?_
    simp [project,applyTrades]

theorem project_terminator {frame : Frame} {msg : BinaryMessage} (terminator : Terminator frame.command msg)
    (acc : Projection.OrderBook × List Trade) : project acc (frame,msg) = (settled acc.1 acc.2 frame.command msg,[]) := by
  have none := Correlation.fillOf_terminator terminator
  cases msg with
  | trade t => cases none
  | _ => rfl

/-- A command that is answered leaves no trades over. -/
theorem projectAll_answered {p : Frame × List BinaryMessage} (answered : Answered p.1.command p.2)
    (acc : Projection.OrderBook × List Trade) : (projectAll acc (emitted p)).2 = [] := by
  obtain ⟨frame,events⟩ := p
  obtain ⟨trades,terminator,rfl,_,last⟩ := answered
  rw [emitted,List.map_append,projectAll_append,List.map_singleton]
  change (project _ (frame,terminator)).2 = []
  rw [project_terminator last]

theorem projectAll_log {log : List (Frame × List BinaryMessage)} (answered : ∀ p ∈ log, Answered p.1.command p.2)
    (book : Projection.OrderBook) : (projectAll (book,[]) (log.flatMap emitted)).2 = [] := by
  rcases List.eq_nil_or_concat log with rfl | ⟨before,p,rfl⟩
  · rfl
  · rw [List.concat_eq_append,List.flatMap_append,projectAll_append,List.flatMap_singleton]
    refine projectAll_answered (answered p ?_) _
    simp

/-! ### The market and the projection -/

/-- A new order that is accepted has an identifier that nobody has, and the pools
    refuse nothing of it. -/
def Smooth (maxOrders maxPriceLevels : PoolCapacity) (market : Market) : Command → Prop
  | .newOrder m => validateNewOrder m = none →
      m.orderId ∉ idsOf market.exchange.walks ∧ market.exchange.dropped maxOrders maxPriceLevels m = 0
  | .cancelOrder _ => True

def AllSmooth (maxOrders maxPriceLevels : PoolCapacity) (market : Market) : List (Frame × List BinaryMessage) → Prop
  | [] => True
  | p :: rest => Smooth maxOrders maxPriceLevels market p.1.command ∧
      AllSmooth maxOrders maxPriceLevels (market.step maxOrders maxPriceLevels p.1.command).2 rest

theorem allSmooth_append (market : Market) (log later : List (Frame × List BinaryMessage)) :
    AllSmooth maxOrders maxPriceLevels market (log ++ later) ↔ AllSmooth maxOrders maxPriceLevels market log ∧
      AllSmooth maxOrders maxPriceLevels (marketAfter maxOrders maxPriceLevels market log) later := by
  induction log generalizing market with
  | nil => simp [AllSmooth,marketAfter]
  | cons p rest ih =>
    rw [List.cons_append,AllSmooth,AllSmooth,ih,and_assoc]
    rfl

section
variable {engine : MatchingEngine maxOrders maxPriceLevels} {market : Market} {book : Projection.OrderBook}

/-- A market that an engine shows has no more orders than its pool. -/
theorem shown_few (shown : Shows engine market) :
    (market.exchange.walks .Buy).length + (market.exchange.walks .Sell).length < 2^32 := by
  have total := (Processing.resting_total_le shown.sound.good .Buy).1
  rw [shown.walks,shown.walks] at total
  have size : maxOrders.size ≤ 4294967295 := maxOrders.addressable
  exact Nat.lt_of_le_of_lt total (by omega)

/-- The events of one command do to the projection what the command does to the
    market. -/
theorem project_mirrors_step (shown : Shows engine market) (mirrors : Mirrors book market.exchange.walks) (frame : Frame)
    (smooth : Smooth maxOrders maxPriceLevels market frame.command) :
    Mirrors (projectAll (book,[]) (emitted (frame,eventsOf frame.command
      (market.step maxOrders maxPriceLevels frame.command).1))).1
      (market.step maxOrders maxPriceLevels frame.command).2.exchange.walks := by
  obtain ⟨command,owner⟩ := frame
  cases command with
  | newOrder m =>
    simp only [Market.step,Market.newOrder] at smooth ⊢
    cases valid : validateNewOrder m with
    | some reason => exact mirrors
    | none =>
      obtain ⟨fresh,kept⟩ := smooth valid
      have next := mirrors.newOrder (shown_few shown) fresh kept
      have events : emitted ((⟨.newOrder m,owner⟩ : Frame),eventsOf (.newOrder m)
          { accepted := true, trades := (market.exchange.newOrder maxOrders maxPriceLevels m).1 }) =
          ((market.exchange.sweptBy m).1.map BinaryMessage.trade).map ((⟨.newOrder m,owner⟩ : Frame),·) ++
            [(⟨.newOrder m,owner⟩,.ack ⟨m.orderId,.Accepted⟩)] := by
        simp [emitted,eventsOf,Exchange.newOrder]
      rw [← left_of_trades] at next
      rw [events,projectAll_append,projectAll_trades]
      exact next
  | cancelOrder c =>
    simp only [Market.step,Market.cancelOrder]
    cases taken : market.exchange.cancel c.orderId with
    | mk found exchange =>
      cases found with
      | none => exact mirrors
      | some e => exact mirrors.cancel (shown_few shown) taken

/-- The events of a whole conversation do to the projection what its commands do to
    the market. -/
theorem project_mirrors (shown : Shows engine market) (mirrors : Mirrors book market.exchange.walks)
    {log : List (Frame × List BinaryMessage)} (spoken : Spoken maxOrders maxPriceLevels market log)
    (smooth : AllSmooth maxOrders maxPriceLevels market log) :
    Mirrors (projectAll (book,[]) (log.flatMap emitted)).1
      (marketAfter maxOrders maxPriceLevels market log).exchange.walks := by
  induction log generalizing market engine book with
  | nil => exact mirrors
  | cons p rest ih =>
    obtain ⟨frame,events⟩ := p
    obtain ⟨answer,later⟩ := spoken
    obtain ⟨first,others⟩ := smooth
    have told : events = eventsOf frame.command (market.step maxOrders maxPriceLevels frame.command).1 := answer
    subst told
    obtain ⟨engine',_,shown'⟩ := step_shows shown frame.command
    have next := project_mirrors_step shown mirrors frame first
    have cleared := projectAll_answered (p := (frame,_)) (answered_of_shows shown frame.command) (book,[])
    rw [List.flatMap_cons,projectAll_append]
    have same : projectAll (book,[]) (emitted (frame,eventsOf frame.command
        (market.step maxOrders maxPriceLevels frame.command).1)) = ((projectAll (book,[]) (emitted (frame,eventsOf
          frame.command (market.step maxOrders maxPriceLevels frame.command).1))).1,[]) := Prod.ext rfl cleared
    rw [same]
    exact ih shown' next later others
end

end HyperMatch.Mirror
