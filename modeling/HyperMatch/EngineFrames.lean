import HyperMatch.Conservation

/-!
What a call on the matching engine leaves alone, in every state that the engine
reaches. A cancellation takes one order out of the book or changes nothing. An order
that finds no room in the pools has not traded, and the engine is as it was; the
integrity guard, which restores only the book, takes such an order back in full.
-/
namespace HyperMatch.Processing
open HyperMatch.Wire HyperMatch.OrderBook HyperMatch.BookLayout HyperMatch.MatchingEngine HyperMatch.Matching

variable {maxOrders maxPriceLevels : PoolCapacity}

/-! ### Reached engines -/

/-- The engines that any calls reach: both overloads of `process_new_order`, the first
    one also with orders that nobody validated, `process_cancel_order`, and the two
    calls of the processor's initialisation. -/
inductive Reached : MatchingEngine maxOrders maxPriceLevels → Prop
  | new : Reached MatchingEngine.new
  | newOrder {engine engine' : MatchingEngine maxOrders maxPriceLevels} {m : NewOrder} {trades : List Trade}
      (reached : Reached engine) (ran : engine.processNewOrder m = some (trades,engine')) : Reached engine'
  | newOrderChecked {engine engine' : MatchingEngine maxOrders maxPriceLevels} {m : NewOrder} {outcome : Outcome}
      (reached : Reached engine) (ran : engine.processNewOrderChecked m = some (outcome,engine')) : Reached engine'
  | cancelOrder {engine engine' : MatchingEngine maxOrders maxPriceLevels} {c : CancelOrder} {outcome : Outcome}
      (reached : Reached engine) (ran : engine.processCancelOrder c = some (outcome,engine')) : Reached engine'
  | clearRetired {engine : MatchingEngine maxOrders maxPriceLevels} (reached : Reached engine) :
      Reached engine.clearRetired
  | clearBook {engine : MatchingEngine maxOrders maxPriceLevels} (reached : Reached engine) :
      Reached { engine with book := engine.book.clear }

/-- What every reached engine keeps. -/
structure Settled (engine : MatchingEngine maxOrders maxPriceLevels) : Prop where
  sound : Sound engine
  uncrossed : Uncrossed (resting engine.book)

section
variable {engine engine' : MatchingEngine maxOrders maxPriceLevels}

theorem Settled.newOrder (settled : Settled engine) (m : NewOrder) :
    ∃ engine', engine.processNewOrder m =
        some (((view engine).newOrder maxOrders maxPriceLevels m).1,engine') ∧ Settled engine' ∧
      view engine' = ((view engine).newOrder maxOrders maxPriceLevels m).2 := by
  obtain ⟨engine',ran,sound',viewed,-⟩ := processNewOrder_spec settled.sound m
  refine ⟨engine',ran,⟨sound',?_⟩,viewed⟩
  have walks : resting engine'.book = ((view engine).newOrder maxOrders maxPriceLevels m).2.walks :=
    congrArg Exchange.walks viewed
  have before : Uncrossed (view engine).walks := settled.uncrossed
  rw [walks]
  exact newOrder_uncrossed before (resting_sorted settled.sound.good) maxOrders maxPriceLevels m

theorem Settled.fewer (settled : Settled engine) (sound' : Sound engine')
    (old : ∀ s, ∀ e ∈ resting engine'.book s, e ∈ resting engine.book s) : Settled engine' :=
  ⟨sound',fun bid inBids ask inAsks => settled.uncrossed bid (old _ bid inBids) ask (old _ ask inAsks)⟩

theorem Reached.settled (reached : Reached engine) : Settled engine := by
  induction reached with
  | new => exact ⟨orderly_new.sound,orderly_new.uncrossed⟩
  | @newOrder _ _ m _ _ ran settled =>
    obtain ⟨after,ran',settled',-⟩ := settled.newOrder m
    cases ran.symm.trans ran'
    exact settled'
  | @newOrderChecked _ _ m _ _ ran settled =>
    rcases processNewOrderChecked_spec settled.sound m with ⟨_,_,refused⟩ | ⟨valid,_⟩
    · cases ran.symm.trans refused
      exact settled
    · obtain ⟨after,ran',settled',-⟩ := settled.newOrder m
      simp only [processNewOrderChecked,valid,ran',Option.bind_eq_bind,Option.bind_some] at ran
      cases ran
      exact settled'
  | @cancelOrder _ _ c _ _ ran settled =>
    rcases processCancelOrder_spec settled.sound c with ⟨e,after,ran',sound',taken,-⟩ | ⟨_,_,ran',_⟩
    · cases ran.symm.trans ran'
      exact settled.fewer sound' (fun s a inside => cancel_entries taken inside)
    · cases ran.symm.trans ran'
      exact settled
  | @clearRetired engine _ settled =>
    exact ⟨⟨settled.sound.good,settled.sound.positive,_,RetiredIdSet.records_clear maxOrders.positive engine.retired⟩,
      settled.uncrossed⟩
  | @clearBook engine _ settled =>
    have empty : ∀ s, resting engine.book.clear s = [] := fun s => congrFun (kept_clear engine.book).resting_eq s
    refine ⟨⟨(kept_clear engine.book).good,?_,settled.sound.retired⟩,?_⟩
    · intro s e inside
      rw [empty s] at inside
      cases inside
    · intro bid inside
      rw [empty .Buy] at inside
      cases inside
end

/-! ### Levels -/

/-- The prices of a side's levels, best first. -/
def levelPrices (book : OrderBook maxOrders maxPriceLevels) (s : Side) : List UInt64 := (levelsOf book s).map (priceAt book)

section
variable {book book' : OrderBook maxOrders maxPriceLevels}

theorem levelPrices_eq (book : OrderBook maxOrders maxPriceLevels) (s : Side) :
    levelPrices book s = ((layoutOf book) s).map (fun e => priceAt book e.1) := by
  simp [levelPrices,layoutOf,List.map_map,Function.comp_def]

theorem levelPrices_ranked (good : Good book) (s : Side) :
    (levelPrices book s).Pairwise (fun a b => priceRanksFirst s a b = true) := by
  have ranked := (good.shaped.sides s).ranked
  rw [levelPrices_eq book]
  rw [List.pairwise_map] at ranked ⊢
  exact ranked

theorem mem_levelPrices (good : Good book) (s : Side) (price : UInt64) :
    price ∈ levelPrices book s ↔ ∃ e ∈ resting book s, e.priceTicks = price := by
  have members := mem_prices good s price
  rw [List.mem_map] at members
  rw [levelPrices_eq book,List.mem_map]
  exact members.symm

theorem ranked_nodup {s : Side} {prices : List UInt64}
    (ranked : prices.Pairwise (fun a b => priceRanksFirst s a b = true)) : prices.Nodup := by
  refine ranked.imp ?_
  rintro a _ first rfl
  exact ranksFirst_irrefl s a first

/-- The levels of a side are known from their prices. -/
theorem levelPrices_unique (good : Good book) {s : Side} {prices : List UInt64}
    (ranked : prices.Pairwise (fun a b => priceRanksFirst s a b = true))
    (same : ∀ price, price ∈ prices ↔ ∃ e ∈ resting book s, e.priceTicks = price) : levelPrices book s = prices := by
  have order := levelPrices_ranked good s
  have perm : (levelPrices book s).Perm prices := by
    rw [List.perm_ext_iff_of_nodup (ranked_nodup order) (ranked_nodup ranked)]
    intro price
    rw [mem_levelPrices good,same]
  exact perm.eq_of_pairwise (fun a b _ _ ab ba => absurd ba (ranksFirst_asymm ab)) order ranked
end

/-! ### Cancellation -/

section
variable {engine engine' : MatchingEngine maxOrders maxPriceLevels}

/-- The levels after one order has left its walk: all of them while its price is still
    there, else all but its own. -/
theorem levelPrices_without (good : Good engine.book) (good' : Good engine'.book) {s : Side} {xs ys : List Entry} {e : Entry}
    (split : resting engine.book s = xs ++ e :: ys)
    (walks : resting engine'.book = Function.update (resting engine.book) s (xs ++ ys)) :
    levelPrices engine'.book (opposite s) = levelPrices engine.book (opposite s) ∧
      levelPrices engine'.book s =
        if ∃ a ∈ xs ++ ys, a.priceTicks = e.priceTicks then levelPrices engine.book s
        else (levelPrices engine.book s).erase e.priceTicks := by
  have here : resting engine'.book s = xs ++ ys := by rw [walks,Function.update_self]
  have members : ∀ a, a ∈ resting engine.book s ↔ a = e ∨ a ∈ xs ++ ys := by
    intro a
    rw [split,List.perm_middle.mem_iff,List.mem_cons]
  have ranked := levelPrices_ranked good s
  have distinct : (levelPrices engine.book s).Nodup := ranked_nodup ranked
  constructor
  · refine levelPrices_unique good' (levelPrices_ranked good _) ?_
    intro price
    rw [walks,Function.update_of_ne (opposite_ne s)]
    exact mem_levelPrices good _ price
  · by_cases shared : ∃ a ∈ xs ++ ys, a.priceTicks = e.priceTicks
    · rw [if_pos shared]
      refine levelPrices_unique good' ranked ?_
      intro price
      rw [mem_levelPrices good,here]
      constructor
      · rintro ⟨a,inside,rfl⟩
        rcases (members a).mp inside with rfl | other
        · exact shared
        · exact ⟨a,other,rfl⟩
      · rintro ⟨a,inside,rfl⟩
        exact ⟨a,(members a).mpr (.inr inside),rfl⟩
    · rw [if_neg shared]
      refine levelPrices_unique good' (ranked.sublist List.erase_sublist) ?_
      intro price
      rw [distinct.mem_erase_iff,mem_levelPrices good,here]
      constructor
      · rintro ⟨apart,a,inside,rfl⟩
        rcases (members a).mp inside with rfl | other
        · exact absurd rfl apart
        · exact ⟨a,other,rfl⟩
      · rintro ⟨a,inside,rfl⟩
        exact ⟨fun same => shared ⟨a,inside,same⟩,a,(members a).mpr (.inr inside),rfl⟩

theorem mem_recorded (capacity : Nat) (ids : List UInt64) (id : UInt64) : id ∈ RetiredIdSet.recorded capacity ids id := by
  unfold RetiredIdSet.recorded
  by_cases known : id ∈ ids
  · simp [known]
  · simp [known]

theorem cancel_nextExecSeq (ex : Exchange) (orderId : UInt64) : (ex.cancel orderId).2.nextExecSeq = ex.nextExecSeq := by
  unfold Exchange.cancel
  split
  · rfl
  · split <;> rfl

/-- A cancellation on any reached engine. If some order rests under the identifier, the
    first one leaves the book, bids before asks: the walks lose that entry alone, its
    level goes with it exactly when nobody else is there, the identifier is recorded as
    retired, and one acknowledgement is given. Otherwise the engine stays as it is and
    one reject is given. -/
theorem cancel_touches_one (reached : Reached engine) (c : CancelOrder) :
    (∃ s xs e ys engine', resting engine.book s = xs ++ e :: ys ∧ e.orderId = c.orderId ∧
        (∀ a ∈ xs, a.orderId ≠ c.orderId) ∧ (s = .Sell → ∀ a ∈ resting engine.book .Buy, a.orderId ≠ c.orderId) ∧
        engine.processCancelOrder c = some ({ accepted := true, acks := [⟨c.orderId,.Cancelled⟩] },engine') ∧
        resting engine'.book s = xs ++ ys ∧
        resting engine'.book (opposite s) = resting engine.book (opposite s) ∧
        levelPrices engine'.book s =
          (if ∃ a ∈ xs ++ ys, a.priceTicks = e.priceTicks then levelPrices engine.book s
          else (levelPrices engine.book s).erase e.priceTicks) ∧
        levelPrices engine'.book (opposite s) = levelPrices engine.book (opposite s) ∧
        engine'.nextExecSeq = engine.nextExecSeq ∧ engine'.retired.contains c.orderId = some true) ∨
      ((∀ s, ∀ a ∈ resting engine.book s, a.orderId ≠ c.orderId) ∧
        ∃ reason, engine.processCancelOrder c = some ({ accepted := false, rejects := [⟨c.orderId,reason⟩] },engine)) := by
  have sound := reached.settled.sound
  obtain ⟨ids,records⟩ := sound.retired
  rcases processCancelOrder_spec sound c with ⟨e,engine',ran,sound',taken,retired⟩ | ⟨known,_,ran,missing⟩
  · obtain ⟨matched,s,xs,ys,split,others,noBid,walks⟩ := cancel_first taken
    have split' : resting engine.book s = xs ++ e :: ys := split
    have walks' : resting engine'.book = Function.update (resting engine.book) s (xs ++ ys) := walks
    obtain ⟨farLevels,levels⟩ := levelPrices_without sound.good sound'.good split' walks'
    have execSeq : (view engine').nextExecSeq = (view engine).nextExecSeq := by
      have kept : ((view engine).cancel c.orderId).2.nextExecSeq = (view engine).nextExecSeq := cancel_nextExecSeq _ _
      rw [taken] at kept
      exact kept
    have told := (retired ids records).contains_eq maxOrders.positive c.orderId
    rw [decide_eq_true (mem_recorded maxOrders.size ids c.orderId)] at told
    refine .inl ⟨s,xs,e,ys,engine',split',matched,others,noBid,ran,?_,?_,levels,farLevels,execSeq,told⟩
    · rw [walks',Function.update_self]
    · rw [walks',Function.update_of_ne (opposite_ne s)]
  · refine .inr ⟨?_,_,ran⟩
    intro s
    have nobody : ((view engine).cancel c.orderId).1 = none := by rw [missing]
    exact cancel_none nobody s

/-- Orders one after the other. -/
def enterAll (engine : MatchingEngine maxOrders maxPriceLevels) (orders : List NewOrder) :
    Option (MatchingEngine maxOrders maxPriceLevels) :=
  orders.foldlM (fun engine m => (engine.processNewOrder m).map Prod.snd) engine

theorem Reached.enterAll (reached : Reached engine) {orders : List NewOrder} (ran : enterAll engine orders = some engine') :
    Reached engine' := by
  induction orders generalizing engine with
  | nil =>
    cases ran
    exact reached
  | cons m rest ih =>
    rw [Processing.enterAll,List.foldlM_cons] at ran
    obtain ⟨next,entered,later⟩ := Option.bind_eq_some_iff.mp ran
    obtain ⟨⟨trades,after⟩,processed,rfl⟩ := Option.map_eq_some_iff.mp entered
    exact ih (reached.newOrder processed) later

/-- Three bids at two prices and an ask. -/
def crowd : List NewOrder := [⟨7,.Buy,100,5,3⟩,⟨8,.Buy,100,2,4⟩,⟨9,.Buy,101,1,5⟩,⟨10,.Sell,105,4,6⟩]

/-- Where a walk is split at the first order with an identifier. -/
theorem split_first {walk xs ys : List Entry} {e : Entry} {id : UInt64} (split : walk = xs ++ e :: ys) (matched : e.orderId = id)
    (others : ∀ a ∈ xs, a.orderId ≠ id) :
    xs = walk.takeWhile (fun a => a.orderId ≠ id) ∧ e :: ys = walk.dropWhile (fun a => a.orderId ≠ id) := by
  subst split
  have passed : ∀ a ∈ xs, (decide (a.orderId ≠ id)) = true := fun a inside => decide_eq_true (others a inside)
  rw [List.takeWhile_append_of_pos passed,List.dropWhile_append_of_pos passed]
  simp [matched]

/-- One of two bids at a price is cancelled, then the only one at another with its level;
    for the first identifier again there is nothing to cancel. -/
theorem cancel_touches_one_crowd :
    ∃ (engine first second : MatchingEngine .four .four) (reason : RejectReason), enterAll MatchingEngine.new crowd = some engine ∧
      levelPrices engine.book .Buy = [101,100] ∧
      engine.processCancelOrder ⟨8⟩ = some ({ accepted := true, acks := [⟨8,.Cancelled⟩] },first) ∧
      resting first.book .Buy = [⟨9,5,101,1,.Buy⟩,⟨7,3,100,5,.Buy⟩] ∧ levelPrices first.book .Buy = [101,100] ∧
      first.processCancelOrder ⟨9⟩ = some ({ accepted := true, acks := [⟨9,.Cancelled⟩] },second) ∧
      resting second.book .Buy = [⟨7,3,100,5,.Buy⟩] ∧ levelPrices second.book .Buy = [100] ∧
      resting second.book .Sell = [⟨10,6,105,4,.Sell⟩] ∧
      second.processCancelOrder ⟨8⟩ = some ({ accepted := false, rejects := [⟨8,reason⟩] },second) := by
  have shown : (enterAll (MatchingEngine.new : MatchingEngine .four .four) crowd).map (fun engine =>
      decide (resting engine.book .Buy = [⟨9,5,101,1,.Buy⟩,⟨7,3,100,5,.Buy⟩,⟨8,4,100,2,.Buy⟩] ∧
        resting engine.book .Sell = [⟨10,6,105,4,.Sell⟩] ∧ levelPrices engine.book .Buy = [101,100])) = some true := by
    decide +kernel
  obtain ⟨engine,entered,facts⟩ := Option.map_eq_some_iff.mp shown
  obtain ⟨bids,asks,levels⟩ := of_decide_eq_true facts
  -- a bid that rests is taken out, and only it
  have takes : ∀ {engine : MatchingEngine .four .four} (xs ys : List Entry) (e : Entry), Reached engine →
      resting engine.book .Sell = [⟨10,6,105,4,.Sell⟩] → resting engine.book .Buy = xs ++ e :: ys → e.orderId ≠ 10 →
      (∀ a ∈ xs, a.orderId ≠ e.orderId) →
      ∃ engine', engine.processCancelOrder ⟨e.orderId⟩ = some ({ accepted := true, acks := [⟨e.orderId,.Cancelled⟩] },engine') ∧
        resting engine'.book .Buy = xs ++ ys ∧ resting engine'.book .Sell = resting engine.book .Sell ∧
        levelPrices engine'.book .Buy = if ∃ a ∈ xs ++ ys, a.priceTicks = e.priceTicks then levelPrices engine.book .Buy
          else (levelPrices engine.book .Buy).erase e.priceTicks := by
    intro engine xs ys e reached asks walk other others
    rcases cancel_touches_one reached ⟨e.orderId⟩ with
      ⟨s,xs',e',ys',engine',split,matched,others',-,cancelled,left,far,leftLevels,-⟩ | ⟨nobody,-⟩
    · cases s with
      | Sell =>
        obtain ⟨-,here⟩ := split_first split matched others'
        simp [asks,Ne.symm other] at here
      | Buy =>
        obtain ⟨before,here⟩ := split_first split matched others'
        obtain ⟨before',here'⟩ := split_first walk rfl others
        obtain rfl := before.trans before'.symm
        obtain ⟨rfl,rfl⟩ := List.cons.inj (here.trans here'.symm)
        exact ⟨engine',cancelled,left,far,leftLevels⟩
    · exact absurd rfl (nobody .Buy e (by rw [walk]; simp))
  have reached := Reached.new.enterAll entered
  obtain ⟨first,cancelled,left,far,leftLevels⟩ := takes [⟨9,5,101,1,.Buy⟩,⟨7,3,100,5,.Buy⟩] []
    ⟨8,4,100,2,.Buy⟩ reached asks bids (by decide) (by decide)
  have reached₁ := reached.cancelOrder cancelled
  have levels₁ : levelPrices first.book .Buy = [101,100] := by
    rw [leftLevels,if_pos (by decide),levels]
  obtain ⟨second,cancelled₂,left₂,far₂,leftLevels₂⟩ := takes [] [⟨7,3,100,5,.Buy⟩] ⟨9,5,101,1,.Buy⟩
    reached₁ (far.trans asks) left (by decide) (by simp)
  have levels₂ : levelPrices second.book .Buy = [100] := by
    rw [leftLevels₂,if_neg (by decide),levels₁]
    decide
  have asks₂ := far₂.trans (far.trans asks)
  rcases cancel_touches_one (reached₁.cancelOrder cancelled₂) ⟨8⟩ with ⟨s,xs,e,ys,_,split,matched,_⟩ | ⟨-,reason,refused⟩
  · have inside : e ∈ resting second.book s := by rw [split]; simp
    cases s with
    | Buy =>
      rw [left₂] at inside
      cases List.mem_singleton.mp inside
      exact absurd matched (by decide)
    | Sell =>
      rw [asks₂] at inside
      cases List.mem_singleton.mp inside
      exact absurd matched (by decide)
  · exact ⟨engine,first,second,reason,entered,levels,cancelled,left,levels₁,cancelled₂,left₂,levels₂,asks₂,refused⟩
end

/-! ### Orders without room -/

/-- Whether `process_new_order` comes to `insert_order` and that returns false. -/
def insertRefused (engine : MatchingEngine maxOrders maxPriceLevels) (m : NewOrder) : Option Bool := do
  let (_,remaining,engine) ← matchLoop m (maxOrders.size + 1) engine m.quantity
  if remaining > 0 then
    let (done,_) ← engine.book.insertOrder m.orderId m.side m.priceTicks m.seq remaining
    return !done
  return false

/-- The sum of the quantities that a sink is given, in 64 bits. -/
def sumOfTrades (trades : List Trade) : UInt64 := trades.foldl (fun sum t => sum + t.quantity.toUInt64) 0

/-- `process_new_order` within `IntegrityGuard::commit`, which takes back the book only. -/
def guardedNewOrder (engine : MatchingEngine maxOrders maxPriceLevels) (m : NewOrder) :
    Option (Bool × List IntegrityError × MatchingEngine maxOrders maxPriceLevels) := do
  let (trades,after) ← engine.processNewOrder m
  let outcome := IntegrityGuard.OpOutcome.conserving m.quantity.toUInt64 (sumOfTrades trades)
    (UInt64.ofNat (restedQty engine after m))
  let (done,errors,book) ← IntegrityGuard.commit engine.book (fun _ => some (outcome,after.book))
  return (done,errors,{ after with book := book })

section
variable {engine engine' : MatchingEngine maxOrders maxPriceLevels} {m : NewOrder}

/-- A loop that makes no trade leaves everything. -/
theorem matchLoop_quiet {bound : Nat} {remaining left : UInt32}
    (ran : matchLoop m bound engine remaining = some ([],left,engine')) : left = remaining ∧ engine' = engine := by
  cases bound with
  | zero => cases ran
  | succ bound =>
    unfold matchLoop at ran
    by_cases some : remaining > 0
    · rw [if_pos some] at ran
      split at ran
      · cases ran
        exact ⟨rfl,rfl⟩
      · split at ran
        · cases ran
          exact ⟨rfl,rfl⟩
        · simp only [Option.bind_eq_bind,Option.bind_eq_some_iff] at ran
          obtain ⟨_,_,_,_,traded⟩ := ran
          cases traded
    · rw [if_neg some] at ran
      cases ran
      exact ⟨rfl,rfl⟩

/-- The rest of an order is refused exactly when some of it is dropped. -/
theorem insertRefused_eq (sound : Sound engine) (m : NewOrder) :
    insertRefused engine m = some (decide ((view engine).dropped maxOrders maxPriceLevels m ≠ 0)) := by
  obtain ⟨engine₁,ran,sound₁,resting₁,-,-⟩ := matchLoop_spec m sound rfl m.quantity
    (Nat.lt_succ_of_le (resting_length_le sound.good _))
  have traded : resting engine₁.book = (view engine).traded m := resting₁
  have loop : matchLoop m (maxOrders.size + 1) engine m.quantity =
    some (((view engine).sweptBy m).1,((view engine).sweptBy m).2.1,engine₁) := ran
  unfold insertRefused
  rw [loop]
  by_cases some : ((view engine).sweptBy m).2.1 > 0
  · have positive : ((view engine).sweptBy m).2.1.toNat ≠ 0 := by
      rw [gt_iff_lt,UInt32.lt_iff_toNat_lt] at some
      exact Nat.ne_of_gt some
    have inserting := insertOrder_resting sound₁.good (remainder m ((view engine).sweptBy m).2.1)
    rw [traded] at inserting
    simp only [remainder] at inserting
    rcases inserting with ⟨full,refused⟩ | ⟨room,book',inserted,-,-⟩
    · simp [some,refused,Exchange.dropped,full,positive]
    · simp [some,inserted,Exchange.dropped,room]
  · have zero : ((view engine).sweptBy m).2.1.toNat = 0 := by
      rw [gt_iff_lt,UInt32.lt_iff_toNat_lt] at some
      simpa using some
    simp [some,Exchange.dropped,zero]

/-- An order of which something is dropped has not traded. -/
theorem processNewOrder_dropped (sound : Sound engine) (positive : 0 < m.quantity)
    (lost : (view engine).dropped maxOrders maxPriceLevels m ≠ 0) : engine.processNewOrder m = some ([],engine) := by
  have met := mt (dropped_eq_zero_iff m sound positive).mpr lost
  rw [not_or,not_not] at met
  obtain ⟨uncrossing,full⟩ := met
  have quiet := sweep_none m (fun e inside crosses => uncrossing ⟨e,inside,crosses⟩) engine.nextExecSeq m.quantity
  obtain ⟨engine₁,ran,-⟩ := matchLoop_spec m sound rfl m.quantity (Nat.lt_succ_of_le (resting_length_le sound.good _))
  rw [quiet] at ran
  obtain ⟨-,rfl⟩ := matchLoop_quiet ran
  rcases insertOrder_resting sound.good (remainder m m.quantity) with ⟨-,refused⟩ | ⟨room,-⟩
  · simp only [remainder] at refused
    simp [processNewOrder,ran,positive,refused]
  · exact absurd full room

theorem sumOfTrades_eq (trades : List Trade) : sumOfTrades trades = UInt64.ofNat (traded trades) := by
  have upTo : ∀ (trades : List Trade) (sum : UInt64),
      trades.foldl (fun sum t => sum + t.quantity.toUInt64) sum = sum + UInt64.ofNat (traded trades) := by
    intro trades
    induction trades with
    | nil => intro sum; simp [traded,tradedBy]
    | cons t rest ih =>
      intro sum
      have here : traded (t :: rest) = t.quantity.toNat + traded rest := by simp [traded,tradedBy]
      rw [List.foldl_cons,ih,here,UInt64.ofNat_add,← UInt64.add_assoc]
      simp
  rw [sumOfTrades,upTo]
  simp

/-- The check in 64 bits is the equation of the quantities. -/
theorem conservation_iff (m : NewOrder) (traded rested : Nat) (most : traded + rested ≤ m.quantity.toNat) :
    IntegrityGuard.checkQuantityConservation m.quantity.toUInt64 (UInt64.ofNat traded) (UInt64.ofNat rested) = true ↔
      traded + rested = m.quantity.toNat := by
  have small := m.quantity.toNat_lt
  rw [IntegrityGuard.checkQuantityConservation,decide_eq_true_eq,← UInt64.toNat_inj,← UInt64.ofNat_add,
    UInt64.toNat_ofNat_of_lt' (by simp only [UInt64.size]; omega),UInt32.toNat_toUInt64]
  omega

theorem findStateViolation_settled (settled : Settled engine) :
    IntegrityGuard.findStateViolation engine.book = some .None :=
  findStateViolation_eq settled.sound.good settled.uncrossed settled.sound.positive

/-- A valid order on any reached engine. If `insert_order` refuses the rest of it, it
    has made no trade and the engine is what it was; the guard reports that quantity is
    not conserved and gives the engine back as it was. Otherwise the guard lets the call
    stand. -/
theorem no_room_all_or_nothing (reached : Reached engine) (valid : validateNewOrder m = none) :
    (insertRefused engine m = some true ∧ engine.processNewOrder m = some ([],engine) ∧
        guardedNewOrder engine m =
          some (false,[⟨.QuantityConservation,invariantName .QuantityConservation⟩],engine)) ∨
      (insertRefused engine m = some false ∧ ∃ trades engine', engine.processNewOrder m = some (trades,engine') ∧
        guardedNewOrder engine m = some (true,[],engine')) := by
  have settled := reached.settled
  have positive : 0 < m.quantity := by
    obtain ⟨_,least,_⟩ := validated valid
    exact UInt32.lt_of_lt_of_le (show 0 < limits.kMinEngineQuantity by decide) least
  obtain ⟨engine',ran,settled',viewed⟩ := settled.newOrder m
  have rested := restedQty_eq viewed
  have shared := sweptBy_traded (view engine) m
  have sum : sumOfTrades ((view engine).newOrder maxOrders maxPriceLevels m).1 =
    UInt64.ofNat (traded ((view engine).sweptBy m).1) := sumOfTrades_eq _
  have checked := conservation_iff m (traded ((view engine).sweptBy m).1) (restedQty engine engine' m) (by omega)
  rw [insertRefused_eq settled.sound]
  by_cases kept : (view engine).dropped maxOrders maxPriceLevels m = 0
  · have conserved := checked.mpr (by omega)
    refine .inr ⟨by simp [kept],_,engine',ran,?_⟩
    simp [guardedNewOrder,ran,IntegrityGuard.commit,IntegrityGuard.evaluate,findStateViolation_settled settled',
      IntegrityGuard.OpOutcome.conserving,sum,conserved]
  · have unconserved := mt checked.mp (by omega)
    have same := processNewOrder_dropped settled.sound positive kept
    obtain ⟨noTrades,rfl⟩ := Prod.mk.inj (Option.some.inj (ran.symm.trans same))
    rw [noTrades] at sum
    refine .inl ⟨by simp [kept],same,?_⟩
    simp [guardedNewOrder,same,IntegrityGuard.commit,IntegrityGuard.evaluate,findStateViolation_settled settled,
      IntegrityGuard.OpOutcome.conserving,sum,unconserved]

/-- With the only slot taken, a second bid is refused, and the guard takes it back. -/
theorem no_room_all_or_nothing_bid :
    ∃ (engine : MatchingEngine small.orders small.levels) (trades : List Trade),
      MatchingEngine.new.processNewOrder ⟨1,.Buy,100,5,1⟩ = some (trades,engine) ∧
      insertRefused engine ⟨2,.Buy,99,7,2⟩ = some true ∧ guardedNewOrder engine ⟨2,.Buy,99,7,2⟩ =
        some (false,[⟨.QuantityConservation,invariantName .QuantityConservation⟩],engine) := by
  obtain ⟨⟨trades,engine⟩,ran⟩ : ∃ result,
    (MatchingEngine.new : MatchingEngine small.orders small.levels).processNewOrder ⟨1,.Buy,100,5,1⟩ = some result := ⟨_,rfl⟩
  have refused : insertRefused engine ⟨2,.Buy,99,7,2⟩ = some true := by
    obtain ⟨-,shape⟩ := Prod.mk.inj (Option.some.inj ran)
    rw [← shape]
    rfl
  have valid : validateNewOrder ⟨2,.Buy,99,7,2⟩ = none := by decide
  rcases no_room_all_or_nothing (Reached.new.newOrder ran) valid with ⟨-,-,restored⟩ | ⟨inserted,-⟩
  · exact ⟨engine,trades,ran,refused,restored⟩
  · cases refused.symm.trans inserted
end

end HyperMatch.Processing
