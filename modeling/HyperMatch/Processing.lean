import HyperMatch.EngineProcessor
import HyperMatch.IntegrityGuard
import HyperMatch.Sweeps

/-!
The processing loop on its two lists. A dispatched message is answered with a list
of events; the event ring keeps as many of them as fit. The engine of a processor
stays orderly: sound, not crossed, and with prices and quantities that the wire
protocol permits.
-/
namespace HyperMatch.Processing
open HyperMatch.Wire HyperMatch.OrderBook HyperMatch.BookLayout HyperMatch.MatchingEngine HyperMatch.Matching
open HyperMatch.RingBuffer (Holds offerAll refusals)
open HyperMatch.EngineProcessor (invalidMessageOrderId kInvalidMessageReason)
set_option linter.unusedSimpArgs false

variable {maxOrders maxPriceLevels : PoolCapacity}

/-! ### Orderly engines -/

/-- The price and the quantity of a resting order are those of an order that was
    accepted, or less. -/
def Ranged (e : Entry) : Prop := PriceOk e.priceTicks ∧ e.remainingQty ≤ limits.kMaxEngineQuantity

structure Orderly (engine : MatchingEngine maxOrders maxPriceLevels) : Prop where
  sound : Sound engine
  uncrossed : Uncrossed (resting engine.book)
  ranged : ∀ s, ∀ e ∈ resting engine.book s, Ranged e

theorem orderly_of_empty {engine : MatchingEngine maxOrders maxPriceLevels} (sound : Sound engine)
    (empty : ∀ s, resting engine.book s = []) : Orderly engine := by
  refine ⟨sound,?_,?_⟩
  · intro bid inBids
    rw [empty] at inBids
    cases inBids
  · intro s e m
    rw [empty] at m
    cases m

theorem orderly_new : Orderly (MatchingEngine.new : MatchingEngine maxOrders maxPriceLevels) := by
  have kept : Kept (OrderBook.new : OrderBook maxOrders maxPriceLevels) (fun _ => []) := kept_new
  refine orderly_of_empty sound_new ?_
  intro s
  rw [MatchingEngine.new,kept.resting_eq]
  rfl

/-- What `initialize` leaves. -/
theorem orderly_cleared (engine : MatchingEngine maxOrders maxPriceLevels) :
    Orderly (clearRetired { engine with book := engine.book.clear }) := by
  have kept : Kept engine.book.clear (fun _ => []) := kept_clear _
  have empty : ∀ s, resting engine.book.clear s = [] := by
    intro s
    rw [kept.resting_eq]
    rfl
  refine orderly_of_empty ⟨kept.good,?_,[],?_⟩ empty
  · intro s e m
    rw [clearRetired,empty] at m
    cases m
  · exact RetiredIdSet.records_clear maxOrders.positive engine.retired

theorem validated {m : NewOrder} (valid : validateNewOrder m = none) :
    PriceOk m.priceTicks ∧ limits.kMinEngineQuantity ≤ m.quantity ∧ m.quantity ≤ limits.kMaxEngineQuantity := by
  rw [validateNewOrder] at valid
  split_ifs at valid with quantity price
  rw [not_or,UInt32.not_lt,gt_iff_lt,UInt32.not_lt] at quantity
  rw [not_or,UInt64.not_lt,gt_iff_lt,UInt64.not_lt] at price
  exact ⟨price,quantity⟩

/-- Nothing that a new order leaves on the other side reaches its price. -/
theorem newOrder_uncrossed {ex : Exchange} (uncrossed : Uncrossed ex.walks)
    (sorted : ∀ s, (ex.walks s).Pairwise (fun a b => ¬ Outranks s b a)) (maxOrders maxPriceLevels : PoolCapacity)
    (incoming : NewOrder) : Uncrossed (ex.newOrder maxOrders maxPriceLevels incoming).2.walks := by
  have oldPrice : ∀ s, ∀ e ∈ ex.traded incoming s, ∃ old ∈ ex.walks s, old.priceTicks = e.priceTicks := by
    intro s e m
    by_cases same : s = opposite incoming.side
    · subst same
      rw [Exchange.traded,Function.update_self] at m
      obtain ⟨old,inside,equal,_⟩ := sweep_entries incoming m
      exact ⟨old,inside,by rw [← equal]⟩
    · rw [Exchange.traded,Function.update_of_ne same] at m
      exact ⟨e,m,rfl⟩
  have before : Uncrossed (ex.traded incoming) := by
    intro bid inBids ask inAsks
    obtain ⟨b,inB,priceB⟩ := oldPrice _ bid inBids
    obtain ⟨a,inA,priceA⟩ := oldPrice _ ask inAsks
    rw [← priceB,← priceA]
    exact uncrossed b inB a inA
  rcases newOrder_cases maxOrders maxPriceLevels ex incoming with ⟨_,_,walks⟩ | ⟨_,_,_,walks⟩ | ⟨left,_,_,walks⟩
  · rw [walks]; exact before
  · rw [walks]; exact before
  · -- The order that comes to rest is the only new one; the sweep stopped at a price out of its reach.
    have stopped := sweep_stops incoming (sorted (opposite incoming.side)) left
    have far : ∀ e ∈ ex.traded incoming (opposite incoming.side),
        ¬ priceCrosses incoming.side incoming.priceTicks e.priceTicks = true := by
      intro e m
      rw [Exchange.traded,Function.update_self] at m
      exact stopped e m
    have own : ∀ e ∈ (ex.walks incoming.side).orderedInsert (Outranks incoming.side)
        (remainder incoming (ex.sweptBy incoming).2.1), e.priceTicks = incoming.priceTicks ∨ e ∈ ex.traded incoming incoming.side := by
      intro e m
      rcases (List.mem_orderedInsert _).mp m with rfl | old
      · exact .inl rfl
      · rw [Exchange.traded,Function.update_of_ne (opposite_ne incoming.side).symm]
        exact .inr old
    rw [walks]
    intro bid inBids ask inAsks
    cases side : incoming.side with
    | Buy =>
      simp only [side,opposite] at far own inBids inAsks
      rw [Function.update_self] at inBids
      rw [Function.update_of_ne (by decide)] at inAsks
      rcases own bid inBids with price | old
      · have out := far ask inAsks
        simp only [priceCrosses,decide_eq_true_eq,UInt64.not_le] at out
        rw [price]
        exact out
      · exact before bid old ask inAsks
    | Sell =>
      simp only [side,opposite] at far own inBids inAsks
      rw [Function.update_self] at inAsks
      rw [Function.update_of_ne (by decide)] at inBids
      rcases own ask inAsks with price | old
      · have out := far bid inBids
        simp only [priceCrosses,decide_eq_true_eq,ge_iff_le,UInt64.not_le] at out
        rw [price]
        exact out
      · exact before bid inBids ask old

section
variable {engine engine' : MatchingEngine maxOrders maxPriceLevels}

theorem Orderly.newOrder (orderly : Orderly engine) {m : NewOrder} (valid : validateNewOrder m = none)
    (sound' : Sound engine') (viewed : view engine' = ((view engine).newOrder maxOrders maxPriceLevels m).2) :
    Orderly engine' := by
  have walks : resting engine'.book = ((view engine).newOrder maxOrders maxPriceLevels m).2.walks :=
    congrArg Exchange.walks viewed
  obtain ⟨price,_,quantity⟩ := validated valid
  refine ⟨sound',?_,?_⟩
  · rw [walks]
    exact newOrder_uncrossed orderly.uncrossed (resting_sorted orderly.sound.good) maxOrders maxPriceLevels m
  · intro s e inside
    rw [walks] at inside
    rcases newOrder_entries maxOrders maxPriceLevels inside with ⟨_,rest⟩ | ⟨old,inWalk,same,less⟩
    · have filled := sweptBy_traded (view engine) m
      have left : ((view engine).sweptBy m).2.1 ≤ m.quantity := by
        rw [UInt32.le_iff_toNat_le]
        omega
      rw [rest]
      exact ⟨price,UInt32.le_trans left quantity⟩
    · obtain ⟨oldPrice,oldQuantity⟩ := orderly.ranged s old inWalk
      rw [← same]
      exact ⟨oldPrice,UInt32.le_trans less oldQuantity⟩

/-- Fewer resting orders are as orderly. -/
theorem Orderly.fewer (orderly : Orderly engine) (sound' : Sound engine')
    (old : ∀ s, ∀ e ∈ resting engine'.book s, e ∈ resting engine.book s) : Orderly engine' :=
  ⟨sound',fun bid inBids ask inAsks => orderly.uncrossed bid (old _ bid inBids) ask (old _ ask inAsks),
    fun s e m => orderly.ranged s e (old s e m)⟩

theorem Orderly.cancelOrder (orderly : Orderly engine) {orderId : UInt64} {e : Entry} (sound' : Sound engine')
    (taken : (view engine).cancel orderId = (some e,view engine')) : Orderly engine' := by
  exact orderly.fewer sound' (fun s a inside => cancel_entries taken inside)
end

/-! ### Answers -/

/-- The events of a message, in the order of their emission, and the engine. -/
def answer (engine : MatchingEngine maxOrders maxPriceLevels) :
    BinaryMessage → Option (List BinaryMessage × MatchingEngine maxOrders maxPriceLevels)
  | .newOrder m => do
    let (outcome,engine) ← engine.processNewOrderChecked m
    return (outcome.trades.map .trade ++ outcome.rejects.map .reject ++
      (if outcome.accepted then [.ack ⟨m.orderId,.Accepted⟩] else []),engine)
  | .cancelOrder c => do
    let (outcome,engine) ← engine.processCancelOrder c
    return (outcome.acks.map .ack ++ outcome.rejects.map .reject,engine)
  | msg => some ([.reject ⟨invalidMessageOrderId msg,kInvalidMessageReason⟩],engine)

/-- The messages whose answer is counted as an error event. -/
def invalidCommand : BinaryMessage → Bool
  | .newOrder m => (validateNewOrder m).isSome
  | .cancelOrder _ => false
  | _ => true

section
variable {engine : MatchingEngine maxOrders maxPriceLevels}

/-- Every message is answered, and the engine stays orderly. A new order is
    answered by a reject alone, or by its trades and one acknowledgement. -/
theorem answer_newOrder (orderly : Orderly engine) (m : NewOrder) :
    (∃ reason, validateNewOrder m = some reason ∧
        answer engine (.newOrder m) = some ([.reject ⟨m.orderId,reason⟩],engine)) ∨
      (validateNewOrder m = none ∧ ∃ engine', answer engine (.newOrder m) =
          some (((view engine).sweptBy m).1.map .trade ++ [.ack ⟨m.orderId,.Accepted⟩],engine') ∧
        Orderly engine' ∧ view engine' = ((view engine).newOrder maxOrders maxPriceLevels m).2) := by
  rcases processNewOrderChecked_spec orderly.sound m with ⟨reason,invalid,ran⟩ | ⟨valid,engine',ran,sound',viewed,_⟩
  · exact .inl ⟨reason,invalid,by simp [answer,ran]⟩
  · refine .inr ⟨valid,engine',?_,orderly.newOrder valid sound' viewed,viewed⟩
    simp [answer,ran,Exchange.newOrder]

theorem answer_cancelOrder (orderly : Orderly engine) (c : CancelOrder) :
    (∃ e engine', answer engine (.cancelOrder c) = some ([.ack ⟨c.orderId,.Cancelled⟩],engine') ∧ Orderly engine' ∧
        (view engine).cancel c.orderId = (some e,view engine')) ∨
      (∃ reason, answer engine (.cancelOrder c) = some ([.reject ⟨c.orderId,reason⟩],engine) ∧
        (view engine).cancel c.orderId = (none,view engine)) := by
  rcases processCancelOrder_spec orderly.sound c with ⟨e,engine',ran,sound',taken,_⟩ | ⟨known,_,ran,missing⟩
  · exact .inl ⟨e,engine',by simp [answer,ran],orderly.cancelOrder sound' taken,taken⟩
  · exact .inr ⟨if known then .NoLongerResting else .OrderNotFound,by simp [answer,ran],missing⟩

theorem trade_inRange (orderly : Orderly engine) (m : NewOrder) {t : Trade} (inside : t ∈ ((view engine).sweptBy m).1) :
    InRange (.trade t) := by
  obtain ⟨_,positive,e,inWalk,_,price,less⟩ := sweep_trades m (orderly.sound.positive (opposite m.side)) inside
  obtain ⟨priceOk,quantity⟩ := orderly.ranged _ e inWalk
  rw [InRange,price]
  refine ⟨priceOk,?_,?_⟩
  · rw [UInt32.lt_iff_toNat_lt] at positive
    rw [UInt32.le_iff_toNat_le]
    simp only [limits.kMinGatewayQuantity,UInt32.toNat_zero,UInt32.toNat_one] at positive ⊢
    omega
  · exact UInt32.le_trans less (UInt32.le_trans quantity (by decide))

/-- Every message is answered, with events that the codec encodes. -/
theorem answer_orderly (orderly : Orderly engine) (msg : BinaryMessage) :
    ∃ events engine', answer engine msg = some (events,engine') ∧ Orderly engine' ∧ ∀ e ∈ events, InRange e := by
  cases msg with
  | newOrder m =>
    rcases answer_newOrder orderly m with ⟨reason,_,ran⟩ | ⟨_,engine',ran,orderly',_⟩
    · exact ⟨_,engine,ran,orderly,by simp [InRange]⟩
    · refine ⟨_,engine',ran,orderly',?_⟩
      intro e inside
      rcases List.mem_append.mp inside with trade | last
      · obtain ⟨t,inTrades,rfl⟩ := List.mem_map.mp trade
        exact trade_inRange orderly m inTrades
      · rw [List.mem_singleton.mp last]
        trivial
  | cancelOrder c =>
    rcases answer_cancelOrder orderly c with ⟨_,engine',ran,orderly',_⟩ | ⟨reason,ran,_⟩
    · exact ⟨_,engine',ran,orderly',by simp [InRange]⟩
    · exact ⟨_,engine,ran,orderly,by simp [InRange]⟩
  | trade t => exact ⟨_,engine,rfl,orderly,by simp [InRange]⟩
  | ack a => exact ⟨_,engine,rfl,orderly,by simp [InRange]⟩
  | reject r => exact ⟨_,engine,rfl,orderly,by simp [InRange]⟩
end

/-! ### Emission -/

section
variable {capacities : Capacities} {p : EngineProcessor capacities}

def emitAll (p : EngineProcessor capacities) (events : List BinaryMessage) : EngineProcessor capacities :=
  events.foldl EngineProcessor.emit p

theorem emitAll_append (events later : List BinaryMessage) :
    emitAll p (events ++ later) = emitAll (emitAll p events) later := List.foldl_append

theorem emit_errorEventCount (event : BinaryMessage) : (p.emit event).errorEventCount = p.errorEventCount := by
  unfold EngineProcessor.emit
  split <;> rfl

theorem emitAll_errorEventCount (events : List BinaryMessage) : (emitAll p events).errorEventCount = p.errorEventCount := by
  induction events generalizing p with
  | nil => rfl
  | cons event rest ih =>
    rw [show emitAll p (event :: rest) = emitAll (p.emit event) rest from rfl,ih,emit_errorEventCount]

theorem withErrors_self {n : UInt64} (same : p.errorEventCount = n) : { p with errorEventCount := n } = p := by
  subst same
  rfl

theorem emitAll_map {α : Type} (f : α → BinaryMessage) (l : List α) :
    l.foldl (fun p a => p.emit (f a)) p = emitAll p (l.map f) := by
  rw [emitAll,List.foldl_map]

/-- Emission offers the events to the event ring and counts the refusals. -/
theorem emitAll_offers (events : List BinaryMessage) :
    emitAll p events = { p with
      egress := (p.egress.offerAll events).2
      egressOverflowCount := p.egressOverflowCount + UInt64.ofNat (refusals (p.egress.offerAll events).1) } := by
  induction events generalizing p with
  | nil => simp [emitAll,offerAll,refusals]
  | cons event rest ih =>
    have step : emitAll p (event :: rest) = emitAll (p.emit event) rest := rfl
    rw [step,ih]
    cases pushed : p.egress.tryPush event with
    | mk done egress =>
      cases done with
      | true => simp [EngineProcessor.emit,pushed,offerAll,refusals]
      | false =>
        have count : refusals (p.egress.offerAll (event :: rest)).1 = 1 + refusals (egress.offerAll rest).1 := by
          simp [offerAll,pushed,refusals,Nat.add_comm]
        rw [count,UInt64.ofNat_add]
        simp [EngineProcessor.emit,pushed,offerAll,UInt64.add_assoc]

/-- What fits of a list and of what is appended later. -/
theorem take_take_append {α : Type} (l later : List α) (n : Nat) : (l.take n ++ later).take n = (l ++ later).take n := by
  by_cases fits : l.length ≤ n
  · rw [List.take_of_length_le fits]
  · have whole : (l.take n).length = n := by rw [List.length_take]; omega
    rw [List.take_append_of_le_length (by omega),List.take_take,Nat.min_self,List.take_append_of_le_length (by omega)]

/-- Of a list of events the ring keeps those that fit; the others are counted. -/
theorem emitAll_spec {outs : List BinaryMessage} (holds : Holds p.egress outs) (events : List BinaryMessage) :
    ∃ egress, emitAll p events = { p with
        egress := egress
        egressOverflowCount :=
          p.egressOverflowCount + UInt64.ofNat (outs.length + events.length - capacities.egress.size) } ∧
      Holds egress ((outs ++ events).take capacities.egress.size) := by
  obtain ⟨_,_,after⟩ := holds.offerAll events
  obtain ⟨kept,lost⟩ := holds.offerAll_fits events
  rw [kept] at after
  exact ⟨_,by rw [emitAll_offers,lost],after⟩

/-- A dispatched message emits its answer. -/
theorem dispatch_eq (msg : BinaryMessage) :
    p.dispatch msg = (answer p.engine msg).map (fun r =>
      { emitAll { p with engine := r.2 } r.1 with
        errorEventCount := p.errorEventCount + (if invalidCommand msg then 1 else 0) }) := by
  -- An answer that is no error leaves the count as it was.
  have counted : ∀ (engine : MatchingEngine capacities.orders capacities.levels) events,
      ({ emitAll { p with engine := engine } events with errorEventCount := p.errorEventCount + 0 } :
        EngineProcessor capacities) = emitAll { p with engine := engine } events := by
    intro engine events
    have same := emitAll_errorEventCount (p := { p with engine := engine }) events
    rw [UInt64.add_zero]
    exact withErrors_self same
  cases msg with
  | newOrder m =>
    cases checked : validateNewOrder m with
    | some reason =>
      simp only [EngineProcessor.dispatch,answer,processNewOrderChecked,checked,invalidCommand]
      simp [emitAll,emit_errorEventCount]
    | none =>
      simp only [EngineProcessor.dispatch,answer,processNewOrderChecked,checked,invalidCommand]
      cases p.engine.processNewOrder m with
      | none => rfl
      | some r =>
        simp only [Option.bind_eq_bind,Option.bind_some,Option.pure_def,List.foldl_nil,if_true,Option.isSome_none,
          Bool.false_eq_true,if_false,Option.map_some,counted,emitAll_map]
        simp [emitAll_append,emitAll]
  | cancelOrder c =>
    simp only [EngineProcessor.dispatch,answer,invalidCommand]
    cases p.engine.processCancelOrder c with
    | none => rfl
    | some r =>
      simp only [Option.bind_eq_bind,Option.bind_some,Option.pure_def,Option.map_some,counted,emitAll_map,
        Bool.false_eq_true,if_false,emitAll_append]
  | trade t => simp [EngineProcessor.dispatch,answer,invalidCommand,EngineProcessor.emitInvalidMessageError,emitAll,emit_errorEventCount]
  | ack t => simp [EngineProcessor.dispatch,answer,invalidCommand,EngineProcessor.emitInvalidMessageError,emitAll,emit_errorEventCount]
  | reject t => simp [EngineProcessor.dispatch,answer,invalidCommand,EngineProcessor.emitInvalidMessageError,emitAll,emit_errorEventCount]
end

/-! ### Calls -/

section
variable {capacities : Capacities} {p : EngineProcessor capacities} {ins outs : List BinaryMessage}

/-- The invariant of a processor, with the messages in its rings. -/
structure Running (p : EngineProcessor capacities) (ins outs : List BinaryMessage) : Prop where
  orderly : Orderly p.engine
  ingress : Holds p.ingress ins
  egress : Holds p.egress outs

theorem running_new : Running (EngineProcessor.new : EngineProcessor capacities) [] [] :=
  ⟨orderly_new,RingBuffer.holds_new _,RingBuffer.holds_new _⟩

theorem Running.initializeWith (running : Running p ins outs) (config : EngineConfig capacities) :
    Running (p.initializeWith config).2 ins outs := by
  rw [EngineProcessor.initializeWith]
  split_ifs
  · exact ⟨running.orderly,running.ingress,running.egress⟩
  · exact ⟨orderly_cleared p.engine,running.ingress,running.egress⟩

theorem Running.submit_full (running : Running p ins outs) (full : ins.length = capacities.ingress.size)
    (msg : BinaryMessage) : p.submit msg = (false,p) := by
  rw [EngineProcessor.submit,running.ingress.tryPush_full full msg]

theorem Running.submit_room (running : Running p ins outs) (room : ins.length < capacities.ingress.size)
    (msg : BinaryMessage) :
    ∃ ingress, p.submit msg = (true,{ p with ingress := ingress }) ∧
      Running { p with ingress := ingress } (ins ++ [msg]) outs := by
  obtain ⟨ingress,pushed,holds⟩ := running.ingress.tryPush_room room msg
  refine ⟨ingress,?_,running.orderly,holds,running.egress⟩
  rw [EngineProcessor.submit,pushed]

theorem Running.processNext_idle (running : Running p ins outs) (idle : p.operational = false ∨ ins = []) :
    p.processNext = some (false,p) := by
  rw [EngineProcessor.processNext]
  rcases idle with stopped | rfl
  · rw [stopped]
    rfl
  · rw [running.ingress.tryPop_empty]
    split_ifs <;> rfl

/-- One message is answered; its events go to the event ring as far as they fit. -/
theorem Running.processNext {msg : BinaryMessage} (running : Running p (msg :: ins) outs) (ready : p.operational = true) :
    ∃ events engine' p', answer p.engine msg = some (events,engine') ∧ p.processNext = some (true,p') ∧
      Running p' ins ((outs ++ events).take capacities.egress.size) ∧ p'.engine = engine' ∧ p'.operational = true ∧
      (∀ e ∈ events, InRange e) ∧
      p'.processedCount = p.processedCount + 1 ∧
      p'.egressOverflowCount =
        p.egressOverflowCount + UInt64.ofNat (outs.length + events.length - capacities.egress.size) := by
  obtain ⟨events,engine',answered,orderly',ranged⟩ := answer_orderly running.orderly msg
  obtain ⟨ingress,popped,holds⟩ := running.ingress.tryPop_front
  obtain ⟨egress,emitted,holds'⟩ := emitAll_spec
    (p := { p with ingress := ingress, processedCount := p.processedCount + 1, engine := engine' })
    running.egress events
  refine ⟨events,engine',
    { p with
      engine := engine'
      ingress := ingress
      egress := egress
      processedCount := p.processedCount + 1
      errorEventCount := p.errorEventCount + (if invalidCommand msg then 1 else 0)
      egressOverflowCount :=
        p.egressOverflowCount + UInt64.ofNat (outs.length + events.length - capacities.egress.size) },
    answered,?_,⟨orderly',holds,holds'⟩,rfl,ready,ranged,rfl,rfl⟩
  rw [EngineProcessor.processNext,if_neg (by simp [ready]),popped]
  simp only [dispatch_eq,answered,Option.map_some,Option.bind_eq_bind,Option.bind_some,emitted,Option.pure_def]

theorem Running.nextEvent_empty (running : Running p ins []) : p.nextEvent = (none,p) := by
  rw [EngineProcessor.nextEvent,running.egress.tryPop_empty]

theorem Running.nextEvent {event : BinaryMessage} (running : Running p ins (event :: outs)) :
    ∃ egress, p.nextEvent = (some event,{ p with egress := egress }) ∧ Running { p with egress := egress } ins outs := by
  obtain ⟨egress,popped,holds⟩ := running.egress.tryPop_front
  refine ⟨egress,?_,running.orderly,running.ingress,holds⟩
  rw [EngineProcessor.nextEvent,popped]
end

/-- A call on a processor. -/
inductive Call (capacities : Capacities) where
  | initializeWith (config : EngineConfig capacities)
  | submit (msg : BinaryMessage)
  | processNext
  | nextEvent

section
variable {capacities : Capacities}

def call (p : EngineProcessor capacities) : Call capacities → Option (EngineProcessor capacities)
  | .initializeWith config => some (p.initializeWith config).2
  | .submit msg => some (p.submit msg).2
  | .processNext => p.processNext.map Prod.snd
  | .nextEvent => some p.nextEvent.2

/-- The processor after a sequence of calls. -/
def calls (p : EngineProcessor capacities) (sequence : List (Call capacities)) : Option (EngineProcessor capacities) :=
  sequence.foldlM call p

theorem call_running {p : EngineProcessor capacities} {ins outs : List BinaryMessage} (running : Running p ins outs)
    (c : Call capacities) : ∃ p' ins' outs', call p c = some p' ∧ Running p' ins' outs' := by
  cases c with
  | initializeWith config => exact ⟨_,ins,outs,rfl,running.initializeWith config⟩
  | submit msg =>
    by_cases full : ins.length = capacities.ingress.size
    · exact ⟨p,ins,outs,by rw [call,running.submit_full full],running⟩
    · have fits := running.ingress.length_le
      obtain ⟨ingress,submitted,running'⟩ := running.submit_room (by omega) msg
      exact ⟨_,_,outs,by rw [call,submitted],running'⟩
  | processNext =>
    by_cases idle : p.operational = false ∨ ins = []
    · exact ⟨p,ins,outs,by rw [call,running.processNext_idle idle]; rfl,running⟩
    · rw [not_or] at idle
      obtain ⟨msg,rest,rfl⟩ := List.exists_cons_of_ne_nil idle.2
      obtain ⟨events,engine',p',_,ran,running',_⟩ := running.processNext (by simpa using idle.1)
      exact ⟨p',rest,_,by rw [call,ran]; rfl,running'⟩
  | nextEvent =>
    cases outs with
    | nil => exact ⟨p,ins,[],by rw [call,running.nextEvent_empty],running⟩
    | cons event rest =>
      obtain ⟨egress,popped,running'⟩ := running.nextEvent
      exact ⟨_,ins,rest,by rw [call,popped],running'⟩

/-- Every sequence of calls returns, and the processor stays as it should be. -/
theorem calls_running {p : EngineProcessor capacities} {ins outs : List BinaryMessage} (running : Running p ins outs)
    (sequence : List (Call capacities)) :
    ∃ p' ins' outs', calls p sequence = some p' ∧ Running p' ins' outs' := by
  induction sequence generalizing p ins outs with
  | nil => exact ⟨p,ins,outs,rfl,running⟩
  | cons c rest ih =>
    obtain ⟨p₁,ins₁,outs₁,called,running₁⟩ := call_running running c
    obtain ⟨p',ins',outs',later,running'⟩ := ih running₁
    refine ⟨p',ins',outs',?_,running'⟩
    rw [calls,List.foldlM_cons,called]
    exact later

/-- The book is never crossed and never holds an empty order: whatever calls a
    processor has seen, the integrity checks find nothing, and so it is. -/
theorem reachable_state_has_no_violation (capacities : Capacities) (sequence : List (Call capacities)) :
    ∃ p, calls (EngineProcessor.new : EngineProcessor capacities) sequence = some p ∧
      IntegrityGuard.findStateViolation p.engine.book = some .None ∧
      ((levelsOf p.engine.book .Buy).map (priceAt p.engine.book)).Pairwise (· > ·) ∧
      ((levelsOf p.engine.book .Sell).map (priceAt p.engine.book)).Pairwise (· < ·) ∧
      (∀ bid ∈ p.engine.book.bestBid, ∀ ask ∈ p.engine.book.bestAsk, bid.priceTicks < ask.priceTicks) ∧
      ∀ side, ∀ e ∈ resting p.engine.book side, 0 < e.remainingQty := by
  obtain ⟨p,ins,outs,ran,running⟩ := calls_running running_new sequence
  have orderly := running.orderly
  have good := orderly.sound.good
  have ranked : ∀ s, (levelsOf p.engine.book s).Pairwise
      (fun a b => priceRanksFirst s (priceAt p.engine.book a) (priceAt p.engine.book b) = true) := by
    intro s
    have sides := (good.shaped.sides s).ranked
    have levels : (layoutOf p.engine.book s).map Prod.fst = levelsOf p.engine.book s := by
      rw [layoutOf,List.map_map]
      exact List.map_id' _
    rw [levels] at sides
    exact sides
  refine ⟨p,ran,findStateViolation_eq good orderly.uncrossed orderly.sound.positive,?_,?_,?_,orderly.sound.positive⟩
  · rw [List.pairwise_map]
    exact (ranked .Buy).imp (fun first => by simpa [priceRanksFirst] using first)
  · rw [List.pairwise_map]
    exact (ranked .Sell).imp (fun first => by simpa [priceRanksFirst] using first)
  · intro bid best ask best'
    obtain ⟨b,inBids,priceB⟩ := pointer_front good (s := .Buy) best
    obtain ⟨a,inAsks,priceA⟩ := pointer_front good (s := .Sell) best'
    rw [← priceB,← priceA]
    exact orderly.uncrossed b inBids a inAsks
end

end HyperMatch.Processing
