import HyperMatch.Correlation
import HyperMatch.Mirror

/-!
The answers to clients: the responses that the handlers of `gateway-server/src/api.rs`
make of a reply, and those of the response half of `gateway/src/lib.rs`. On one
connection an answer tells what the engine did with the command of its own request. The
engine takes fewer than the gateway lets through: an order of more than a million is
sent and refused. A price is kept in ticks.
-/
namespace HyperMatch.Answers
open HyperMatch.Wire HyperMatch.Matching HyperMatch.MatchingEngine HyperMatch.Streams HyperMatch.Correlation HyperMatch.Runs
open HyperMatch.BookLayout HyperMatch.Mirror
open HyperMatch.OrderBook (PoolCapacity)
open HyperMatch.Projection (saturatingSub32)

inductive Body where
  | accepted (orderId : UInt64) (side : Side) (priceTicks : UInt64) (quantity filled resting : UInt32) (fills : List Fill)
      (latencyUs : UInt64)
  | cancelled (orderId : UInt64) (latencyUs : UInt64)
  | rejected (reason : String) (orderId : UInt64)
  | error (reason : String)
  deriving Repr, DecidableEq

structure Response where
  status : Nat
  body : Body
  deriving Repr, DecidableEq

def engineUnavailable : Response := ⟨503,.error "engine_unavailable"⟩

def rejectResponse (orderId : UInt64) : RejectReason → Response
  | .InvalidPrice => ⟨400,.rejected "invalid_price" orderId⟩
  | .InvalidQuantity => ⟨400,.rejected "invalid_quantity" orderId⟩
  | .OrderNotFound => ⟨409,.rejected "order_not_found" orderId⟩
  | .NoLongerResting => ⟨409,.rejected "no_longer_resting" orderId⟩
  | .IntegrityViolation => engineUnavailable

def newOrderResponse (orderId : UInt64) (side : Side) (priceTicks : UInt64) (quantity : UInt32) (reply : EngineReply)
    (latencyUs : UInt64) : Response :=
  match reply.terminator with
  | .ack ⟨_,.Accepted⟩ =>
    let filled := (reply.fills.map Fill.quantity).sum
    let resting := saturatingSub32 quantity filled
    ⟨200,.accepted orderId side priceTicks quantity filled resting reply.fills latencyUs⟩
  | .reject ⟨_,reason⟩ => rejectResponse orderId reason
  | _ => engineUnavailable

def cancelResponse (orderId : UInt64) (reply : EngineReply) (latencyUs : UInt64) : Response :=
  match reply.terminator with
  | .ack ⟨_,.Cancelled⟩ => ⟨200,.cancelled orderId latencyUs⟩
  | .reject ⟨_,.OrderNotFound⟩ => ⟨409,.rejected "order_not_found" orderId⟩
  | .reject ⟨_,.NoLongerResting⟩ => ⟨409,.rejected "no_longer_resting" orderId⟩
  | _ => engineUnavailable

/-- What the handler of a command makes of its reply. -/
def respond (reply : EngineReply) (latencyUs : UInt64) : Command → Response
  | .newOrder m => newOrderResponse m.orderId m.side m.priceTicks m.quantity reply latencyUs
  | .cancelOrder c => cancelResponse c.orderId reply latencyUs

/-- The body of a `JsonResponse`. -/
inductive Reported where
  | ack (orderId : UInt64) (status : AckKind)
  | trade (t : Trade)
  | rejected (orderId : UInt64) (reason : RejectReason)
  deriving Repr, DecidableEq

structure JsonResponse where
  status : Nat
  body : Reported
  deriving Repr, DecidableEq

def rejectReasonStatus : RejectReason → Nat
  | .InvalidPrice => 400
  | .InvalidQuantity => 400
  | .OrderNotFound => 409
  | .NoLongerResting => 409
  | .IntegrityViolation => 503

def responseToJson : BinaryMessage → Except GatewayError JsonResponse
  | .ack ⟨orderId,kind⟩ => .ok ⟨200,.ack orderId kind⟩
  | .trade t => .ok ⟨200,.trade t⟩
  | .reject ⟨orderId,reason⟩ => .ok ⟨rejectReasonStatus reason,.rejected orderId reason⟩
  | .newOrder _ => .error .EngineUnavailable
  | .cancelOrder _ => .error .EngineUnavailable

/-! ### What is sent fits its frame -/

section
variable {maxOrders maxPriceLevels : PoolCapacity}

/-- A handler that has registered and not given up. -/
def Forwarded : Phase → Prop
  | .registered => True
  | .waiting => True
  | .failed => True
  | .answered => True
  | _ => False

def Ranged (requests : List Request) : Prop :=
  ∀ (n : Nat) (r : Request), requests[n]? = some r → Forwarded r.phase → InRange r.command.message

theorem prepare_inRange {app app' : AppState} {responder : Nat} {command : Command}
    (prepared : app.prepare responder command = some app') : InRange command.message := by
  rw [AppState.prepare] at prepared
  split at prepared
  · cases prepared
  · split_ifs at prepared with ranged
    exact ranged

theorem Ranged.append {requests : List Request} (ranged : Ranged requests) (command : Command) (mailbox : Option EngineReply) :
    Ranged (requests ++ [⟨command,.arrived,mailbox⟩]) := by
  intro n r found forwarded
  rcases List.mem_append.mp (List.mem_of_getElem? found) with old | new
  · obtain ⟨m,here⟩ := List.getElem?_of_mem old
    exact ranged m r here forwarded
  · rw [List.mem_singleton.mp new] at forwarded
    exact forwarded.elim

theorem Ranged.modify {requests : List Request} (ranged : Ranged requests) (n : Nat) {change : Request → Request}
    (keeps : ∀ r, requests[n]? = some r → Forwarded (change r).phase → InRange (change r).command.message) :
    Ranged (requests.modify n change) := by
  intro m r found forwarded
  rw [List.getElem?_modify] at found
  obtain ⟨old,here,rfl⟩ := Option.map_eq_some_iff.mp found
  by_cases same : n = m
  · subst same
    rw [if_pos rfl] at forwarded ⊢
    exact keeps old here forwarded
  · rw [if_neg same] at forwarded ⊢
    exact ranged m old here forwarded

variable {s s' : System maxOrders maxPriceLevels}

theorem Ranged.move (ranged : Ranged s.requests) {n : Nat} {request : Request} {phase : Phase}
    (found : s.requests[n]? = some request) (fits : Forwarded phase → InRange request.command.message) :
    Ranged (s.move n phase).requests := by
  refine ranged.modify n ?_
  intro r here forwarded
  cases found.symm.trans here
  exact fits forwarded

theorem Ranged.deliver (ranged : Ranged s.requests) (sent : Option (Nat × EngineReply)) : Ranged (s.deliver sent).requests := by
  cases sent with
  | none => exact ranged
  | some sent =>
    refine ranged.modify sent.1 ?_
    intro r here
    rw [Request.deliver]
    split <;> exact ranged _ r here

theorem Ranged.step (ranged : Ranged s.requests) {event : Traffic} (ran : s.traffic event = some s') : Ranged s'.requests := by
  cases event with
  | postOrder body =>
    rcases System.postOrder_cases ran with rfl | ⟨m,gateway,_,_,_,_,rfl⟩
    · exact ranged
    · exact ranged.append _ _
  | postCancel orderId =>
    rw [System.postCancel_cases ran]
    exact ranged.append _ _
  | check n =>
    obtain ⟨command,mailbox,found,rfl⟩ := System.check_cases ran
    refine ranged.move found ?_
    split
    · exact False.elim
    · exact False.elim
  | register n =>
    obtain ⟨command,mailbox,found,rfl | ⟨app,prepared,rfl⟩⟩ := System.register_cases ran
    · exact ranged.move found False.elim
    · exact Ranged.move (s := { s with app := app.recordSubmission }) ranged found (fun _ => prepare_inRange prepared)
  | send n =>
    obtain ⟨command,mailbox,found,rfl⟩ := System.send_cases ran
    exact ranged.move found (fun _ => ranged n _ found trivial)
  | receive n =>
    obtain ⟨command,reply,found,rfl⟩ := System.receive_cases ran
    exact ranged.move found (fun _ => ranged n _ found trivial)
  | giveUp n =>
    obtain ⟨command,found,rfl⟩ := System.giveUp_cases ran
    exact ranged.move found (fun _ => ranged n _ found trivial)
  | drop n =>
    obtain ⟨command,mailbox,found,rfl⟩ := System.drop_cases ran
    exact Ranged.move (s := { s with app := s.app.dropInflight command.orderId }) ranged found False.elim
  | forward =>
    obtain ⟨frame,rest,_,_,rfl⟩ := System.forward_cases ran
    rw [System.write]
    split
    · exact ranged
    · exact ranged
  | process =>
    obtain ⟨_,_,_,_,_,_,rfl⟩ := System.process_cases ran
    exact ranged
  | handle now =>
    obtain ⟨frame,msg,rest,_,rfl⟩ := System.handle_cases ran
    exact Ranged.deliver (s := { s with
      app := (s.app.handleEngineEvent now msg).1
      toGateway := rest
      applied := s.applied ++ [(frame,msg)] }) ranged _

end

/-! ### What the engine answers -/

/-- The engine takes at most a million; what a frame holds is in range otherwise. -/
theorem validate_inRange {m : NewOrder} (ranged : InRange (.newOrder m)) :
    validateNewOrder m = if m.quantity ≤ limits.kMaxEngineQuantity then none else some .InvalidQuantity := by
  obtain ⟨⟨cheap,dear⟩,⟨least,_⟩⟩ := ranged
  have few : ¬ m.quantity < limits.kMinEngineQuantity := by
    rw [UInt32.not_lt]
    exact least
  have price : ¬ (m.priceTicks < limits.kMinPriceTicks ∨ m.priceTicks > limits.kMaxPriceTicks) := by
    rintro (below | above)
    · exact UInt64.not_lt.mpr cheap below
    · exact UInt64.not_lt.mpr dear above
  rw [validateNewOrder]
  by_cases many : m.quantity ≤ limits.kMaxEngineQuantity
  · rw [if_pos many,if_neg (fun out => out.elim few (UInt32.not_lt.mpr many)),if_neg price]
  · rw [if_neg many,if_pos (.inr (UInt32.not_le.mp many))]

/-- A sweep trades at the limit or better. -/
theorem sweep_crosses {m : NewOrder} {walk : List Entry} {execSeq : UInt64} {remaining : UInt32} {t : Trade}
    (inside : t ∈ (sweep m walk execSeq remaining).1) : priceCrosses m.side m.priceTicks t.priceTicks = true := by
  induction walk generalizing execSeq remaining with
  | nil => simp [sweep] at inside
  | cons e rest ih =>
    rcases sweep_cons m e rest execSeq remaining with ⟨_,crosses,_,swept⟩ | ⟨_,crosses,_,swept⟩ | ⟨_,swept⟩
    · rw [swept] at inside
      rcases List.mem_cons.mp inside with rfl | later
      · exact crosses
      · exact ih later
    · rw [swept] at inside
      rw [List.mem_singleton.mp inside]
      exact crosses
    · rw [swept] at inside
      cases inside

/-- Whether an order with an identifier rests. -/
def Rests {maxOrders maxPriceLevels : PoolCapacity} (engine : MatchingEngine maxOrders maxPriceLevels) (id : UInt64) : Prop :=
  ∃ side, ∃ e ∈ resting engine.book side, e.orderId = id

/-- What a response tells of the engine that processed the command, and of its trades. -/
def TellsOf {maxOrders maxPriceLevels : PoolCapacity} (engine : MatchingEngine maxOrders maxPriceLevels) (latencyUs : UInt64)
    (trades : List Trade) (response : Response) : Command → Prop
  | .newOrder m =>
    if m.quantity ≤ limits.kMaxEngineQuantity then
      ∃ filled left,
        response = ⟨200,.accepted m.orderId m.side m.priceTicks m.quantity filled left (trades.map fillOfTrade) latencyUs⟩ ∧
        filled.toNat = traded trades ∧ filled.toNat + left.toNat = m.quantity.toNat ∧
        ∀ t ∈ trades, 0 < t.quantity ∧ priceCrosses m.side m.priceTicks t.priceTicks = true ∧
          ∃ e ∈ resting engine.book (opposite m.side), t.restingId = e.orderId ∧ t.priceTicks = e.priceTicks ∧
            t.quantity ≤ e.remainingQty
    else trades = [] ∧ response = ⟨400,.rejected "invalid_quantity" m.orderId⟩
  | .cancelOrder c =>
    trades = [] ∧
      ((Rests engine c.orderId ∧ response = ⟨200,.cancelled c.orderId latencyUs⟩) ∨
        (¬ Rests engine c.orderId ∧ engine.retired.contains c.orderId = some true ∧
          response = ⟨409,.rejected "no_longer_resting" c.orderId⟩) ∨
        (¬ Rests engine c.orderId ∧ engine.retired.contains c.orderId = some false ∧
          response = ⟨409,.rejected "order_not_found" c.orderId⟩))

section
variable {maxOrders maxPriceLevels : PoolCapacity} {engine : MatchingEngine maxOrders maxPriceLevels} {market : Market}

theorem map_trade_inj {trades trades' : List Trade} {first second : BinaryMessage}
    (same : trades.map BinaryMessage.trade ++ [first] = trades'.map .trade ++ [second]) : trades = trades' ∧ first = second := by
  obtain ⟨fronts,ends⟩ := List.append_inj' same rfl
  refine ⟨?_,List.singleton_inj.mp ends⟩
  exact (List.map_injective_iff.mpr (fun _ _ eq => BinaryMessage.trade.inj eq)) fronts

theorem cancel_rests (shown : Shows engine market) (id : UInt64) :
    (market.exchange.cancel id).1.isSome = true ↔ Rests engine id := by
  have either : ∀ side, (market.exchange.find id side).isSome = true ↔ ∃ e ∈ resting engine.book side, e.orderId = id := by
    intro side
    rw [shown.walks,Exchange.find,List.find?_isSome]
    simp
  rw [Exchange.cancel]
  constructor
  · intro some
    cases bid : market.exchange.find id .Buy with
    | some e => exact ⟨.Buy,(either .Buy).mp (by rw [bid]; rfl)⟩
    | none =>
      cases ask : market.exchange.find id .Sell with
      | some e => exact ⟨.Sell,(either .Sell).mp (by rw [ask]; rfl)⟩
      | none => simp [bid,ask] at some
  · rintro ⟨side,rests⟩
    have found := (either side).mpr rests
    cases bid : market.exchange.find id .Buy with
    | some e => simp
    | none =>
      cases side with
      | Buy => simp [bid] at found
      | Sell =>
        obtain ⟨e,ask⟩ := Option.isSome_iff_exists.mp found
        simp [ask]

theorem respond_newOrder (shown : Shows engine market) {m : NewOrder} (ranged : InRange (.newOrder m)) {trades : List Trade}
    {terminator : BinaryMessage} (latencyUs : UInt64)
    (answers : trades.map .trade ++ [terminator] = eventsOf (.newOrder m) (market.step maxOrders maxPriceLevels (.newOrder m)).1) :
    TellsOf engine latencyUs trades (respond ⟨terminator,trades.map fillOfTrade⟩ latencyUs (.newOrder m)) (.newOrder m) := by
  rw [Market.step,Market.newOrder,validate_inRange ranged] at answers
  rw [TellsOf]
  split_ifs with fits
  · simp only [if_pos fits,eventsOf,List.map_nil,List.append_nil,if_true,Exchange.newOrder] at answers
    obtain ⟨swept,rfl⟩ := map_trade_inj answers
    have whole := sweptBy_traded market.exchange m
    have bound := UInt32.toNat_lt m.quantity
    have sum := sum_quantities trades (by rw [swept]; omega)
    have left := left_of_trades market.exchange m
    have fills : (trades.map fillOfTrade).map Fill.quantity = trades.map Trade.quantity := by
      rw [List.map_map]
      rfl
    refine ⟨(trades.map Trade.quantity).sum,saturatingSub32 m.quantity ((trades.map Trade.quantity).sum),?_,?_,?_,?_⟩
    · simp only [respond,newOrderResponse,fills]
    · exact sum
    · rw [sum,swept,left]
      omega
    · intro t inside
      rw [swept] at inside
      have positive : ∀ e ∈ market.exchange.walks (opposite m.side), 0 < e.remainingQty := by
        rw [← shown.walks]
        exact shown.sound.positive _
      obtain ⟨_,some,e,rests,maker⟩ := sweep_trades m positive inside
      refine ⟨some,sweep_crosses inside,e,?_,maker⟩
      rw [shown.walks]
      exact rests
  · simp only [if_neg fits,eventsOf,List.map_nil,List.nil_append,List.map_cons,Bool.false_eq_true,if_false,List.append_nil] at answers
    have single : trades.map BinaryMessage.trade ++ [terminator] = ([] : List Trade).map .trade ++ [.reject ⟨m.orderId,.InvalidQuantity⟩] :=
      answers
    obtain ⟨rfl,rfl⟩ := map_trade_inj single
    exact ⟨rfl,rfl⟩

/-- For the terminators of an order the two halves agree, whatever the reason. -/
theorem status_newOrder {m : NewOrder} {terminator : BinaryMessage} (terminates : Terminator (.newOrder m) terminator)
    (fills : List Fill) (latencyUs : UInt64) :
    (responseToJson terminator).map JsonResponse.status = .ok (respond ⟨terminator,fills⟩ latencyUs (.newOrder m)).status := by
  rcases terminates with rfl | ⟨reason,rfl⟩
  · rfl
  · cases reason <;> rfl

theorem respond_cancelOrder (shown : Shows engine market) {c : CancelOrder} {trades : List Trade} {terminator : BinaryMessage}
    (latencyUs : UInt64)
    (answers : trades.map .trade ++ [terminator] =
      eventsOf (.cancelOrder c) (market.step maxOrders maxPriceLevels (.cancelOrder c)).1) :
    TellsOf engine latencyUs trades (respond ⟨terminator,trades.map fillOfTrade⟩ latencyUs (.cancelOrder c)) (.cancelOrder c) ∧
      (responseToJson terminator).map JsonResponse.status =
        .ok (respond ⟨terminator,trades.map fillOfTrade⟩ latencyUs (.cancelOrder c)).status := by
  have rests := cancel_rests shown c.orderId
  have retired := shown.contains c.orderId
  rw [Market.step,Market.cancelOrder] at answers
  split at answers
  · rename_i e exchange taken
    have single : trades.map BinaryMessage.trade ++ [terminator] = ([] : List Trade).map .trade ++ [.ack ⟨c.orderId,.Cancelled⟩] :=
      answers
    obtain ⟨rfl,rfl⟩ := map_trade_inj single
    rw [taken] at rests
    exact ⟨⟨rfl,.inl ⟨rests.mp rfl,rfl⟩⟩,rfl⟩
  · rename_i exchange missing
    rw [missing] at rests
    have none : ¬ Rests engine c.orderId := fun some => by simpa using rests.mpr some
    by_cases gone : c.orderId ∈ market.retired
    · rw [if_pos gone] at answers
      have single : trades.map BinaryMessage.trade ++ [terminator] =
          ([] : List Trade).map .trade ++ [.reject ⟨c.orderId,.NoLongerResting⟩] := answers
      obtain ⟨rfl,rfl⟩ := map_trade_inj single
      exact ⟨⟨rfl,.inr (.inl ⟨none,by rw [retired]; simp [gone],rfl⟩)⟩,rfl⟩
    · rw [if_neg gone] at answers
      have single : trades.map BinaryMessage.trade ++ [terminator] =
          ([] : List Trade).map .trade ++ [.reject ⟨c.orderId,.OrderNotFound⟩] := answers
      obtain ⟨rfl,rfl⟩ := map_trade_inj single
      exact ⟨⟨rfl,.inr (.inr ⟨none,by rw [retired]; simp [gone],rfl⟩)⟩,rfl⟩

/-- The reply of a request that is answered is the engine's answer to its command, and tells it. -/
theorem reply_tells {start : MatchingEngine maxOrders maxPriceLevels} {s : System maxOrders maxPriceLevels}
    (shown : Shows start market) (traced : Traced market s) (correlated : Correlated s) (ranged : Ranged s.requests) {n : Nat}
    {command : Command} {reply : EngineReply} (answered : s.requests[n]? = some ⟨command,.answered,some reply⟩)
    (latencyUs : UInt64) :
    ∃ before trades after outcomes engine,
      s.processed = before ++ (⟨command,n⟩,trades.map .trade ++ [reply.terminator]) :: after ∧
      run start (commandsOf before) = some (outcomes,engine) ∧
      (∃ last, Processing.answer engine command.message = some (trades.map .trade ++ [reply.terminator],last)) ∧
      TellsOf engine latencyUs trades (respond reply latencyUs command) command ∧
      (responseToJson reply.terminator).map JsonResponse.status = .ok (respond reply latencyUs command).status := by
  obtain ⟨trades,inside,fills,terminates⟩ := correlated.replies n _ reply answered rfl
  obtain ⟨before,after,split⟩ := List.append_of_mem inside
  have spoken := traced.spoken
  rw [split,spoken_append] at spoken
  obtain ⟨_,answers,_⟩ := spoken
  rw [marketAfter_eq] at answers
  obtain ⟨engine,ran,shown'⟩ := run_shows shown (commandsOf before)
  obtain ⟨last,replied,_⟩ := answer_shows shown' command
  rw [← answers] at replied
  obtain ⟨terminator,filled⟩ := reply
  cases fills
  refine ⟨before,trades,after,_,engine,split,ran,⟨last,replied⟩,?_⟩
  cases command with
  | newOrder m =>
    exact ⟨respond_newOrder shown' (ranged n _ answered trivial) latencyUs answers,status_newOrder terminates _ _⟩
  | cancelOrder c => exact respond_cancelOrder shown' latencyUs answers
end

/-- On every run of one connection on which handlers register alone, a handler that has its
    reply answers what the engine did with its own command: at the moment `engine` when that
    was processed, an order of at most a million was accepted, filled at its limit or better
    by orders that rested, and the fills and the rest add up to it; a larger one was refused;
    a cancellation found its order or not. The response half of the library gives the same
    status. -/
theorem answers_tell_outcome {maxOrders maxPriceLevels : PoolCapacity} {start s : System maxOrders maxPriceLevels}
    (opened : Opened start) (leads : Leads System.traffic RegistersAlone start s) {n : Nat} {command : Command}
    {reply : EngineReply} (answered : s.requests[n]? = some ⟨command,.answered,some reply⟩) (latencyUs : UInt64) :
    ∃ before trades after outcomes engine,
      s.processed = before ++ (⟨command,n⟩,trades.map .trade ++ [reply.terminator]) :: after ∧
      run start.engine (commandsOf before) = some (outcomes,engine) ∧
      TellsOf engine latencyUs trades (respond reply latencyUs command) command ∧
      (responseToJson reply.terminator).map JsonResponse.status = .ok (respond reply latencyUs command).status := by
  obtain ⟨market,shown⟩ := Opened.shows opened
  have all : Traced market s ∧ Correlated s ∧ Ranged s.requests := by
    refine leads.keeps (P := fun s => Traced market s ∧ Correlated s ∧ Ranged s.requests)
      ⟨opened.traced shown,Opened.correlated opened,?_⟩ ?_
    · intro n r found
      rw [opened.requests] at found
      cases found
    · rintro s event s' ⟨traced,correlated,ranged⟩ may ran
      exact ⟨traced.step ran,correlated.step traced may ran,ranged.step ran⟩
  obtain ⟨traced,correlated,ranged⟩ := all
  obtain ⟨before,trades,after,outcomes,engine,split,ran,_,tells,status⟩ :=
    reply_tells shown traced correlated ranged answered latencyUs
  exact ⟨before,trades,after,outcomes,engine,split,ran,tells,status⟩

/-- A bid of five and an ask that takes three of it, answered. -/
def twoOrders : List Traffic :=
  .postOrder (order "buy" 100 5 5) :: submit 0 ++ .postOrder (order "sell" 90 3 6) :: submit 1 ++
    [.forward,.forward,.process,.process,.handle 0,.handle 0,.handle 0,.receive 1]

theorem answers_tell_outcome_two_orders :
    ∃ s : System .four .four, Leads System.traffic RegistersAlone opened s ∧
      respond ⟨.ack ⟨6,.Accepted⟩,[⟨1,100,3,5⟩]⟩ 40 (.newOrder ⟨6,.Sell,90,3,1⟩) =
        ⟨200,.accepted 6 .Sell 90 3 3 0 [⟨1,100,3,5⟩] 40⟩ ∧
      ∃ before trades after outcomes engine,
        s.processed = before ++ (⟨.newOrder ⟨6,.Sell,90,3,1⟩,1⟩,trades.map .trade ++ [.ack ⟨6,.Accepted⟩]) :: after ∧
        run opened.engine (commandsOf before) = some (outcomes,engine) ∧
        TellsOf engine 40 trades (respond ⟨.ack ⟨6,.Accepted⟩,[⟨1,100,3,5⟩]⟩ 40 (.newOrder ⟨6,.Sell,90,3,1⟩))
          (.newOrder ⟨6,.Sell,90,3,1⟩) := by
  have ran : ((follow System.traffic RegistersAlone opened twoOrders).map (fun s => s.requests[1]?)) =
      some (some ⟨.newOrder ⟨6,.Sell,90,3,1⟩,.answered,some ⟨.ack ⟨6,.Accepted⟩,[⟨1,100,3,5⟩]⟩⟩) := by
    decide +kernel
  obtain ⟨s,followed,found⟩ := Option.map_eq_some_iff.mp ran
  have leads := follow_leads followed
  obtain ⟨before,trades,after,outcomes,engine,split,run,tells,_⟩ := answers_tell_outcome opened_opened leads found 40
  exact ⟨s,leads,by decide,before,trades,after,outcomes,engine,split,run,tells⟩

end HyperMatch.Answers
