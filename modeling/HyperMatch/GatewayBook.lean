import HyperMatch.Mirror

/-!
The projection of the gateway along a run. The book that the gateway keeps is the fold
of the events that it has handled, since every terminator finds the entry of its own
command and that entry has just the trades of the command as fills; the fold of the
events is the book of the engine (`Mirror.project_mirrors`).
-/
namespace HyperMatch.GatewayBook
open HyperMatch.Wire HyperMatch.Matching HyperMatch.MatchingEngine HyperMatch.BookLayout HyperMatch.Streams
open HyperMatch.Correlation HyperMatch.Mirror HyperMatch.Runs
open HyperMatch.OrderBook (PoolCapacity)
open HyperMatch.AppState (terminatorId settledBook leftOf)
open HyperMatch.Projection (RestingOrder Level atPrice tally quantityOf)

variable {maxOrders maxPriceLevels : PoolCapacity}

/-! ### Identifiers -/

/-- The commands of the requests, oldest first. -/
def asked (requests : List Request) : List Command := requests.map Request.command

theorem asked_modify (requests : List Request) (n : Nat) {change : Request → Request}
    (keeps : ∀ r, (change r).command = r.command) : asked (requests.modify n change) = asked requests := by
  refine List.ext_getElem? ?_
  intro m
  rw [asked,asked,List.getElem?_map,List.getElem?_map,List.getElem?_modify]
  cases requests[m]? with
  | none => rfl
  | some r =>
    by_cases same : n = m
    · simp [same,keeps]
    · simp [same]

section
variable {s s' : System maxOrders maxPriceLevels} {market : Market}

theorem asked_move (s : System maxOrders maxPriceLevels) (n : Nat) (phase : Phase) :
    asked (s.move n phase).requests = asked s.requests := asked_modify _ _ (fun _ => rfl)

theorem asked_deliver (s : System maxOrders maxPriceLevels) (sent : Option (Nat × EngineReply)) :
    asked (s.deliver sent).requests = asked s.requests := by
  cases sent with
  | none => rfl
  | some reply => exact asked_modify _ _ (deliver_command reply.2)

theorem handle_gates (app : AppState) (now : UInt64) (msg : BinaryMessage) :
    AppState.SameGates app (app.handleEngineEvent now msg).1 := by
  cases named : terminatorId msg with
  | none =>
    cases msg with
    | trade t =>
      obtain ⟨app',handled,gates,_⟩ := AppState.handle_trade app now t
      rw [handled]
      exact gates
    | newOrder m => exact ⟨rfl,rfl,rfl⟩
    | cancelOrder c => exact ⟨rfl,rfl,rfl⟩
    | ack a => cases named
    | reject r => cases named
  | some id =>
    cases found : app.inflight.lookup id with
    | none =>
      rw [AppState.handle_missing named found]
      exact ⟨rfl,rfl,rfl⟩
    | some entry =>
      obtain ⟨app',handled,gates,_⟩ := AppState.handle_found named found now
      rw [handled]
      exact gates

/-- What a step of the traffic adds to the requests, and what it does to the gateway:
    a new order has an identifier that was not in use, and the next stamp. -/
theorem asked_step {event : Traffic} (ran : s.traffic event = some s') :
    (asked s'.requests = asked s.requests ∧ s'.app.gateway = s.app.gateway) ∨
      (∃ c, asked s'.requests = asked s.requests ++ [.cancelOrder c] ∧ s'.app.gateway = s.app.gateway) ∨
      ∃ m, asked s'.requests = asked s.requests ++ [.newOrder m] ∧ m.orderId ∉ s.app.gateway.inUse ∧
        s'.app.gateway.inUse = insert m.orderId s.app.gateway.inUse := by
  cases event with
  | postOrder body =>
    rcases System.postOrder_cases ran with rfl | ⟨m,gateway,free,inUse,_,_,rfl⟩
    · exact .inl ⟨rfl,rfl⟩
    · exact .inr (.inr ⟨m,List.map_append,free,inUse⟩)
  | postCancel orderId =>
    rw [System.postCancel_cases ran]
    exact .inr (.inl ⟨⟨orderId⟩,List.map_append,rfl⟩)
  | check n =>
    obtain ⟨command,mailbox,_,rfl⟩ := System.check_cases ran
    exact .inl ⟨asked_move _ _ _,rfl⟩
  | register n =>
    obtain ⟨command,mailbox,_,rfl | ⟨app,prepared,rfl⟩⟩ := System.register_cases ran
    · exact .inl ⟨asked_move _ _ _,rfl⟩
    · obtain ⟨_,entry,_,_,_,rfl⟩ := prepare_some prepared
      exact .inl ⟨asked_move _ _ _,rfl⟩
  | send n =>
    obtain ⟨command,mailbox,_,rfl⟩ := System.send_cases ran
    exact .inl ⟨asked_move _ _ _,rfl⟩
  | receive n =>
    obtain ⟨command,reply,_,rfl⟩ := System.receive_cases ran
    exact .inl ⟨asked_move _ _ _,rfl⟩
  | giveUp n =>
    obtain ⟨command,_,rfl⟩ := System.giveUp_cases ran
    exact .inl ⟨asked_move _ _ _,rfl⟩
  | drop n =>
    obtain ⟨command,mailbox,_,rfl⟩ := System.drop_cases ran
    exact .inl ⟨asked_move _ _ _,rfl⟩
  | forward =>
    obtain ⟨frame,rest,_,_,rfl⟩ := System.forward_cases ran
    rw [System.write]
    split
    · exact .inl ⟨rfl,rfl⟩
    · exact .inl ⟨rfl,rfl⟩
  | process =>
    obtain ⟨frame,rest,events,engine,_,_,rfl⟩ := System.process_cases ran
    exact .inl ⟨rfl,rfl⟩
  | handle now =>
    obtain ⟨frame,msg,rest,_,rfl⟩ := System.handle_cases ran
    refine .inl ⟨asked_deliver _ _,?_⟩
    have gates := handle_gates s.app now msg
    cases sent : (s.app.handleEngineEvent now msg).2 with
    | none => exact gates.gateway
    | some reply => exact gates.gateway

/-- Every new order has an identifier of its own, which is in use. -/
structure Issued (s : System maxOrders maxPriceLevels) : Prop where
  distinct : ((asked s.requests).filterMap newOrderId).Nodup
  taken : ∀ id ∈ (asked s.requests).filterMap newOrderId, id ∈ s.app.gateway.inUse

theorem Issued.step (issued : Issued s) {event : Traffic} (ran : s.traffic event = some s') : Issued s' := by
  rcases asked_step ran with ⟨same,gateway⟩ | ⟨c,more,gateway⟩ | ⟨m,more,free,inUse⟩
  · constructor
    · rw [same]
      exact issued.distinct
    · rw [same,gateway]
      exact issued.taken
  · have ids : (asked s'.requests).filterMap newOrderId = (asked s.requests).filterMap newOrderId := by
      rw [more,List.filterMap_append]
      exact List.append_nil _
    constructor
    · rw [ids]
      exact issued.distinct
    · rw [ids,gateway]
      exact issued.taken
  · have ids : (asked s'.requests).filterMap newOrderId = (asked s.requests).filterMap newOrderId ++ [m.orderId] := by
      rw [more,List.filterMap_append]
      rfl
    constructor
    · rw [ids,List.nodup_append]
      refine ⟨issued.distinct,List.nodup_singleton _,?_⟩
      rintro id old other new rfl
      rw [List.mem_singleton.mp new] at old
      exact free (issued.taken _ old)
    · intro id inside
      rw [ids] at inside
      rw [inUse]
      rcases List.mem_append.mp inside with old | new
      · exact Finset.mem_insert_of_mem (issued.taken id old)
      · rw [List.mem_singleton.mp new]
        exact Finset.mem_insert_self _ _

/-- Two new orders with one identifier are of one request. -/
theorem Issued.alone (issued : Issued s) (traced : Traced market s) {f g : Frame} (first : f ∈ framesOf s)
    (second : g ∈ framesOf s) {id : UInt64} (named : newOrderId f.command = some id)
    (named' : newOrderId g.command = some id) : f.owner = g.owner := by
  obtain ⟨r,found,command,_⟩ := traced.sent f first
  obtain ⟨r',found',command',_⟩ := traced.sent g second
  have here : (asked s.requests)[f.owner]? = some f.command := by rw [asked,List.getElem?_map,found,← command]; rfl
  have there : (asked s.requests)[g.owner]? = some g.command := by rw [asked,List.getElem?_map,found',← command']; rfl
  have apart := List.pairwise_filterMap.mp issued.distinct
  rw [List.pairwise_iff_getElem] at apart
  obtain ⟨bound,value⟩ := List.getElem?_eq_some_iff.mp here
  obtain ⟨bound',value'⟩ := List.getElem?_eq_some_iff.mp there
  rcases Nat.lt_trichotomy f.owner g.owner with less | same | more
  · exact absurd rfl (apart _ _ bound bound' less id (by rw [value]; exact named) id (by rw [value']; exact named'))
  · exact same
  · exact absurd rfl (apart _ _ bound' bound more id (by rw [value']; exact named') id (by rw [value]; exact named))

/-- Who rests after a conversation rested before or came with one of its orders. -/
theorem idsOf_after {engine : MatchingEngine maxOrders maxPriceLevels} (shown : Shows engine market) {id : UInt64}
    (absent : id ∉ idsOf market.exchange.walks) {log : List (Frame × List BinaryMessage)}
    (unnamed : id ∉ (commandsOf log).filterMap newOrderId) :
    id ∉ idsOf (marketAfter maxOrders maxPriceLevels market log).exchange.walks := by
  induction log generalizing market engine with
  | nil => exact absent
  | cons p rest ih =>
    obtain ⟨engine',_,shown'⟩ := step_shows shown p.1.command
    have positive : ∀ side, ∀ e ∈ market.exchange.walks side, 0 < e.remainingQty := by
      intro side
      rw [← shown.walks]
      exact shown.sound.positive side
    have away : ∀ side, ∀ e ∈ market.exchange.walks side, e.orderId ≠ id := by
      intro side e inside same
      exact absent (mem_idsOf.mpr ⟨side,e,inside,same⟩)
    have other : ∀ m, p.1.command = .newOrder m → m.orderId ≠ id := by
      rintro m equal rfl
      refine unnamed (List.mem_filterMap.mpr ⟨p.1.command,List.mem_cons_self,?_⟩)
      rw [equal]
      rfl
    refine ih shown' ?_ ?_
    · intro inside
      obtain ⟨side,e,inWalk,same⟩ := mem_idsOf.mp inside
      exact (step_absent positive away other).1 side e inWalk same
    · intro inside
      obtain ⟨command,inRest,named⟩ := List.mem_filterMap.mp inside
      exact unnamed (List.mem_filterMap.mpr ⟨command,List.mem_cons_of_mem _ inRest,named⟩)
end

/-! ### The book that the gateway keeps -/

/-- The pools have room for what is left of an order. -/
def Fits (engine : MatchingEngine maxOrders maxPriceLevels) : Command → Prop
  | .newOrder m => validateNewOrder m = none → droppedQty engine m = 0
  | .cancelOrder _ => True

/-- The engine's pools refuse no remainder, and a terminator is handled while the entry
    of its own request is registered. -/
def Matched (s : System maxOrders maxPriceLevels) : Traffic → Prop
  | .process => ∀ frame ∈ s.toEngine.head?, Fits s.engine frame.command
  | .handle _ => ∀ p ∈ s.toGateway.head?, ∀ id ∈ terminatorId p.2,
      ∃ entry ∈ s.app.inflight.lookup id, entry.responder = p.1.owner
  | _ => True

instance (engine : MatchingEngine maxOrders maxPriceLevels) : DecidablePred (Fits engine)
  | .newOrder m => inferInstanceAs (Decidable (validateNewOrder m = none → droppedQty engine m = 0))
  | .cancelOrder _ => .isTrue trivial

instance (s : System maxOrders maxPriceLevels) : DecidablePred (Matched s)
  | .process => inferInstanceAs (Decidable (∀ frame ∈ s.toEngine.head?, Fits s.engine frame.command))
  -- named, as the search would run through all identifiers
  | .handle _ =>
    have (p : Frame × BinaryMessage) : Decidable (∀ id ∈ terminatorId p.2,
        ∃ entry ∈ s.app.inflight.lookup id, entry.responder = p.1.owner) :=
      Option.decidableForallMem _
    inferInstanceAs (Decidable (∀ p ∈ s.toGateway.head?, ∀ id ∈ terminatorId p.2,
      ∃ entry ∈ s.app.inflight.lookup id, entry.responder = p.1.owner))
  | .postOrder _ | .postCancel _ | .check _ | .register _ | .send _ | .receive _ | .giveUp _ | .drop _
  | .forward => .isTrue trivial

/-- An entry that stands under the identifier of the next event but belongs to another
    request. -/
def Misled (s : System maxOrders maxPriceLevels) (id : UInt64) (entry : InFlight) : Prop :=
  ∃ p ∈ s.toGateway.head?, p.1.command.orderId = id ∧ p.1.owner ≠ entry.responder

/-- The book is the fold of the events that were handled. An entry has the trades of its
    own command as fills; one that has others will be found by a terminator that is not
    its own. -/
structure Projected (s : System maxOrders maxPriceLevels) : Prop where
  fills : ∀ id entry, s.app.inflight.lookup id = some entry →
    entry.fills = fillsFor entry.responder s.applied ∨ Misled s id entry
  book : s.app.book = (projectAll ({},[]) s.applied).1

/-- What a terminator does to the book when it finds its own entry. -/
theorem settledBook_own {book : Projection.OrderBook} {entry : InFlight} {command : Command} {msg : BinaryMessage}
    {trades : List Trade} (registers : Registers entry command) (terminator : Terminator command msg)
    (fills : entry.fills = trades.map fillOfTrade) : settledBook book entry msg = settled book trades command msg := by
  have sum : AppState.filled entry = (trades.map Trade.quantity).sum := by
    rw [AppState.filled,fills,List.map_map]
    rfl
  cases command with
  | newOrder m =>
    obtain ⟨side,price,quantity,_⟩ := registers
    rcases terminator with rfl | ⟨reason,rfl⟩
    · rw [settledBook,settled,leftOf,sum,side,price,quantity]
    · rfl
  | cancelOrder c =>
    rcases terminator with rfl | ⟨reason,rfl⟩
    · rfl
    · rfl

section
variable {s s' : System maxOrders maxPriceLevels} {market : Market}

/-- The entries after a step that handles nothing. -/
theorem Projected.still (projected : Projected s) (still : Still s s') {id : UInt64} {entry : InFlight}
    (found : s.app.inflight.lookup id = some entry) :
    entry.fills = fillsFor entry.responder s'.applied ∨ Misled s' id entry := by
  rcases projected.fills id entry found with own | ⟨p,first,named,other⟩
  · rw [still.applied]
    exact .inl own
  · obtain ⟨more,behind⟩ := still.behind
    refine .inr ⟨p,?_,named,other⟩
    rw [behind,List.head?_append]
    rw [Option.mem_def] at first
    rw [first]
    rfl

/-- The entries after a trade. -/
theorem Projected.trade (projected : Projected s) (traced : Traced market s) {frame : Frame} {t : Trade}
    {rest : List (Frame × BinaryMessage)} (next : s.toGateway = (frame,.trade t) :: rest)
    (own : t.incomingId = frame.command.orderId) {id : UInt64} {entry : InFlight}
    (found : (s.app.accumulate t).inflight.lookup id = some entry) :
    entry.fills = fillsFor entry.responder (s.applied ++ [(frame,.trade t)]) ∨
      ∃ p ∈ rest.head?, p.1.command.orderId = id ∧ p.1.owner ≠ entry.responder := by
  have sent := next_sent traced next
  have others : ∀ entry, s.app.inflight.lookup id = some entry → id ≠ frame.command.orderId →
      entry.fills = fillsFor entry.responder (s.applied ++ [(frame,.trade t)]) := by
    intro entry found differs
    rw [fillsFor_other traced sent found differs]
    rcases projected.fills id entry found with own | ⟨p,first,named,_⟩
    · exact own
    · rw [next] at first
      cases first
      exact absurd named.symm differs
  rcases AppState.accumulate_lookup found with ⟨other,kept⟩ | ⟨old,rfl,looked,rfl⟩
  · exact .inl (others entry kept (by rw [← own]; exact other))
  · by_cases owner : frame.owner = old.responder
    · rcases projected.fills _ old looked with fills | ⟨p,first,_,other⟩
      · left
        rw [fillsFor_append,← fills,← owner]
        simp [fillsFor,fillOf,fillOfTrade]
      · rw [next] at first
        cases first
        exact absurd owner other
    · -- The trades of another request come here; its terminator will follow them.
      obtain ⟨_,_,_,after,_,_,remains,⟨_,_,_,more⟩ | ⟨_,terminator,_⟩⟩ := traced.next next
      · obtain ⟨msg,later,rfl⟩ := List.exists_cons_of_ne_nil more
        exact .inr ⟨(frame,msg),by rw [remains]; rfl,own.symm,owner⟩
      · have none := fillOf_terminator terminator
        cases none

theorem Projected.step (projected : Projected s) (traced : Traced market s) {event : Traffic} (may : Matched s event)
    (ran : s.traffic event = some s') : Projected s' := by
  have quiet (still : Still s s') : s'.app.book = (projectAll ({},[]) s'.applied).1 := by
    rw [still.book,still.applied]
    exact projected.book
  cases traced.moves ran with
  | aside still inflight same =>
    constructor
    · intro id entry found
      rw [inflight] at found
      exact projected.still still found
    · exact quiet still
  | registers found free fills responder still inflight more =>
    rename_i n command mailbox entry
    constructor
    · intro id other looked
      rw [inflight] at looked
      rcases Projection.lookup_insert_some looked with ⟨rfl,rfl⟩ | ⟨_,old⟩
      · left
        rw [still.applied,fills,responder,fillsFor_unsent traced found (show 1 < 3 by omega)]
      · exact projected.still still old
    · exact quiet still
  | drops found still inflight same =>
    constructor
    · intro id entry looked
      rw [inflight] at looked
      exact projected.still still (lookup_erase_some looked).2
    · exact quiet still
  | trades next own applied toGateway processed requests inflight journal book restoring same =>
    constructor
    · intro id entry looked
      rw [inflight] at looked
      rw [applied,Misled,toGateway]
      exact projected.trade traced next own looked
    · rw [book,applied,projectAll_append,projected.book]
      rfl
  | misses next terminator missing applied app processed requests less =>
    rename_i now frame msg rest
    have own := may (frame,msg) (by rw [next]; rfl) _ terminator.id
    rw [missing] at own
    obtain ⟨_,⟨⟩,_⟩ := own
  | settles next terminator found applied processed requests inflight journal book restoring less =>
    rename_i now frame msg rest entry
    have owner : entry.responder = frame.owner := by
      obtain ⟨own,looked,owner⟩ := may (frame,msg) (by rw [next]; rfl) _ terminator.id
      cases found.symm.trans looked
      exact owner
    constructor
    · intro id other looked
      rw [inflight] at looked
      obtain ⟨differs,looked⟩ := lookup_erase_some looked
      rw [applied,fillsFor_terminator terminator]
      rcases projected.fills id other looked with own | ⟨p,first,named,_⟩
      · exact .inl own
      · rw [next] at first
        cases first
        exact absurd named.symm differs
    · obtain ⟨first,last,trades,split,handled,fills⟩ := fillsFor_next traced next terminator
      have own : entry.fills = trades.map fillOfTrade := by
        rw [← fills,← owner]
        rcases projected.fills _ entry found with own | ⟨p,first,_,other⟩
        · exact own
        · rw [next] at first
          cases first
          exact absurd owner.symm other
      have registers := (entry_own traced found (next_sent traced next) owner).2
      have cleared : (projectAll ({},[]) (first.flatMap emitted)).2 = [] := by
        refine projectAll_log ?_ {}
        intro p inside
        exact traced.answered p (by rw [split]; exact List.mem_append_left _ inside)
      have pending : (projectAll ({},[]) s.applied).2 = trades := by
        rw [handled,projectAll_append,projectAll_trades,cleared]
        rfl
      rw [book,settledBook_own registers terminator own,applied,projectAll_append,projected.book]
      change _ = (project (projectAll ({},[]) s.applied) (frame,msg)).1
      rw [project_terminator terminator,pending]

/-! ### Conversations without refusals -/

/-- The engine stands still, or it processes the next frame. -/
theorem processed_step {event : Traffic} (ran : s.traffic event = some s') :
    (s'.processed = s.processed ∧ s'.engine = s.engine) ∨ ∃ frame rest events, event = .process ∧
      s.toEngine = frame :: rest ∧ s'.processed = s.processed ++ [(frame,events)] ∧
      Processing.answer s.engine frame.command.message = some (events,s'.engine) := by
  rcases System.frames_cases ran with ⟨engine,processed,_,_⟩ | rfl | rfl
  · exact .inl ⟨processed,engine⟩
  · obtain ⟨frame,rest,_,_,rfl⟩ := System.forward_cases ran
    rw [System.write]
    split
    · exact .inl ⟨rfl,rfl⟩
    · exact .inl ⟨rfl,rfl⟩
  · obtain ⟨frame,rest,events,engine,written,answered,rfl⟩ := System.process_cases ran
    exact .inr ⟨frame,rest,events,rfl,written,rfl,answered⟩

/-- The identifier of a frame that the engine has not processed is not that of a
    processed order. -/
theorem Issued.unnamed (issued : Issued s) (traced : Traced market s) {frame : Frame} {rest : List Frame} {m : NewOrder}
    (written : s.toEngine = frame :: rest) (command : frame.command = .newOrder m) :
    m.orderId ∉ (commandsOf s.processed).filterMap newOrderId := by
  intro inside
  obtain ⟨other,inLog,named⟩ := List.mem_filterMap.mp inside
  obtain ⟨p,processed,rfl⟩ := List.mem_map.mp inLog
  have first : p.1 ∈ framesOf s := List.mem_append_left _ (List.mem_append_left _ (List.mem_map_of_mem processed))
  have second : frame ∈ framesOf s := by simp [framesOf,written]
  have same := issued.alone traced first second named (by rw [command]; rfl)
  have distinct := traced.distinct
  rw [framesOf,List.append_assoc,List.map_append,List.nodup_append] at distinct
  refine distinct.2.2 _ (List.mem_map_of_mem (List.mem_map_of_mem processed)) frame.owner ?_ same
  rw [written]
  simp

theorem allSmooth_step {engine : MatchingEngine maxOrders maxPriceLevels} (shown : Shows engine market)
    (empty : ∀ side, market.exchange.walks side = []) (smooth : AllSmooth maxOrders maxPriceLevels market s.processed)
    (traced : Traced market s) (issued : Issued s) {event : Traffic} (may : Matched s event)
    (ran : s.traffic event = some s') : AllSmooth maxOrders maxPriceLevels market s'.processed := by
  rcases processed_step ran with ⟨same,_⟩ | ⟨frame,rest,events,rfl,written,more,_⟩
  · rw [same]
    exact smooth
  · have fits := may frame (by rw [written]; rfl)
    rw [more,allSmooth_append]
    refine ⟨smooth,?_,trivial⟩
    change Smooth maxOrders maxPriceLevels _ frame.command
    cases command : frame.command with
    | cancelOrder c => trivial
    | newOrder m =>
      intro valid
      constructor
      · refine idsOf_after shown ?_ (issued.unnamed traced written command)
        intro inside
        obtain ⟨side,e,inWalk,_⟩ := mem_idsOf.mp inside
        rw [empty side] at inWalk
        cases inWalk
      · rw [← traced.shown.viewed,← droppedQty_eq traced.shown.sound]
        rw [command] at fits
        exact fits valid
end

/-! ### The projection and the engine's book -/

/-- The level that some resting orders make: none without orders, else their quantity
    and their number. -/
def IsLevel (here : List Entry) : Option Level → Prop
  | none => here = []
  | some level => here ≠ [] ∧ level.quantity.toNat = (here.map (fun e => e.remainingQty.toNat)).sum ∧
      level.orders.toNat = here.length

/-- What the projection keeps of an entry of a side. -/
def tracked (side : Side) (e : Entry) : RestingOrder := ⟨side,e.priceTicks,e.remainingQty⟩

theorem filter_tracked (walk : List Entry) (s side : Side) (price : UInt64) :
    (walk.map (tracked s)).filter (fun o => o.side = side ∧ o.priceTicks = price) =
      if s = side then (walk.filter (fun e => e.priceTicks = price)).map (tracked s) else [] := by
  rw [List.filter_map]
  by_cases same : s = side
  · subst same
    rw [if_pos rfl]
    congr 1
    refine List.filter_congr ?_
    intro e _
    exact decide_eq_decide.mpr (by simp [tracked])
  · rw [if_neg same,List.map_eq_nil_iff,List.filter_eq_nil_iff]
    intro e _
    simp [tracked,same]

/-- The tracked orders at a price are the entries of the walk at that price. -/
theorem atPrice_mirrored {book : Projection.OrderBook} {walks : Side → List Entry} (mirrors : Mirrors book walks)
    (side : Side) (price : UInt64) :
    atPrice book.orders side price = ↑(((walks side).filter (fun e => e.priceTicks = price)).map (tracked side)) := by
  have own := filter_tracked (walks side) side side price
  have other := filter_tracked (walks (opposite side)) (opposite side) side price
  rw [if_pos rfl] at own
  rw [if_neg (opposite_ne side)] at other
  rw [atPrice,mirrors.tracked,trackedOf_side _ side,Multiset.map_add,Multiset.filter_add,Multiset.map_coe,Multiset.map_coe,
    Multiset.filter_coe,Multiset.filter_coe,List.map_map,List.map_map]
  have snd : ∀ s, Sigma.snd ∘ asTracked s = tracked s := fun _ => rfl
  rw [snd,snd,own,other]
  exact add_zero _

theorem isLevel_mirrored {book : Projection.OrderBook} {walks : Side → List Entry} (mirrors : Mirrors book walks)
    (few : (walks .Buy).length + (walks .Sell).length < 2^32) (side : Side) (price : UInt64) :
    IsLevel ((walks side).filter (fun e => e.priceTicks = price)) ((book.levels side).lookup price) := by
  have count : (atPrice book.orders side price).card < 2^32 := by
    refine Nat.lt_of_le_of_lt (Projection.card_atPrice_le book.orders side price) ?_
    rw [mirrors.tracked,card_trackedOf]
    exact few
  have quantity := Projection.quantityOf_lt count
  rw [mirrors.consistent.tallied]
  rw [atPrice_mirrored mirrors] at count quantity ⊢
  generalize (walks side).filter (fun e => e.priceTicks = price) = here at count quantity ⊢
  rw [Multiset.coe_card,List.length_map] at count
  rw [quantityOf,Multiset.map_coe,Multiset.sum_coe,List.map_map] at quantity
  rw [tally]
  split_ifs with none
  · exact List.map_eq_nil_iff.mp (Multiset.coe_eq_zero _ |>.mp none)
  · rw [Multiset.map_coe,Multiset.sum_coe,List.map_map,Multiset.coe_card,List.length_map]
    refine ⟨?_,?_,?_⟩
    · rintro rfl
      exact none rfl
    · rw [UInt64.toNat_ofNat']
      exact Nat.mod_eq_of_lt quantity
    · rw [UInt32.toNat_ofNat']
      exact Nat.mod_eq_of_lt count

/-- Once the events of the first commands are handled, the orders of the projection are
    the orders that rest in the engine after these commands, and its levels are the
    totals of these orders at each price. -/
theorem projection_is_book {start s : System maxOrders maxPriceLevels} (opened : Opened start)
    (empty : ∀ side, resting start.engine.book side = []) (blank : start.app.book = {})
    (leads : Leads System.traffic Matched start s) {k : Nat}
    (handled : s.applied = (s.processed.take k).flatMap emitted) :
    ∃ outcomes engine, run start.engine (commandsOf (s.processed.take k)) = some (outcomes,engine) ∧
      (∀ id order, s.app.book.orders.lookup id = some order ↔
        ∃ e ∈ resting engine.book order.side, e.orderId = id ∧ e.priceTicks = order.priceTicks ∧
          e.remainingQty = order.remaining) ∧
      ∀ side price, IsLevel ((resting engine.book side).filter (fun e => e.priceTicks = price))
        ((s.app.book.levels side).lookup price) := by
  obtain ⟨market,shown⟩ := Opened.shows opened
  have nobody : ∀ side, market.exchange.walks side = [] := by
    intro side
    rw [← shown.walks]
    exact empty side
  have initial : Projected start := by
    constructor
    · intro id entry found
      rw [opened.inflight] at found
      cases found
    · rw [blank,opened.applied]
      rfl
  have issued : Issued start := by
    constructor
    · rw [opened.requests]
      exact List.nodup_nil
    · rw [opened.requests]
      intro id inside
      cases inside
  have all : Traced market s ∧ Issued s ∧ Projected s ∧ AllSmooth maxOrders maxPriceLevels market s.processed := by
    refine leads.keeps (P := fun s => Traced market s ∧ Issued s ∧ Projected s ∧
      AllSmooth maxOrders maxPriceLevels market s.processed) ⟨opened.traced shown,issued,initial,?_⟩ ?_
    · rw [opened.processed]
      trivial
    · rintro s event s' ⟨traced,issued,projected,smooth⟩ may ran
      exact ⟨traced.step ran,issued.step ran,projected.step traced may ran,
        allSmooth_step shown nobody smooth traced issued may ran⟩
  obtain ⟨traced,_,projected,smooth⟩ := all
  have spoken := traced.spoken
  rw [← List.take_append_drop k s.processed,spoken_append] at spoken
  rw [← List.take_append_drop k s.processed,allSmooth_append] at smooth
  have initially : Mirrors {} market.exchange.walks := by
    refine ⟨Projection.consistent_new,?_⟩
    rw [trackedOf,nobody,nobody]
    rfl
  have mirrors := project_mirrors shown initially spoken.1 smooth.1
  rw [← handled,← projected.book,marketAfter_eq] at mirrors
  obtain ⟨engine,ran,shown'⟩ := run_shows shown (commandsOf (s.processed.take k))
  have walks := funext shown'.walks
  refine ⟨_,engine,ran,?_,?_⟩
  · intro id order
    rw [← Projection.mem_entries,mirrors.tracked,mem_trackedOf,walks]
  · intro side price
    rw [walks]
    exact isLevel_mirrored mirrors (shown_few shown') side price

/-- A bid of five, an ask that takes three of it, and a cancellation of an order that
    never was. -/
def partialFill : List Traffic :=
  .postOrder (order "buy" 100 5 5) :: submit 0 ++ .postOrder (order "sell" 100 3 6) :: submit 1 ++ .postCancel 9 :: submit 2 ++
    [.forward,.forward,.forward,.process,.process,.process,.handle 0,.handle 0,.handle 0,.handle 0]

theorem projection_is_book_partial_fill :
    ∃ s : System .four .four, Leads System.traffic Matched Correlation.opened s ∧
      ∃ outcomes engine, run Correlation.opened.engine (commandsOf s.processed) = some (outcomes,engine) ∧
        s.app.book.orders.lookup 5 = some ⟨.Buy,100,2⟩ ∧
        ∃ e ∈ resting engine.book .Buy, e.orderId = 5 ∧ e.priceTicks = 100 ∧ e.remainingQty = 2 := by
  have ran : (follow System.traffic Matched Correlation.opened partialFill).map
      (fun s => (decide (s.applied = (s.processed.take 3).flatMap emitted),s.processed.length,
        s.app.book.orders.lookup 5)) = some (true,3,some ⟨.Buy,100,2⟩) := by
    decide +kernel
  obtain ⟨s,followed,result⟩ := Option.map_eq_some_iff.mp ran
  obtain ⟨handled,rest⟩ := Prod.mk.inj result
  obtain ⟨three,tracked⟩ := Prod.mk.inj rest
  have leads := follow_leads followed
  have empty : ∀ side, resting Correlation.opened.engine.book side = [] := by
    have shown : Shows (MatchingEngine.new : MatchingEngine .four .four) Market.empty := shows_new
    exact shown.walks
  obtain ⟨outcomes,engine,ran',orders,_⟩ := projection_is_book opened_opened empty rfl leads (of_decide_eq_true handled)
  rw [List.take_of_length_le (Nat.le_of_eq three)] at ran'
  exact ⟨s,leads,outcomes,engine,ran',tracked,(orders 5 _).mp tracked⟩

end HyperMatch.GatewayBook
