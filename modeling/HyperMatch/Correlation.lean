import HyperMatch.Outstanding

/-!
Which reply goes to which handler. Entries and events meet by the identifier of the
order alone, so a reply is that of the handler's own command as long as a handler
registers only when no earlier command with its identifier is outstanding; a handler
that gives up and drops its entry makes room for another one too early.
-/
namespace HyperMatch.Correlation
open HyperMatch.Wire HyperMatch.Matching HyperMatch.MatchingEngine HyperMatch.Streams HyperMatch.Runs
open HyperMatch.OrderBook (PoolCapacity)

variable {maxOrders maxPriceLevels : PoolCapacity}

/-! ### Fills -/

def fillOfTrade (t : Trade) : Fill := ⟨t.execSeq,t.priceTicks,t.quantity,t.restingId⟩

/-- The fill that an event carries. -/
def fillOf : BinaryMessage → Option Fill
  | .trade t => some (fillOfTrade t)
  | _ => none

/-- The fills of a request among the events. -/
def fillsFor (n : Nat) (events : List (Frame × BinaryMessage)) : List Fill :=
  events.filterMap (fun p => if p.1.owner = n then fillOf p.2 else none)

theorem fillsFor_append (n : Nat) (events later : List (Frame × BinaryMessage)) :
    fillsFor n (events ++ later) = fillsFor n events ++ fillsFor n later := List.filterMap_append

theorem fillsFor_others {n : Nat} {events : List (Frame × BinaryMessage)} (others : ∀ p ∈ events, p.1.owner ≠ n) :
    fillsFor n events = [] := by
  rw [fillsFor,List.filterMap_eq_nil_iff]
  intro p inside
  exact if_neg (others p inside)

theorem fillsFor_own (frame : Frame) (events : List BinaryMessage) :
    fillsFor frame.owner (events.map (frame,·)) = events.filterMap fillOf := by
  rw [fillsFor,List.filterMap_map]
  congr
  funext msg
  simp

theorem fillOf_trades (trades : List Trade) :
    (trades.map BinaryMessage.trade).filterMap fillOf = trades.map fillOfTrade := by
  rw [List.filterMap_map]
  exact congrFun List.filterMap_eq_map trades

theorem fillOf_terminator {command : Command} {msg : BinaryMessage} (terminator : Terminator command msg) :
    fillOf msg = none := by
  cases command with
  | newOrder m =>
    rcases terminator with rfl | ⟨_,rfl⟩
    · rfl
    · rfl
  | cancelOrder c =>
    rcases terminator with rfl | ⟨_,rfl⟩
    · rfl
    · rfl

theorem fillsFor_terminator {frame : Frame} {msg : BinaryMessage} (terminator : Terminator frame.command msg) (n : Nat)
    (events : List (Frame × BinaryMessage)) : fillsFor n (events ++ [(frame,msg)]) = fillsFor n events := by
  rw [fillsFor_append]
  simp [fillsFor,fillOf_terminator terminator]

/-- What a request holds after a delivery it held before, or it is the reply. -/
theorem deliver_mail {requests : List Request} {n m : Nat} {reply given : EngineReply} {r : Request}
    (found : (requests.modify m (Request.deliver given))[n]? = some r) (mailbox : r.mailbox = some reply) :
    (∃ old, requests[n]? = some old ∧ old.command = r.command ∧ old.mailbox = some reply) ∨
      (n = m ∧ reply = given ∧ ∃ old, requests[n]? = some old ∧ old.command = r.command) := by
  rw [List.getElem?_modify] at found
  cases looked : requests[n]? with
  | none =>
    rw [looked] at found
    cases found
  | some old =>
    rw [looked] at found
    by_cases same : m = n
    · simp only [same,if_true,Option.map_eq_map,Option.map_some,Option.some.injEq] at found
      subst found
      rw [Request.deliver] at mailbox
      split at mailbox
      · exact .inr ⟨same.symm,(Option.some.inj mailbox).symm,old,rfl,(deliver_command given old).symm⟩
      · exact .inr ⟨same.symm,(Option.some.inj mailbox).symm,old,rfl,(deliver_command given old).symm⟩
      · exact .inr ⟨same.symm,(Option.some.inj mailbox).symm,old,rfl,(deliver_command given old).symm⟩
      · exact .inl ⟨old,rfl,(deliver_command given old).symm,mailbox⟩
    · simp only [same,if_false,Option.map_eq_map,Option.map_some,Option.some.injEq] at found
      subst found
      exact .inl ⟨old,rfl,rfl,mailbox⟩

section
variable {s s' : System maxOrders maxPriceLevels} {market : Market} {frame : Frame} {msg : BinaryMessage}
  {rest : List (Frame × BinaryMessage)}

theorem mem_emitted {log : List (Frame × List BinaryMessage)} {p : Frame × BinaryMessage}
    (inside : p ∈ log.flatMap emitted) : p.1 ∈ log.map Prod.fst := by
  obtain ⟨q,inLog,inEmitted⟩ := List.mem_flatMap.mp inside
  obtain ⟨_,_,rfl⟩ := List.mem_map.mp inEmitted
  exact List.mem_map_of_mem inLog

/-- The frame of an event that was handled was sent. -/
theorem applied_sent (traced : Traced market s) {p : Frame × BinaryMessage} (inside : p ∈ s.applied) : p.1 ∈ framesOf s := by
  have emitted : p ∈ s.processed.flatMap emitted := by
    rw [← traced.stream]
    exact List.mem_append_left _ inside
  exact List.mem_append_left _ (List.mem_append_left _ (mem_emitted emitted))

theorem next_sent (traced : Traced market s) (next : s.toGateway = (frame,msg) :: rest) : frame ∈ framesOf s := by
  obtain ⟨_,_,_,_,processed,_⟩ := traced.next next
  rw [framesOf,processed]
  simp

theorem next_outstanding (next : s.toGateway = (frame,msg) :: rest) : frame ∈ outstanding s := by
  rw [mem_outstanding,next]
  exact .inl ⟨msg,List.mem_cons_self⟩

/-- A handler that has not sent its frame has no fills. -/
theorem fillsFor_unsent (traced : Traced market s) {n : Nat} {r : Request} (found : s.requests[n]? = some r)
    (early : rank r.phase < 3) : fillsFor n s.applied = [] := by
  refine fillsFor_others ?_
  rintro p inside rfl
  obtain ⟨r',request,_,phase⟩ := traced.sent _ (applied_sent traced inside)
  cases found.symm.trans request
  omega

/-- Before a terminator, what was handled are the events of the frames before it and
    its own trades, and these are the fills of its request. -/
theorem fillsFor_next (traced : Traced market s) (next : s.toGateway = (frame,msg) :: rest)
    (terminator : Terminator frame.command msg) :
    ∃ (first last : List (Frame × List BinaryMessage)) (trades : List Trade),
      s.processed = first ++ (frame,trades.map .trade ++ [msg]) :: last ∧
      s.applied = first.flatMap emitted ++ (trades.map BinaryMessage.trade).map (frame,·) ∧
      fillsFor frame.owner s.applied = trades.map fillOfTrade := by
  obtain ⟨first,last,before,after,processed,applied,_,⟨t,rfl,_,_⟩ | ⟨rfl,_,trades,rfl⟩⟩ := traced.next next
  · have none := fillOf_terminator terminator
    cases none
  · refine ⟨first,last,trades,processed,applied,?_⟩
    have others : ∀ p ∈ first.flatMap emitted, p.1.owner ≠ frame.owner := by
      have distinct := traced.distinct
      rw [framesOf,processed,List.append_assoc,List.map_append,List.map_append,List.map_append,List.append_assoc,
        List.nodup_append] at distinct
      intro p inside
      refine distinct.2.2 _ (List.mem_map_of_mem (mem_emitted inside)) _ ?_
      simp
    rw [applied,fillsFor_append,fillsFor_others others,List.nil_append,fillsFor_own,fillOf_trades]

/-- The entry of the request that a frame belongs to stands under its identifier and has
    its data. -/
theorem entry_own (traced : Traced market s) {id : UInt64} {entry : InFlight}
    (found : s.app.inflight.lookup id = some entry) (sent : frame ∈ framesOf s) (same : entry.responder = frame.owner) :
    id = frame.command.orderId ∧ Registers entry frame.command := by
  obtain ⟨r,request,named,registers,_⟩ := traced.entries id entry found
  obtain ⟨r',request',command,_⟩ := traced.sent frame sent
  rw [same] at request
  cases request.symm.trans request'
  rw [command] at named registers
  exact ⟨named.symm,registers⟩

/-- An event adds no fill to the entries under other identifiers. -/
theorem fillsFor_other (traced : Traced market s) (sent : frame ∈ framesOf s) {id : UInt64} {entry : InFlight}
    (found : s.app.inflight.lookup id = some entry) (differs : id ≠ frame.command.orderId) :
    fillsFor entry.responder (s.applied ++ [(frame,msg)]) = fillsFor entry.responder s.applied := by
  have others : ∀ p ∈ [(frame,msg)], p.1.owner ≠ entry.responder := by
    intro p inside same
    rw [List.mem_singleton.mp inside] at same
    exact differs (entry_own traced found sent same.symm).1
  rw [fillsFor_append,fillsFor_others others,List.append_nil]
end

/-! ### Replies -/

/-- A handler registers only when no earlier command with its identifier is
    outstanding. -/
def RegistersAlone (s : System maxOrders maxPriceLevels) : Traffic → Prop
  | .register n => ∀ request ∈ s.requests[n]?, s.app.inflight.lookup request.command.orderId = none →
      ∀ frame ∈ outstanding s, frame.command.orderId ≠ request.command.orderId
  | _ => True

/-- The reply is the answer of the engine to this command of this request. -/
def AnswersOwn (processed : List (Frame × List BinaryMessage)) (n : Nat) (command : Command) (reply : EngineReply) : Prop :=
  ∃ trades : List Trade, (⟨command,n⟩,trades.map .trade ++ [reply.terminator]) ∈ processed ∧
    reply.fills = trades.map fillOfTrade ∧ Terminator command reply.terminator

structure Correlated (s : System maxOrders maxPriceLevels) : Prop where
  alone : ∀ f ∈ outstanding s, ∀ g ∈ outstanding s, f.command.orderId = g.command.orderId → f.owner = g.owner
  owned : ∀ id entry, s.app.inflight.lookup id = some entry →
    ∃ f ∈ outstanding s, f.owner = entry.responder ∧ f.command.orderId = id
  fills : ∀ id entry, s.app.inflight.lookup id = some entry → entry.fills = fillsFor entry.responder s.applied
  replies : ∀ (n : Nat) (r : Request) (reply : EngineReply), s.requests[n]? = some r → r.mailbox = some reply →
    AnswersOwn s.processed n r.command reply

section
variable {s s' : System maxOrders maxPriceLevels} {market : Market}

theorem Opened.correlated (opened : Opened s) : Correlated s := by
  constructor
  · intro f inside
    rw [mem_outstanding,opened.toGateway,opened.toEngine,opened.channel,opened.requests] at inside
    simp [unsent] at inside
  · intro id entry found
    rw [opened.inflight] at found
    cases found
  · intro id entry found
    rw [opened.inflight] at found
    cases found
  · intro n r reply found
    rw [opened.requests] at found
    cases found

/-- The replies after a step that delivers none. -/
theorem Correlated.kept (correlated : Correlated s) (mail : SameMail s.requests s'.requests)
    (grows : ∃ more, s'.processed = s.processed ++ more) :
    ∀ (n : Nat) (r : Request) (reply : EngineReply), s'.requests[n]? = some r → r.mailbox = some reply →
      AnswersOwn s'.processed n r.command reply := by
  intro n r reply found mailbox
  obtain ⟨old,found',command,mailbox'⟩ := mail n r reply found mailbox
  obtain ⟨trades,inside,fills,terminator⟩ := correlated.replies n old reply found' mailbox'
  obtain ⟨more,grown⟩ := grows
  rw [command] at inside terminator
  exact ⟨trades,by rw [grown]; exact List.mem_append_left _ inside,fills,terminator⟩

/-- An outstanding frame finds its own entry or none. -/
theorem Correlated.own (correlated : Correlated s) {frame : Frame} (inside : frame ∈ outstanding s) {entry : InFlight}
    (found : s.app.inflight.lookup frame.command.orderId = some entry) : entry.responder = frame.owner := by
  obtain ⟨f,inside',owner,id⟩ := correlated.owned _ entry found
  rw [← owner]
  exact correlated.alone f inside' frame inside id

/-- A trade goes to the entry of its own command. -/
theorem Correlated.trade (correlated : Correlated s) (traced : Traced market s) {frame : Frame} {t : Trade}
    {rest : List (Frame × BinaryMessage)} (next : s.toGateway = (frame,.trade t) :: rest)
    (own : t.incomingId = frame.command.orderId) {id : UInt64} {entry : InFlight}
    (found : (s.app.accumulate t).inflight.lookup id = some entry) :
    entry.fills = fillsFor entry.responder (s.applied ++ [(frame,.trade t)]) := by
  have sent := next_sent traced next
  rcases AppState.accumulate_lookup found with ⟨other,kept⟩ | ⟨old,rfl,looked,rfl⟩
  · rw [fillsFor_other traced sent kept (by rw [← own]; exact other)]
    exact correlated.fills id entry kept
  · have fills := correlated.fills _ old looked
    rw [own] at looked
    have owner := correlated.own (next_outstanding next) looked
    rw [fillsFor_append,← fills,owner]
    simp [fillsFor,fillOf,fillOfTrade]

/-- The terminator that is next, with the fills of the entry that it finds, answers the
    request of that entry. -/
theorem Correlated.answers (correlated : Correlated s) (traced : Traced market s) {frame : Frame} {msg : BinaryMessage}
    {rest : List (Frame × BinaryMessage)} {entry : InFlight} (next : s.toGateway = (frame,msg) :: rest)
    (terminator : Terminator frame.command msg) (found : s.app.inflight.lookup frame.command.orderId = some entry) :
    AnswersOwn s.processed entry.responder frame.command ⟨msg,entry.fills⟩ := by
  have owner := correlated.own (next_outstanding next) found
  obtain ⟨first,last,trades,split,_,fills⟩ := fillsFor_next traced next terminator
  refine ⟨trades,?_,?_,terminator⟩
  · rw [owner,split]
    simp
  · rw [← fills,← owner]
    exact correlated.fills _ entry found

/-- Once a frame is answered, the entries under other identifiers still belong to
    outstanding frames, one for each identifier. -/
theorem Correlated.answered (correlated : Correlated s) (traced : Traced market s) {frame : Frame} {msg : BinaryMessage}
    {rest : List (Frame × BinaryMessage)} (next : s.toGateway = (frame,msg) :: rest)
    (less : ∀ other, other ∈ outstanding s' ↔ other ∈ outstanding s ∧ other.owner ≠ frame.owner) :
    (∀ f ∈ outstanding s', ∀ g ∈ outstanding s', f.command.orderId = g.command.orderId → f.owner = g.owner) ∧
      ∀ id entry, s.app.inflight.lookup id = some entry → id ≠ frame.command.orderId →
        ∃ f ∈ outstanding s', f.owner = entry.responder ∧ f.command.orderId = id := by
  constructor
  · intro f insideF g insideG
    exact correlated.alone f ((less f).mp insideF).1 g ((less g).mp insideG).1
  · intro id entry looked differs
    obtain ⟨f,inside,owner,equal⟩ := correlated.owned id entry looked
    refine ⟨f,(less f).mpr ⟨inside,?_⟩,owner,equal⟩
    intro same
    exact differs (entry_own traced looked (next_sent traced next) (owner.symm.trans same)).1

theorem Correlated.step (correlated : Correlated s) (traced : Traced market s) {event : Traffic}
    (may : RegistersAlone s event) (ran : s.traffic event = some s') : Correlated s' := by
  cases traced.moves ran with
  | aside still inflight same =>
    refine ⟨?_,?_,?_,correlated.kept still.mail still.grows⟩
    · simp only [same]
      exact correlated.alone
    · rw [inflight]
      simp only [same]
      exact correlated.owned
    · rw [inflight,still.applied]
      exact correlated.fills
  | registers found free fills responder still inflight more =>
    rename_i n command mailbox entry
    have apart : ∀ frame ∈ outstanding s, frame.command.orderId ≠ command.orderId := may _ found free
    refine ⟨?_,?_,?_,correlated.kept still.mail still.grows⟩
    · intro f insideF g insideG same
      rcases (more f).mp insideF with oldF | rfl
      · rcases (more g).mp insideG with oldG | rfl
        · exact correlated.alone f oldF g oldG same
        · exact absurd same (apart f oldF)
      · rcases (more g).mp insideG with oldG | rfl
        · exact absurd same.symm (apart g oldG)
        · rfl
    · intro id other looked
      rw [inflight] at looked
      rcases Projection.lookup_insert_some looked with ⟨rfl,rfl⟩ | ⟨_,old⟩
      · exact ⟨⟨command,n⟩,(more _).mpr (.inr rfl),responder.symm,rfl⟩
      · obtain ⟨f,inside,owner,equal⟩ := correlated.owned id other old
        exact ⟨f,(more f).mpr (.inl inside),owner,equal⟩
    · intro id other looked
      rw [inflight] at looked
      rw [still.applied]
      rcases Projection.lookup_insert_some looked with ⟨rfl,rfl⟩ | ⟨_,old⟩
      · rw [fills,responder,fillsFor_unsent traced found (show 1 < 3 by omega)]
      · exact correlated.fills id other old
  | drops found still inflight same =>
    refine ⟨?_,?_,?_,correlated.kept still.mail still.grows⟩
    · simp only [same]
      exact correlated.alone
    · intro id entry looked
      rw [inflight] at looked
      simp only [same]
      exact correlated.owned id entry (lookup_erase_some looked).2
    · intro id entry looked
      rw [inflight] at looked
      rw [still.applied]
      exact correlated.fills id entry (lookup_erase_some looked).2
  | trades next own applied toGateway processed requests inflight journal book restoring same =>
    refine ⟨?_,?_,?_,?_⟩
    · simp only [same]
      exact correlated.alone
    · intro id entry looked
      rw [inflight] at looked
      obtain ⟨old,found,responder,_⟩ := accumulate_entries s.app _ looked
      rw [responder]
      simp only [same]
      exact correlated.owned id old found
    · intro id entry looked
      rw [inflight] at looked
      rw [applied]
      exact correlated.trade traced next own looked
    · rw [requests,processed]
      exact correlated.replies
  | misses next terminator missing applied app processed requests less =>
    obtain ⟨alone,owned⟩ := correlated.answered traced next less
    refine ⟨alone,?_,?_,?_⟩
    · intro id entry looked
      rw [app] at looked
      refine owned id entry looked ?_
      rintro rfl
      rw [missing] at looked
      cases looked
    · rw [app,applied]
      intro id entry looked
      rw [fillsFor_terminator terminator]
      exact correlated.fills id entry looked
    · rw [requests,processed]
      exact correlated.replies
  | settles next terminator found applied processed requests inflight journal book restoring less =>
    rename_i frame msg rest entry
    have owner := correlated.own (next_outstanding next) found
    obtain ⟨alone,owned⟩ := correlated.answered traced next less
    refine ⟨alone,?_,?_,?_⟩
    · intro id other looked
      rw [inflight] at looked
      obtain ⟨differs,looked⟩ := lookup_erase_some looked
      exact owned id other looked differs
    · rw [inflight,applied]
      intro id other looked
      rw [fillsFor_terminator terminator]
      exact correlated.fills id other (lookup_erase_some looked).2
    · rw [processed]
      intro n r reply request mailbox
      rw [requests] at request
      rcases deliver_mail request mailbox with ⟨old,request',command,mailbox'⟩ | ⟨rfl,rfl,old,request',command⟩
      · rw [← command]
        exact correlated.replies n old reply request' mailbox'
      · -- The handler that gets the reply is the one that the frame belongs to.
        have answers := correlated.answers traced next terminator found
        obtain ⟨r',request'',command',_⟩ := traced.sent frame (next_sent traced next)
        rw [owner] at request'
        cases request'.symm.trans request''
        rw [← command,command']
        exact answers

/-- Of each request the engine processes one frame at most. -/
theorem processed_once (traced : Traced market s) {p q : Frame × List BinaryMessage} (first : p ∈ s.processed)
    (second : q ∈ s.processed) (same : p.1.owner = q.1.owner) : p = q := by
  have distinct := traced.distinct
  rw [framesOf,List.append_assoc,List.map_append,List.nodup_append,List.map_map] at distinct
  exact List.inj_on_of_nodup_map distinct.1 first second same
end

/-- A reply that a handler receives is the engine's answer to its own command: its
    terminator, and the trades of the one frame that it sent. -/
theorem reply_answers_own {start s : System maxOrders maxPriceLevels} (opened : Opened start)
    (leads : Leads System.traffic RegistersAlone start s) {n : Nat} {request : Request} {reply : EngineReply}
    (found : s.requests[n]? = some request) (received : request.mailbox = some reply) :
    ∃ trades : List Trade,
      (∀ p ∈ s.processed, p.1.owner = n ↔ p = (⟨request.command,n⟩,trades.map .trade ++ [reply.terminator])) ∧
      (⟨request.command,n⟩,trades.map .trade ++ [reply.terminator]) ∈ s.processed ∧
      reply.fills = trades.map fillOfTrade ∧ Terminator request.command reply.terminator := by
  obtain ⟨market,shown⟩ := Opened.shows opened
  have both : Traced market s ∧ Correlated s := by
    refine leads.keeps (P := fun s => Traced market s ∧ Correlated s)
      ⟨opened.traced shown,Opened.correlated opened⟩ ?_
    rintro s event s' ⟨traced,correlated⟩ may ran
    exact ⟨traced.step ran,correlated.step traced may ran⟩
  obtain ⟨traced,correlated⟩ := both
  obtain ⟨trades,inside,fills,terminator⟩ := correlated.replies n request reply found received
  refine ⟨trades,?_,inside,fills,terminator⟩
  intro p processed
  constructor
  · intro owner
    exact processed_once traced processed inside owner
  · rintro rfl
    rfl

instance (s : System maxOrders maxPriceLevels) : DecidablePred (RegistersAlone s)
  | .register n => inferInstanceAs (Decidable (∀ request ∈ s.requests[n]?,
      s.app.inflight.lookup request.command.orderId = none →
        ∀ frame ∈ outstanding s, frame.command.orderId ≠ request.command.orderId))
  | .postOrder _ | .postCancel _ | .check _ | .send _ | .receive _ | .giveUp _ | .drop _ | .forward | .process
  | .handle _ => .isTrue trivial

/-- A server with an empty journal on a connection that has just been opened. -/
def opened : System .four .four :=
  ⟨{ AppState.new (some []) with connected := true },[],[],[],[],.new,.live,true,[],[],[]⟩

theorem opened_opened : Opened opened := ⟨rfl,rfl,sound_new,rfl,rfl,rfl,rfl,rfl,rfl,rfl,rfl⟩

/-- An order with a side, a price in ticks, a quantity and an identifier. -/
def order (side : String) (ticks quantity orderId : UInt64) : JsonBody :=
  .object (some (.string side)) (some (.number none (some ticks))) (some (.number (some quantity) none))
    (some (.number (some orderId) none))

/-- The steps of a handler up to its timeout. -/
def submit (n : Nat) : List Traffic := [.check n,.register n,.send n]

/-- A bid of five, an ask that takes three of it and overtakes it at the registration, and a
    cancellation of what is left, sent while the answers to the ask are still under way. -/
def threeHandlers : List Traffic :=
  [.postOrder (order "buy" 100 5 5),.postOrder (order "sell" 90 3 6),.check 0,.check 1,.register 1,.register 0,.send 0,
    .send 1,.forward,.process,.forward,.handle 0,.postCancel 5,.check 2,.register 2,.process,.send 2,.handle 0,.forward,
    .process,.handle 0,.handle 0]

/-- What the three commands were answered. -/
def threeReplies : List Request :=
  [⟨.newOrder ⟨5,.Buy,100,5,0⟩,.waiting,some ⟨.ack ⟨5,.Accepted⟩,[]⟩⟩,
    ⟨.newOrder ⟨6,.Sell,90,3,1⟩,.waiting,some ⟨.ack ⟨6,.Accepted⟩,[⟨1,100,3,5⟩]⟩⟩,
    ⟨.cancelOrder ⟨5⟩,.waiting,some ⟨.ack ⟨5,.Cancelled⟩,[]⟩⟩]

theorem reply_answers_own_three_handlers :
    ∃ s : System .four .four, Leads System.traffic RegistersAlone opened s ∧ s.requests = threeReplies ∧
      (⟨.newOrder ⟨5,.Buy,100,5,0⟩,0⟩,[.ack ⟨5,.Accepted⟩]) ∈ s.processed ∧
      (∃ trades : List Trade, trades.map fillOfTrade = [⟨1,100,3,5⟩] ∧
        (⟨.newOrder ⟨6,.Sell,90,3,1⟩,1⟩,trades.map .trade ++ [.ack ⟨6,.Accepted⟩]) ∈ s.processed) ∧
      (⟨.cancelOrder ⟨5⟩,2⟩,[.ack ⟨5,.Cancelled⟩]) ∈ s.processed := by
  have ran : ((follow System.traffic RegistersAlone opened threeHandlers).map (fun s => s.requests)) = some threeReplies := by
    decide +kernel
  obtain ⟨s,followed,requests⟩ := Option.map_eq_some_iff.mp ran
  have leads := follow_leads followed
  have found : ∀ n : Nat, s.requests[n]? = threeReplies[n]? := fun n => by rw [requests]
  obtain ⟨first,_,bid,noFills,_⟩ := reply_answers_own opened_opened leads (found 0) rfl
  obtain ⟨second,_,ask,fills,_⟩ := reply_answers_own opened_opened leads (found 1) rfl
  obtain ⟨third,_,cancel,noTrades,_⟩ := reply_answers_own opened_opened leads (found 2) rfl
  rw [List.map_eq_nil_iff.mp noFills.symm] at bid
  rw [List.map_eq_nil_iff.mp noTrades.symm] at cancel
  exact ⟨s,leads,requests,bid,⟨second,fills.symm,ask⟩,cancel⟩

/-- The order of the first handler times out and its entry is dropped; the handler of
    a cancellation registers under the same identifier and receives the
    acknowledgement of the order. -/
theorem cancel_receives_accepted :
    ∃ s : System .four .four, Opened opened ∧ Leads System.traffic (fun _ _ => True) opened s ∧
      s.requests[1]? = some ⟨.cancelOrder ⟨5⟩,.answered,some ⟨.ack ⟨5,.Accepted⟩,[]⟩⟩ ∧
      ∀ p ∈ s.processed, p.1.owner ≠ 1 := by
  have ran : ((follow System.traffic (fun _ _ => True) opened
      (.postOrder (order "buy" 100 5 5) :: submit 0 ++ [.forward,.process,.giveUp 0,.drop 0,.postCancel 5] ++
        submit 1 ++ [.handle 0,.receive 1])).map
        (fun s => (s.requests[1]?,s.processed.map (fun p => p.1.owner)))) =
      some (some ⟨.cancelOrder ⟨5⟩,.answered,some ⟨.ack ⟨5,.Accepted⟩,[]⟩⟩,[0]) := by
    decide +kernel
  obtain ⟨s,followed,result⟩ := Option.map_eq_some_iff.mp ran
  obtain ⟨found,owners⟩ := Prod.mk.inj result
  refine ⟨s,opened_opened,follow_leads followed,found,?_⟩
  intro p inside same
  have owner : p.1.owner ∈ s.processed.map (fun p => p.1.owner) := List.mem_map_of_mem inside
  rw [owners,same] at owner
  exact absurd owner (by decide)

end HyperMatch.Correlation
