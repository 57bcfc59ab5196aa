import HyperMatch.GatewayServer
import HyperMatch.Market
import HyperMatch.Runs

/-!
One connection as two streams. The engine answers the frames in the order of their
arrival, each with its trades and then one terminator; the gateway has handled the
first of these events and has the others before it (`Traced.stream`). Which request a
frame belongs to never changes, and every in-flight entry is that of a request with
its identifier.
-/
namespace HyperMatch.Streams
open HyperMatch.Wire HyperMatch.Matching HyperMatch.MatchingEngine HyperMatch.BookLayout
open HyperMatch.OrderBook (PoolCapacity)
open HyperMatch.AppState (terminatorId)

variable {maxOrders maxPriceLevels : PoolCapacity}

/-! ### The engine's answers -/

/-- The events of a command, given what the engine makes of it. -/
def eventsOf : Command → Outcome → List BinaryMessage
  | .newOrder m,outcome =>
    outcome.trades.map .trade ++ outcome.rejects.map .reject ++
      (if outcome.accepted then [.ack ⟨m.orderId,.Accepted⟩] else [])
  | .cancelOrder _,outcome => outcome.acks.map .ack ++ outcome.rejects.map .reject

/-- The last event of a command. -/
def Terminator : Command → BinaryMessage → Prop
  | .newOrder m,msg => msg = .ack ⟨m.orderId,.Accepted⟩ ∨ ∃ reason, msg = .reject ⟨m.orderId,reason⟩
  | .cancelOrder c,msg => msg = .ack ⟨c.orderId,.Cancelled⟩ ∨ ∃ reason, msg = .reject ⟨c.orderId,reason⟩

theorem Terminator.id {command : Command} {msg : BinaryMessage} (terminator : Terminator command msg) :
    terminatorId msg = some command.orderId := by
  cases command with
  | newOrder m =>
    rcases terminator with rfl | ⟨reason,rfl⟩
    · rfl
    · rfl
  | cancelOrder c =>
    rcases terminator with rfl | ⟨reason,rfl⟩
    · rfl
    · rfl

/-- Trades of the command, then its terminator. -/
def Answered (command : Command) (events : List BinaryMessage) : Prop :=
  ∃ (trades : List Trade) (terminator : BinaryMessage), events = trades.map .trade ++ [terminator] ∧
    (∀ t ∈ trades, t.incomingId = command.orderId) ∧ Terminator command terminator

section
variable {engine : MatchingEngine maxOrders maxPriceLevels} {market : Market}

theorem answer_shows (shown : Shows engine market) (command : Command) :
    ∃ engine', Processing.answer engine command.message =
        some (eventsOf command (market.step maxOrders maxPriceLevels command).1,engine') ∧
      Shows engine' (market.step maxOrders maxPriceLevels command).2 := by
  obtain ⟨engine',stepped,shown'⟩ := step_shows shown command
  refine ⟨engine',?_,shown'⟩
  cases command with
  | newOrder m =>
    rw [Matching.step] at stepped
    simp only [Command.message,Processing.answer,stepped,Option.bind_eq_bind,Option.bind_some]
    rfl
  | cancelOrder c =>
    rw [Matching.step] at stepped
    simp only [Command.message,Processing.answer,stepped,Option.bind_eq_bind,Option.bind_some]
    rfl

theorem answered_of_shows (shown : Shows engine market) (command : Command) :
    Answered command (eventsOf command (market.step maxOrders maxPriceLevels command).1) := by
  cases command with
  | newOrder m =>
    have positive : ∀ e ∈ market.exchange.walks (opposite m.side), 0 < e.remainingQty := by
      rw [← shown.walks]
      exact shown.sound.positive _
    rw [Market.step,Market.newOrder]
    split
    · rename_i reason _
      exact ⟨[],.reject ⟨m.orderId,reason⟩,rfl,by simp,.inr ⟨reason,rfl⟩⟩
    · refine ⟨(market.exchange.sweptBy m).1,.ack ⟨m.orderId,.Accepted⟩,by simp [eventsOf,Exchange.newOrder],?_,.inl rfl⟩
      intro t inside
      exact (sweep_trades m positive inside).1
  | cancelOrder c =>
    rw [Market.step,Market.cancelOrder]
    split
    · exact ⟨[],.ack ⟨c.orderId,.Cancelled⟩,rfl,by simp,.inl rfl⟩
    · exact ⟨[],.reject ⟨c.orderId,_⟩,rfl,by simp,.inr ⟨_,rfl⟩⟩
end

/-- An event of a command is one of its trades, with more to come, or its last. -/
theorem Answered.split {command : Command} {before after : List BinaryMessage} {msg : BinaryMessage}
    (answered : Answered command (before ++ msg :: after)) :
    (∃ t, msg = .trade t ∧ t.incomingId = command.orderId ∧ after ≠ []) ∨
      (after = [] ∧ Terminator command msg ∧ ∃ trades : List Trade, before = trades.map .trade) := by
  obtain ⟨trades,terminator,events,own,last⟩ := answered
  rcases List.eq_nil_or_concat after with rfl | ⟨middle,final,rfl⟩
  · obtain ⟨first,same⟩ := List.append_inj' events rfl
    cases same
    exact .inr ⟨rfl,last,trades,first⟩
  · rw [List.concat_eq_append,← List.cons_append,← List.append_assoc] at events
    obtain ⟨first,_⟩ := List.append_inj' events rfl
    have inside : msg ∈ trades.map BinaryMessage.trade := by
      rw [← first]
      simp
    obtain ⟨t,inTrades,rfl⟩ := List.mem_map.mp inside
    exact .inl ⟨t,rfl,own t inTrades,by simp⟩

/-! ### Conversations -/

/-- The market after the commands of a log. -/
def marketAfter (maxOrders maxPriceLevels : PoolCapacity) (market : Market) : List (Frame × List BinaryMessage) → Market
  | [] => market
  | p :: rest => marketAfter maxOrders maxPriceLevels (market.step maxOrders maxPriceLevels p.1.command).2 rest

/-- The answers of a log are those of the market. -/
def Spoken (maxOrders maxPriceLevels : PoolCapacity) (market : Market) : List (Frame × List BinaryMessage) → Prop
  | [] => True
  | p :: rest => p.2 = eventsOf p.1.command (market.step maxOrders maxPriceLevels p.1.command).1 ∧
      Spoken maxOrders maxPriceLevels (market.step maxOrders maxPriceLevels p.1.command).2 rest

theorem marketAfter_append (market : Market) (log later : List (Frame × List BinaryMessage)) :
    marketAfter maxOrders maxPriceLevels market (log ++ later) =
      marketAfter maxOrders maxPriceLevels (marketAfter maxOrders maxPriceLevels market log) later := by
  induction log generalizing market with
  | nil => rfl
  | cons p rest ih => exact ih _

theorem spoken_append (market : Market) (log later : List (Frame × List BinaryMessage)) :
    Spoken maxOrders maxPriceLevels market (log ++ later) ↔ Spoken maxOrders maxPriceLevels market log ∧
      Spoken maxOrders maxPriceLevels (marketAfter maxOrders maxPriceLevels market log) later := by
  induction log generalizing market with
  | nil => simp [Spoken,marketAfter]
  | cons p rest ih =>
    rw [List.cons_append,Spoken,Spoken,ih,and_assoc]
    rfl

/-- The commands of a log. -/
def commandsOf (log : List (Frame × List BinaryMessage)) : List Command := log.map (fun p => p.1.command)

theorem marketAfter_eq (market : Market) (log : List (Frame × List BinaryMessage)) :
    marketAfter maxOrders maxPriceLevels market log =
      (Market.answers (Market.step maxOrders maxPriceLevels) market (commandsOf log)).2 := by
  induction log generalizing market with
  | nil => rfl
  | cons p rest ih => exact ih _

/-! ### Positions in the event stream -/

/-- The events of a processed frame, each with the frame. -/
def emitted (p : Frame × List BinaryMessage) : List (Frame × BinaryMessage) := p.2.map (p.1,·)

theorem flatMap_split {α β : Type} {f : α → List β} {l : List α} {before after : List β} {b : β}
    (whole : before ++ b :: after = l.flatMap f) :
    ∃ first a last here there, l = first ++ a :: last ∧ f a = here ++ b :: there ∧
      before = first.flatMap f ++ here ∧ after = there ++ last.flatMap f := by
  induction l generalizing before with
  | nil => simp at whole
  | cons a rest ih =>
    rw [List.flatMap_cons] at whole
    rcases List.append_eq_append_iff.mp whole with ⟨more,here,there⟩ | ⟨more,here,there⟩
    · cases more with
      | nil =>
        have next : [] ++ b :: after = rest.flatMap f := there
        obtain ⟨first,a',last,here',there',rfl,split,left,right⟩ := ih next
        refine ⟨a :: first,a',last,here',there',rfl,split,?_,right⟩
        rw [List.flatMap_cons,List.append_assoc,← left,here,List.append_nil,List.append_nil]
      | cons b' more =>
        obtain ⟨rfl,rfl⟩ := List.cons.inj there
        exact ⟨[],a,rest,before,more,rfl,here,rfl,rfl⟩
    · obtain ⟨first,a',last,here',there',rfl,split,left,right⟩ := ih there.symm
      refine ⟨a :: first,a',last,here',there',rfl,split,?_,right⟩
      rw [List.flatMap_cons,List.append_assoc,← left,here]

/-- The next event belongs to a processed frame; what was handled are the events of
    the frames before it and its own events so far. -/
theorem next_split {applied rest : List (Frame × BinaryMessage)} {processed : List (Frame × List BinaryMessage)}
    {frame : Frame} {msg : BinaryMessage} (stream : applied ++ (frame,msg) :: rest = processed.flatMap emitted) :
    ∃ first last before after, processed = first ++ (frame,before ++ msg :: after) :: last ∧
      applied = first.flatMap emitted ++ before.map (frame,·) ∧ rest = after.map (frame,·) ++ last.flatMap emitted := by
  obtain ⟨first,⟨frame',events⟩,last,here,there,rfl,split,left,right⟩ := flatMap_split stream
  rw [emitted,List.map_eq_append_iff] at split
  obtain ⟨before,more,rfl,rfl,more_eq⟩ := split
  rw [List.map_eq_cons_iff] at more_eq
  obtain ⟨msg',after,rfl,same,rfl⟩ := more_eq
  cases same
  exact ⟨first,last,before,after,rfl,left,right⟩

/-! ### Requests -/

/-- How far a handler has come: an entry is registered from two on, a frame is sent
    from three on. -/
def rank : Phase → Nat
  | .arrived => 0
  | .checked => 1
  | .registered => 2
  | _ => 3

/-- Requests keep their commands and only move on. -/
def Later (requests requests' : List Request) : Prop :=
  ∀ (n : Nat) (r : Request), requests[n]? = some r →
    ∃ r' : Request, requests'[n]? = some r' ∧ r'.command = r.command ∧ rank r.phase ≤ rank r'.phase

theorem later_append (requests : List Request) (r : Request) : Later requests (requests ++ [r]) := by
  intro n old found
  refine ⟨old,?_,rfl,Nat.le_refl _⟩
  rw [List.getElem?_append_left (List.getElem?_eq_some_iff.mp found).1]
  exact found

theorem later_modify {requests : List Request} {n : Nat} {change : Request → Request}
    (moves : ∀ r, requests[n]? = some r → (change r).command = r.command ∧ rank r.phase ≤ rank (change r).phase) :
    Later requests (requests.modify n change) := by
  intro m r found
  rw [List.getElem?_modify,found]
  by_cases same : n = m
  · subst same
    obtain ⟨command,phase⟩ := moves r found
    exact ⟨change r,by simp,command,phase⟩
  · exact ⟨r,by simp [same],rfl,Nat.le_refl _⟩

theorem later_deliver (requests : List Request) (n : Nat) (reply : EngineReply) :
    Later requests (requests.modify n (Request.deliver reply)) := by
  refine later_modify ?_
  intro r _
  rw [Request.deliver]
  split
  · rename_i phase
    exact ⟨rfl,Nat.le_refl _⟩
  · exact ⟨rfl,Nat.le_refl _⟩
  · exact ⟨rfl,Nat.le_refl _⟩
  · exact ⟨rfl,Nat.le_refl _⟩

section
variable {s : System maxOrders maxPriceLevels} {n : Nat} {request : Request} {phase : Phase}

theorem later_move (found : s.requests[n]? = some request) (moves : rank request.phase ≤ rank phase) :
    Later s.requests (s.move n phase).requests := by
  refine later_modify ?_
  intro r again
  cases found.symm.trans again
  exact ⟨rfl,moves⟩

theorem move_self (found : s.requests[n]? = some request) :
    (s.move n phase).requests[n]? = some { request with phase := phase } := by
  rw [System.move,List.getElem?_modify,found]
  simp

theorem move_other {m : Nat} (other : m ≠ n) : (s.move n phase).requests[m]? = s.requests[m]? := by
  rw [System.move,List.getElem?_modify]
  simp [other.symm]
end

/-- The entry of a command, as its handler registers it. -/
def Registers (entry : InFlight) : Command → Prop
  | .newOrder m => entry.submittedSide = m.side ∧ entry.submittedPriceTicks = m.priceTicks ∧
      entry.submittedQuantity = m.quantity ∧ entry.isCancel = false
  | .cancelOrder _ => entry.isCancel = true

theorem prepare_some {app app' : AppState} {responder : Nat} {command : Command}
    (prepared : app.prepare responder command = some app') :
    app.inflight.lookup command.orderId = none ∧ ∃ entry, Registers entry command ∧ entry.fills = [] ∧
      entry.responder = responder ∧ app' = { app with inflight := app.inflight.insert command.orderId entry } := by
  rw [AppState.prepare] at prepared
  split at prepared
  · cases prepared
  · rename_i registered registering
    split_ifs at prepared
    cases prepared
    cases command with
    | newOrder m =>
      obtain ⟨free,rfl⟩ := AppState.registerInflight_some registering
      exact ⟨free,_,⟨rfl,rfl,rfl,rfl⟩,rfl,rfl,rfl⟩
    | cancelOrder c =>
      obtain ⟨free,rfl⟩ := AppState.registerInflight_some registering
      exact ⟨free,⟨.Buy,0,0,true,[],responder⟩,rfl,rfl,rfl,rfl⟩

theorem prepare_none {app : AppState} {responder : Nat} {command : Command}
    (refused : app.prepare responder command = none) :
    app.inflight.lookup command.orderId = none → ¬ InRange command.message := by
  intro free ranged
  rw [AppState.prepare] at refused
  cases command with
  | newOrder m =>
    have missing : app.inflight.lookup m.orderId = none := free
    simp [AppState.register,AppState.registerInflight,missing,ranged] at refused
  | cancelOrder c =>
    have missing : app.inflight.lookup c.orderId = none := free
    simp [AppState.register,AppState.registerInflight,missing,ranged] at refused

/-- A record as a command, with the next stamp if it is an order. -/
def replayed (gateway : Gateway) : JournalRecord → Command
  | .New orderId side priceTicks quantity => .newOrder ⟨orderId,side,priceTicks,quantity,gateway.nextSeq⟩
  | .Cancel orderId => .cancelOrder ⟨orderId⟩

/-- The preparation of a record takes a stamp for an order; if the identifier is free
    and the message encodes, it registers the command. -/
theorem prepareReplay_cases (app : AppState) (responder : Nat) (record : JournalRecord) :
    ∃ gateway : Gateway,
      gateway.nextSeq = app.gateway.nextSeq + (match record with | .New .. => 1 | .Cancel _ => 0) ∧
      ((app.prepareReplay responder record = ({ app with gateway := gateway },none) ∧
          (app.inflight.lookup (replayed app.gateway record).orderId = none →
            ¬ InRange (replayed app.gateway record).message)) ∨
        (app.inflight.lookup (replayed app.gateway record).orderId = none ∧ ∃ entry,
          Registers entry (replayed app.gateway record) ∧ entry.fills = [] ∧ entry.responder = responder ∧
          app.prepareReplay responder record =
            ({ app with
                gateway := gateway
                inflight := app.inflight.insert (replayed app.gateway record).orderId entry },
              some (replayed app.gateway record)))) := by
  cases record with
  | New orderId side priceTicks quantity =>
    refine ⟨((app.gateway.reserve orderId).2.newOrderMessage ⟨orderId,side,priceTicks,quantity⟩).2,?_,?_⟩
    · rw [Gateway.newOrderMessage,(Gateway.reserve_spec app.gateway orderId).2]
    · have message : ((app.gateway.reserve orderId).2.newOrderMessage ⟨orderId,side,priceTicks,quantity⟩).1 =
          ⟨orderId,side,priceTicks,quantity,app.gateway.nextSeq⟩ := by
        rw [Gateway.newOrderMessage,(Gateway.reserve_spec app.gateway orderId).2]
      rw [AppState.prepareReplay]
      dsimp only
      rw [message]
      split
      · rename_i refused
        have unencoded := prepare_none refused
        exact .inl ⟨rfl,unencoded⟩
      · rename_i prepared preparing
        obtain ⟨free,entry,registers,fills,owner,rfl⟩ := prepare_some preparing
        exact .inr ⟨free,entry,registers,fills,owner,rfl⟩
  | Cancel orderId =>
    refine ⟨app.gateway,by simp,?_⟩
    rw [AppState.prepareReplay]
    split
    · rename_i refused
      exact .inl ⟨rfl,prepare_none refused⟩
    · rename_i prepared preparing
      obtain ⟨free,entry,registers,fills,owner,rfl⟩ := prepare_some preparing
      exact .inr ⟨free,entry,registers,fills,owner,rfl⟩

theorem prepareReplay_none {app app' : AppState} {responder : Nat} {record : JournalRecord}
    (prepared : app.prepareReplay responder record = (app',none)) : ∃ gateway, app' = { app with gateway := gateway } := by
  obtain ⟨gateway,_,⟨refused,_⟩ | ⟨_,_,_,_,_,made⟩⟩ := prepareReplay_cases app responder record
  · exact ⟨gateway,(Prod.mk.inj (prepared.symm.trans refused)).1⟩
  · cases (Prod.mk.inj (prepared.symm.trans made)).2

theorem prepareReplay_some {app app' : AppState} {responder : Nat} {record : JournalRecord} {command : Command}
    (prepared : app.prepareReplay responder record = (app',some command)) :
    command = replayed app.gateway record ∧ app.inflight.lookup command.orderId = none ∧ ∃ gateway entry,
      gateway.nextSeq = app.gateway.nextSeq + (match record with | .New .. => 1 | .Cancel _ => 0) ∧
      Registers entry command ∧ entry.fills = [] ∧ entry.responder = responder ∧
      app' = { app with
        gateway := gateway
        inflight := app.inflight.insert command.orderId entry } := by
  obtain ⟨gateway,next,⟨refused,_⟩ | ⟨free,entry,registers,fills,owner,made⟩⟩ := prepareReplay_cases app responder record
  · cases (Prod.mk.inj (prepared.symm.trans refused)).2
  · obtain ⟨rfl,taken⟩ := Prod.mk.inj (prepared.symm.trans made)
    obtain rfl := Option.some.inj taken
    exact ⟨rfl,free,gateway,entry,next,registers,fills,owner,rfl⟩

/-! ### One connection -/

/-- The frames that were sent on this connection, oldest first. -/
def framesOf (s : System maxOrders maxPriceLevels) : List Frame :=
  s.processed.map Prod.fst ++ s.toEngine ++ s.channel

structure Traced (market : Market) (s : System maxOrders maxPriceLevels) : Prop where
  linked : s.linked = true
  spoken : Spoken maxOrders maxPriceLevels market s.processed
  shown : Shows s.engine (marketAfter maxOrders maxPriceLevels market s.processed)
  stream : s.applied ++ s.toGateway = s.processed.flatMap emitted
  answered : ∀ p ∈ s.processed, Answered p.1.command p.2
  distinct : ((framesOf s).map Frame.owner).Nodup
  sent : ∀ frame ∈ framesOf s, ∃ r, s.requests[frame.owner]? = some r ∧ r.command = frame.command ∧ 3 ≤ rank r.phase
  entries : ∀ id entry, s.app.inflight.lookup id = some entry →
    ∃ r, s.requests[entry.responder]? = some r ∧ r.command.orderId = id ∧ Registers entry r.command ∧ 2 ≤ rank r.phase

/-- A connection that has just been opened to clients: nothing is under way. -/
structure Opened (s : System maxOrders maxPriceLevels) : Prop where
  live : s.manager = .live
  linked : s.linked = true
  sound : Sound s.engine
  restoring : s.app.restoring = false
  inflight : s.app.inflight = ∅
  requests : s.requests = []
  channel : s.channel = []
  toEngine : s.toEngine = []
  toGateway : s.toGateway = []
  processed : s.processed = []
  applied : s.applied = []

section
variable {s s' : System maxOrders maxPriceLevels} {market : Market}

theorem Opened.traced (opened : Opened s) (shown : Shows s.engine market) : Traced market s := by
  have frames : framesOf s = [] := by rw [framesOf,opened.processed,opened.toEngine,opened.channel]; rfl
  constructor
  · exact opened.linked
  · rw [opened.processed]
    trivial
  · rw [opened.processed]
    exact shown
  · rw [opened.applied,opened.toGateway,opened.processed]
    rfl
  · intro p inside
    rw [opened.processed] at inside
    cases inside
  · rw [frames]
    exact List.nodup_nil
  · intro frame inside
    rw [frames] at inside
    cases inside
  · intro id entry found
    rw [opened.inflight] at found
    cases found

/-- Some market is shown by the engine. -/
theorem Opened.shows (opened : Opened s) : ∃ market, Shows s.engine market := shows_of_sound opened.sound

/-- Steps that leave the streams alone: requests move on and entries go. -/
theorem Traced.aside (traced : Traced market s) (linked : s'.linked = s.linked) (engine : s'.engine = s.engine)
    (channel : s'.channel = s.channel) (toEngine : s'.toEngine = s.toEngine) (toGateway : s'.toGateway = s.toGateway)
    (processed : s'.processed = s.processed) (applied : s'.applied = s.applied) (later : Later s.requests s'.requests)
    (entries : ∀ id entry, s'.app.inflight.lookup id = some entry → s.app.inflight.lookup id = some entry) :
    Traced market s' := by
  have frames : framesOf s' = framesOf s := by rw [framesOf,framesOf,processed,toEngine,channel]
  constructor
  · rw [linked]
    exact traced.linked
  · rw [processed]
    exact traced.spoken
  · rw [processed,engine]
    exact traced.shown
  · rw [applied,toGateway,processed]
    exact traced.stream
  · rw [processed]
    exact traced.answered
  · rw [frames]
    exact traced.distinct
  · intro frame inside
    rw [frames] at inside
    obtain ⟨r,found,command,phase⟩ := traced.sent frame inside
    obtain ⟨r',found',command',phase'⟩ := later _ _ found
    exact ⟨r',found',command'.trans command,Nat.le_trans phase phase'⟩
  · intro id entry found
    obtain ⟨r,request,command,registers,phase⟩ := traced.entries id entry (entries id entry found)
    obtain ⟨r',request',command',phase'⟩ := later _ _ request
    exact ⟨r',request',by rw [command']; exact command,by rw [command']; exact registers,Nat.le_trans phase phase'⟩

theorem Traced.registered (traced : Traced market s) {n : Nat} {command : Command} {mailbox : Option EngineReply}
    (found : s.requests[n]? = some ⟨command,.checked,mailbox⟩) {app : AppState}
    (prepared : s.app.prepare n command = some app) :
    Traced market ({ s with app := app.recordSubmission }.move n .registered) := by
  obtain ⟨_,entry,registers,_,responder,rfl⟩ := prepare_some prepared
  have later : Later s.requests (s.move n .registered).requests := later_move found (Nat.le_succ 1)
  have kept : Traced market (s.move n .registered) :=
    traced.aside rfl rfl rfl rfl rfl rfl rfl later (fun _ _ same => same)
  refine ⟨kept.linked,kept.spoken,kept.shown,kept.stream,kept.answered,kept.distinct,kept.sent,?_⟩
  intro id entry' looked
  have inserted : (s.app.inflight.insert command.orderId entry).lookup id = some entry' := looked
  rcases Projection.lookup_insert_some inserted with ⟨rfl,rfl⟩ | ⟨_,old⟩
  · refine ⟨⟨command,.registered,mailbox⟩,?_,rfl,registers,Nat.le_refl _⟩
    rw [responder]
    exact move_self found
  · exact kept.entries id entry' old

theorem Traced.sending (traced : Traced market s) {n : Nat} {command : Command} {mailbox : Option EngineReply}
    (found : s.requests[n]? = some ⟨command,.registered,mailbox⟩) :
    Traced market ({ s with channel := s.channel ++ [Frame.mk command n] }.move n .waiting) := by
  have later : Later s.requests (s.move n .waiting).requests := later_move found (Nat.le_succ 2)
  have kept : Traced market (s.move n .waiting) :=
    traced.aside rfl rfl rfl rfl rfl rfl rfl later (fun _ _ same => same)
  have frames : framesOf ({ s with channel := s.channel ++ [Frame.mk command n] }.move n .waiting) =
      framesOf s ++ [⟨command,n⟩] := by
    simp [framesOf,System.move]
  refine ⟨kept.linked,kept.spoken,kept.shown,kept.stream,kept.answered,?_,?_,kept.entries⟩
  · rw [frames,List.map_append,List.nodup_append]
    refine ⟨traced.distinct,by simp,?_⟩
    intro owner old other new
    obtain ⟨frame,inside,rfl⟩ := List.mem_map.mp old
    rw [List.map_singleton,List.mem_singleton] at new
    subst new
    -- A frame that was sent belongs to a handler that has got further.
    intro same
    obtain ⟨r,request,_,phase⟩ := traced.sent frame inside
    rw [same] at request
    cases found.symm.trans request
    exact absurd phase (Nat.not_succ_le_self 2)
  · intro frame inside
    rw [frames] at inside
    rcases List.mem_append.mp inside with old | new
    · exact kept.sent frame old
    · rw [List.mem_singleton.mp new]
      exact ⟨_,move_self found,rfl,Nat.le_refl _⟩

theorem Traced.forwarded (traced : Traced market s) {frame : Frame} {rest : List Frame} (queued : s.channel = frame :: rest) :
    Traced market ({ s with channel := rest }.write frame) := by
  have written : ({ s with channel := rest }.write frame) =
      { s with channel := rest, toEngine := s.toEngine ++ [frame] } := by
    simp [System.write,traced.linked]
  have frames : framesOf { s with channel := rest, toEngine := s.toEngine ++ [frame] } = framesOf s := by
    simp [framesOf,queued]
  rw [written]
  refine ⟨traced.linked,traced.spoken,traced.shown,traced.stream,traced.answered,?_,?_,traced.entries⟩
  · rw [frames]
    exact traced.distinct
  · rw [frames]
    exact traced.sent

theorem Traced.processing (traced : Traced market s) {frame : Frame} {rest : List Frame} {events : List BinaryMessage}
    {engine : MatchingEngine maxOrders maxPriceLevels} (written : s.toEngine = frame :: rest)
    (ran : Processing.answer s.engine frame.command.message = some (events,engine)) :
    Traced market { s with
      engine := engine
      toEngine := rest
      toGateway := s.toGateway ++ events.map (frame,·)
      processed := s.processed ++ [(frame,events)] } := by
  obtain ⟨engine',ran',shown⟩ := answer_shows traced.shown frame.command
  obtain ⟨rfl,rfl⟩ := Prod.mk.inj (Option.some.inj (ran.symm.trans ran'))
  have frames : framesOf { s with
      engine := engine
      toEngine := rest
      toGateway := s.toGateway ++ (eventsOf frame.command ((marketAfter maxOrders maxPriceLevels market s.processed).step
        maxOrders maxPriceLevels frame.command).1).map (frame,·)
      processed := s.processed ++ [(frame,eventsOf frame.command ((marketAfter maxOrders maxPriceLevels market
        s.processed).step maxOrders maxPriceLevels frame.command).1)] } = framesOf s := by
    simp [framesOf,written]
  refine ⟨traced.linked,?_,?_,?_,?_,?_,?_,traced.entries⟩
  · exact (spoken_append _ _ _).mpr ⟨traced.spoken,rfl,trivial⟩
  · rw [marketAfter_append]
    exact shown
  · rw [List.flatMap_append,← traced.stream,← List.append_assoc]
    simp [emitted]
  · intro p inside
    rcases List.mem_append.mp inside with old | new
    · exact traced.answered p old
    · rw [List.mem_singleton.mp new]
      exact answered_of_shows traced.shown frame.command
  · rw [frames]
    exact traced.distinct
  · rw [frames]
    exact traced.sent

/-! ### Handling -/

/-- The entries after a trade are the old ones, but for fills. -/
theorem accumulate_entries (app : AppState) (t : Trade) {id : UInt64} {entry : InFlight}
    (found : (app.accumulate t).inflight.lookup id = some entry) :
    ∃ old, app.inflight.lookup id = some old ∧ entry.responder = old.responder ∧
      ∀ command, Registers old command → Registers entry command := by
  rcases AppState.accumulate_lookup found with ⟨_,kept⟩ | ⟨old,rfl,looked,rfl⟩
  · exact ⟨entry,kept,rfl,fun _ same => same⟩
  · refine ⟨old,looked,rfl,?_⟩
    intro command registers
    cases command with
    | newOrder m => exact registers
    | cancelOrder c => exact registers

theorem accumulate_covers {app : AppState} (t : Trade) {id : UInt64} {entry : InFlight}
    (found : app.inflight.lookup id = some entry) :
    ∃ entry', (app.accumulate t).inflight.lookup id = some entry' ∧ entry'.responder = entry.responder := by
  cases looked : app.inflight.lookup t.incomingId with
  | none => exact ⟨entry,by rw [AppState.accumulate_missing looked]; exact found,rfl⟩
  | some old =>
    rw [AppState.accumulate_found looked]
    by_cases same : id = t.incomingId
    · subst same
      cases found.symm.trans looked
      exact ⟨_,Finmap.lookup_insert _,rfl⟩
    · exact ⟨entry,by rw [Finmap.lookup_insert_of_ne _ same]; exact found,rfl⟩

theorem lookup_erase_some {inflight : Finmap (fun _ : UInt64 => InFlight)} {gone id : UInt64} {entry : InFlight}
    (found : (inflight.erase gone).lookup id = some entry) : id ≠ gone ∧ inflight.lookup id = some entry := by
  by_cases same : id = gone
  · subst same
    rw [Finmap.lookup_erase] at found
    cases found
  · rw [Finmap.lookup_erase_ne same] at found
    exact ⟨same,found⟩

/-- Where the next event stands: it is a trade of its frame, with more to come, or the
    terminator of its frame. -/
theorem Traced.next (traced : Traced market s) {frame : Frame} {msg : BinaryMessage} {rest : List (Frame × BinaryMessage)}
    (next : s.toGateway = (frame,msg) :: rest) :
    ∃ first last before after, s.processed = first ++ (frame,before ++ msg :: after) :: last ∧
      s.applied = first.flatMap emitted ++ before.map (frame,·) ∧ rest = after.map (frame,·) ++ last.flatMap emitted ∧
      ((∃ t, msg = .trade t ∧ t.incomingId = frame.command.orderId ∧ after ≠ []) ∨
        (after = [] ∧ Terminator frame.command msg ∧ ∃ trades : List Trade, before = trades.map .trade)) := by
  have stream : s.applied ++ (frame,msg) :: rest = s.processed.flatMap emitted := by rw [← next,traced.stream]
  obtain ⟨first,last,before,after,processed,applied,remains⟩ := next_split stream
  have answered : Answered frame.command (before ++ msg :: after) := traced.answered (frame,_) (by rw [processed]; simp)
  exact ⟨first,last,before,after,processed,applied,remains,answered.split⟩

theorem Traced.handled (traced : Traced market s) {frame : Frame} {msg : BinaryMessage}
    {rest : List (Frame × BinaryMessage)} (next : s.toGateway = (frame,msg) :: rest) (now : UInt64) :
    Traced market ({ s with
      app := (s.app.handleEngineEvent now msg).1
      toGateway := rest
      applied := s.applied ++ [(frame,msg)] }.deliver (s.app.handleEngineEvent now msg).2) := by
  have stream : (s.applied ++ [(frame,msg)]) ++ rest = s.processed.flatMap emitted := by
    rw [List.append_assoc,← traced.stream,next]
    rfl
  obtain ⟨_,_,_,_,_,_,_,⟨t,rfl,_,_⟩ | ⟨_,terminator,_⟩⟩ := traced.next next
  · obtain ⟨app,handled,_,_,inflight,_⟩ := AppState.handle_trade s.app now t
    rw [handled]
    refine ⟨traced.linked,traced.spoken,traced.shown,stream,traced.answered,traced.distinct,traced.sent,?_⟩
    intro id entry found
    have looked : app.inflight.lookup id = some entry := found
    rw [inflight] at looked
    obtain ⟨old,found',responder,registers⟩ := accumulate_entries s.app t looked
    obtain ⟨r,request,command,registered,phase⟩ := traced.entries id old found'
    exact ⟨r,by rw [responder]; exact request,command,registers _ registered,phase⟩
  · cases looked : s.app.inflight.lookup frame.command.orderId with
    | none =>
      rw [AppState.handle_missing terminator.id looked]
      exact ⟨traced.linked,traced.spoken,traced.shown,stream,traced.answered,traced.distinct,traced.sent,traced.entries⟩
    | some entry =>
      obtain ⟨app,handled,_,inflight,_⟩ := AppState.handle_found terminator.id looked now
      rw [handled]
      have base : Traced market { s with app := app, toGateway := rest, applied := s.applied ++ [(frame,msg)] } := by
        refine ⟨traced.linked,traced.spoken,traced.shown,stream,traced.answered,traced.distinct,traced.sent,?_⟩
        intro id entry' found
        have remains : app.inflight.lookup id = some entry' := found
        rw [inflight] at remains
        exact traced.entries id entry' (lookup_erase_some remains).2
      exact base.aside rfl rfl rfl rfl rfl rfl rfl (later_deliver _ _ _) (fun _ _ same => same)

/-- Every step of the traffic keeps the streams. -/
theorem Traced.step (traced : Traced market s) {event : Traffic} (ran : s.traffic event = some s') : Traced market s' := by
  cases event with
  | postOrder body =>
    rcases System.postOrder_cases ran with rfl | ⟨m,gateway,_,_,_,_,rfl⟩
    · exact traced
    · exact traced.aside rfl rfl rfl rfl rfl rfl rfl (later_append _ _) (fun _ _ same => same)
  | postCancel orderId =>
    rw [System.postCancel_cases ran]
    exact traced.aside rfl rfl rfl rfl rfl rfl rfl (later_append _ _) (fun _ _ same => same)
  | check n =>
    obtain ⟨command,mailbox,found,rfl⟩ := System.check_cases ran
    exact traced.aside rfl rfl rfl rfl rfl rfl rfl (later_move found (Nat.zero_le _)) (fun _ _ same => same)
  | register n =>
    obtain ⟨command,mailbox,found,rfl | ⟨app,prepared,rfl⟩⟩ := System.register_cases ran
    · exact traced.aside rfl rfl rfl rfl rfl rfl rfl (later_move found (Nat.le_add_right 1 2)) (fun _ _ same => same)
    · exact traced.registered found prepared
  | send n =>
    obtain ⟨command,mailbox,found,rfl⟩ := System.send_cases ran
    exact traced.sending found
  | receive n =>
    obtain ⟨command,reply,found,rfl⟩ := System.receive_cases ran
    exact traced.aside rfl rfl rfl rfl rfl rfl rfl (later_move found (Nat.le_refl _)) (fun _ _ same => same)
  | giveUp n =>
    obtain ⟨command,found,rfl⟩ := System.giveUp_cases ran
    exact traced.aside rfl rfl rfl rfl rfl rfl rfl (later_move found (Nat.le_refl _)) (fun _ _ same => same)
  | drop n =>
    obtain ⟨command,mailbox,found,rfl⟩ := System.drop_cases ran
    refine traced.aside rfl rfl rfl rfl rfl rfl rfl (later_move found (Nat.le_refl _)) ?_
    intro id entry remains
    exact (lookup_erase_some remains).2
  | forward =>
    obtain ⟨frame,rest,_,queued,rfl⟩ := System.forward_cases ran
    exact traced.forwarded queued
  | process =>
    obtain ⟨frame,rest,events,engine,written,answered,rfl⟩ := System.process_cases ran
    exact traced.processing written answered
  | handle now =>
    obtain ⟨frame,msg,rest,next,rfl⟩ := System.handle_cases ran
    exact traced.handled next now

theorem Opened.leads (opened : Opened s) (shown : Shows s.engine market) {allowed : System maxOrders maxPriceLevels → Traffic → Prop}
    (leads : Runs.Leads System.traffic allowed s s') : Traced market s' :=
  leads.keeps (opened.traced shown) (fun _ _ _ traced _ ran => traced.step ran)
end

end HyperMatch.Streams
