import HyperMatch.Publishing
import HyperMatch.Ranks
import HyperMatch.Snapshots
import HyperMatch.Suppression

/-!
What the gateway tells the web sockets, and the trades that it serves. The reader sends
a message for each engine event that it handles outside a replay; the pushes of the
book come from a task of its own, which looks at a dirty flag that the reader sets after
each change. The reader handles an event in one step, except that the flag may be set
later; what is said about its messages holds between two events. A price is kept in
ticks: `ticks_to_price` is applied as the text is written. The pushes of the statistics
are left out, which read and never write what is told here.
-/
namespace HyperMatch.Feed
open HyperMatch.Wire HyperMatch.Matching HyperMatch.Streams HyperMatch.Runs HyperMatch.Publishing HyperMatch.Suppression
open HyperMatch.OrderBook (PoolCapacity)
open HyperMatch.Projection (BookLevel)
open HyperMatch.AppState (filled leftOf tradeTapeCap)

inductive Message where
  | trade (record : TradeRecord)
  | accepted (orderId : UInt64) (side : Side) (priceTicks : UInt64) (quantity filled resting : UInt32)
  | cancelled (orderId : UInt64)
  | rejected (orderId : UInt64) (reason : RejectReason)
  | book (bids asks : List BookLevel)

/-- `DEFAULT_DEPTH`. -/
def defaultDepth : Nat := 15
/-- `DEFAULT_TRADE_LIMIT`. -/
def defaultTradeLimit : Nat := 50

/-- What `handle_engine_event` broadcasts. -/
def broadcasts (app : AppState) (now : UInt64) : BinaryMessage → List Message
  | .trade t =>
    if app.restoring then [] else [.trade ⟨t.execSeq,t.priceTicks,t.quantity,t.incomingId,t.restingId,now⟩]
  | .ack ⟨orderId,.Accepted⟩ =>
    match app.inflight.lookup orderId with
    | none => []
    | some entry =>
      if app.restoring then []
      else
        [.accepted orderId entry.submittedSide entry.submittedPriceTicks entry.submittedQuantity (filled entry) (leftOf entry)]
  | .ack ⟨orderId,.Cancelled⟩ =>
    match app.inflight.lookup orderId with
    | none => []
    | some _ => if app.restoring then [] else [.cancelled orderId]
  | .reject ⟨orderId,reason⟩ =>
    match app.inflight.lookup orderId with
    | none => []
    | some _ => if app.restoring then [] else [.rejected orderId reason]
  | .newOrder _ => []
  | .cancelOrder _ => []

/-- Whether `handle_engine_event` calls `mark_book_dirty`. -/
def marks (app : AppState) : BinaryMessage → Bool
  | .trade _ => true
  | .ack ⟨orderId,.Accepted⟩ =>
    match app.inflight.lookup orderId with
    | none => false
    | some entry => decide (leftOf entry > 0)
  | .ack ⟨orderId,.Cancelled⟩ => (app.inflight.lookup orderId).isSome
  | .reject _ => false
  | .newOrder _ => false
  | .cancelOrder _ => false

/-- `recent_trades`. -/
def recentTrades (app : AppState) (limit : Nat) : List TradeRecord := app.trades.take limit

/-- `get_trades`, with the limit of its query. -/
def getTrades (app : AppState) (limit : Option Nat) : List TradeRecord :=
  recentTrades app (max 1 (min (limit.getD defaultTradeLimit) 10000))

/-- The two sides of a push of the book. -/
def shot (app : AppState) : List BookLevel × List BookLevel :=
  ((app.book.snapshot defaultDepth).bids,(app.book.snapshot defaultDepth).asks)

/-- The system with its web sockets. -/
structure Server (maxOrders maxPriceLevels : PoolCapacity) where
  system : System maxOrders maxPriceLevels
  board : Board (List BookLevel × List BookLevel)
  feed : List Message

inductive Turn where
  | system (event : Event)
  | board (act : Act)
  deriving Repr, DecidableEq

section
variable {maxOrders maxPriceLevels : PoolCapacity}

/-- What a step broadcasts. -/
def sent (s : System maxOrders maxPriceLevels) : Event → List Message
  | .traffic (.handle now) =>
    match s.toGateway with
    | [] => []
    | (_,msg) :: _ => broadcasts s.app now msg
  | _ => []

/-- Whether a step marks the book, which `reset_book` does too. -/
def dirties (s : System maxOrders maxPriceLevels) : Event → Bool
  | .traffic (.handle _) =>
    match s.toGateway with
    | [] => false
    | (_,msg) :: _ => marks s.app msg
  | .link (.connect _) => true
  | _ => false

/-- What `book_broadcaster` sends. -/
def pushed (board : Board (List BookLevel × List BookLevel)) : Act → List Message
  | .push =>
    match board.publisher with
    | .holds (bids,asks) => [.book bids asks]
    | _ => []
  | _ => []

namespace Server

def new (journal : Option (List JournalRecord)) : Server maxOrders maxPriceLevels :=
  ⟨.new journal,.new (shot (.new journal)),[]⟩

def turn (s : Server maxOrders maxPriceLevels) : Turn → Option (Server maxOrders maxPriceLevels)
  | .system event => do
    let system ← s.system.step event
    let board := if dirties s.system event then s.board.changed else s.board
    return ⟨system,board,s.feed ++ sent s.system event⟩
  | .board act => do
    let board ← s.board.act (shot s.system.app) act
    return { s with board := board, feed := s.feed ++ pushed s.board act }

end Server
end

/-! ### What an event tells -/

namespace Message

def traded : Message → Option TradeRecord
  | .trade record => some record
  | _ => none
def isAccepted : Message → Bool
  | .accepted .. => true
  | _ => false
def isCancelled : Message → Bool
  | .cancelled _ => true
  | _ => false
def isRejected : Message → Bool
  | .rejected .. => true
  | _ => false
def shown : Message → Option (List BookLevel × List BookLevel)
  | .book bids asks => some (bids,asks)
  | _ => none
/-- The record of an accepted command. -/
def records : Message → List JournalRecord
  | .accepted orderId side priceTicks quantity _ _ => [.New orderId side priceTicks quantity]
  | .cancelled orderId => [.Cancel orderId]
  | _ => []

end Message

/-- Nothing is recorded but submissions. -/
structure Beside (app app' : AppState) : Prop where
  journal : app'.journal = app.journal
  tape : app'.trades = app.trades
  metrics : ∃ submitted, app'.metrics = { app.metrics with ordersSubmitted := submitted }

/-- What a step does to the records of the gateway, by the message that it sends. -/
inductive Tells (app app' : AppState) : List Message → Prop
  | nothing (beside : Beside app app') : Tells app app' []
  | trade {record : TradeRecord} (journal : app'.journal = app.journal)
      (tape : app'.trades = record :: (if app.trades.length = tradeTapeCap then app.trades.dropLast else app.trades))
      (metrics : app'.metrics = { app.metrics with trades := app.metrics.trades + 1 }) : Tells app app' [.trade record]
  | accepted {orderId : UInt64} {side : Side} {priceTicks : UInt64} {quantity filled resting : UInt32}
      (journal : app'.journal = app.journal.map (· ++ [.New orderId side priceTicks quantity]))
      (tape : app'.trades = app.trades)
      (metrics : app'.metrics = { app.metrics with ordersAccepted := app.metrics.ordersAccepted + 1 }) :
      Tells app app' [.accepted orderId side priceTicks quantity filled resting]
  | cancelled {orderId : UInt64} (journal : app'.journal = app.journal.map (· ++ [.Cancel orderId]))
      (tape : app'.trades = app.trades)
      (metrics : app'.metrics = { app.metrics with cancels := app.metrics.cancels + 1 }) :
      Tells app app' [.cancelled orderId]
  | rejected {orderId : UInt64} {reason : RejectReason} (journal : app'.journal = app.journal)
      (tape : app'.trades = app.trades)
      (metrics : app'.metrics = app.metrics ∨
        app'.metrics = { app.metrics with ordersRejected := app.metrics.ordersRejected + 1 }) :
      Tells app app' [.rejected orderId reason]

/-- A replay tells nothing. -/
theorem broadcasts_restoring {app : AppState} (on : app.restoring = true) (now : UInt64) (msg : BinaryMessage) :
    broadcasts app now msg = [] := by
  cases msg with
  | trade t => simp [broadcasts,on]
  | ack a =>
    obtain ⟨orderId,kind⟩ := a
    cases kind with
    | Accepted => cases found : app.inflight.lookup orderId <;> simp [broadcasts,found,on]
    | Cancelled => cases found : app.inflight.lookup orderId <;> simp [broadcasts,found,on]
  | reject r => cases found : app.inflight.lookup r.orderId <;> simp [broadcasts,found,on]
  | newOrder m => rfl
  | cancelOrder c => rfl

theorem handle_tells (app : AppState) (now : UInt64) (msg : BinaryMessage) :
    Tells app (app.handleEngineEvent now msg).1 (broadcasts app now msg) := by
  by_cases on : app.restoring = true
  · rw [broadcasts_restoring on]
    obtain ⟨journal,metrics,trades⟩ := handle_restoring on now msg
    exact .nothing ⟨journal,trades,app.metrics.ordersSubmitted,metrics⟩
  rw [Bool.not_eq_true] at on
  cases msg with
  | trade t =>
    obtain ⟨⟨journal,metrics,trades⟩,restoring⟩ := accumulate_records app t
    have off : (app.accumulate t).restoring = false := restoring.trans on
    simp only [broadcasts,on,AppState.handleEngineEvent,AppState.handleTrade,off,Bool.false_eq_true,if_false]
    exact .trade journal (by simp only [AppState.recordTrade,trades]) (by simp only [AppState.recordTrade,metrics])
  | ack a =>
    obtain ⟨orderId,kind⟩ := a
    cases kind with
    | Accepted =>
      cases found : app.inflight.lookup orderId with
      | none =>
        simp only [broadcasts,AppState.handleEngineEvent,AppState.completeAccept,found]
        exact .nothing ⟨rfl,rfl,_,rfl⟩
      | some entry =>
        by_cases some : leftOf entry > 0
        · simp only [broadcasts,AppState.handleEngineEvent,AppState.completeAccept,AppState.dropInflight,found,on,some,
            Bool.false_eq_true,if_true,if_false]
          exact .accepted rfl rfl rfl
        · simp only [broadcasts,AppState.handleEngineEvent,AppState.completeAccept,AppState.dropInflight,found,on,some,
            Bool.false_eq_true,if_false]
          exact .accepted rfl rfl rfl
    | Cancelled =>
      cases found : app.inflight.lookup orderId with
      | none =>
        simp only [broadcasts,AppState.handleEngineEvent,AppState.completeCancel,found]
        exact .nothing ⟨rfl,rfl,_,rfl⟩
      | some entry =>
        simp only [broadcasts,AppState.handleEngineEvent,AppState.completeCancel,AppState.dropInflight,found,on,
          Bool.false_eq_true,if_false]
        exact .cancelled rfl rfl rfl
  | reject r =>
    cases found : app.inflight.lookup r.orderId with
    | none =>
      simp only [broadcasts,AppState.handleEngineEvent,AppState.completeReject,found]
      exact .nothing ⟨rfl,rfl,_,rfl⟩
    | some entry =>
      simp only [broadcasts,AppState.handleEngineEvent,AppState.completeReject,AppState.dropInflight,found,on,
        Bool.false_eq_true,if_false,false_or]
      split_ifs
      · exact .rejected rfl rfl (.inl rfl)
      · exact .rejected rfl rfl (.inr rfl)
  | newOrder m => exact .nothing ⟨rfl,rfl,_,rfl⟩
  | cancelOrder c => exact .nothing ⟨rfl,rfl,_,rfl⟩

/-- An event that does not mark the book leaves it as it is. -/
theorem handle_unmarked {app : AppState} {msg : BinaryMessage} (clean : marks app msg = false) (now : UInt64) :
    (app.handleEngineEvent now msg).1.book = app.book := by
  cases msg with
  | trade t => cases clean
  | ack a =>
    obtain ⟨orderId,kind⟩ := a
    cases kind with
    | Accepted =>
      cases found : app.inflight.lookup orderId with
      | none => simp only [AppState.handleEngineEvent,AppState.completeAccept,found]
      | some entry =>
        have terminates : AppState.terminatorId (.ack ⟨orderId,.Accepted⟩) = some orderId := rfl
        obtain ⟨app',handled,_,_,book,_⟩ := AppState.handle_found terminates found now
        rw [handled,book]
        simp only [marks,found,decide_eq_false_iff_not] at clean
        exact AppState.insertResting_left clean
    | Cancelled =>
      cases found : app.inflight.lookup orderId with
      | none => simp only [AppState.handleEngineEvent,AppState.completeCancel,found]
      | some entry => simp [marks,found] at clean
  | reject r =>
    cases found : app.inflight.lookup r.orderId with
    | none => simp only [AppState.handleEngineEvent,AppState.completeReject,found]
    | some entry =>
      have terminates : AppState.terminatorId (.reject r) = some r.orderId := rfl
      obtain ⟨app',handled,_,_,book,_⟩ := AppState.handle_found terminates found now
      rw [handled,book]
      rfl
  | newOrder m => rfl
  | cancelOrder c => rfl

/-! ### What a step of the system tells -/

section
variable {maxOrders maxPriceLevels : PoolCapacity} {s s' : System maxOrders maxPriceLevels}

/-- A step that handles no event and opens no connection. -/
structure Quiet (app app' : AppState) : Prop extends Beside app app' where
  book : app'.book = app.book

theorem Quiet.refl (app : AppState) : Quiet app app := ⟨⟨rfl,rfl,_,rfl⟩,rfl⟩

/-- What a step tells, and that it marks the book if it changes it. -/
structure Reports (s : System maxOrders maxPriceLevels) (event : Event) (s' : System maxOrders maxPriceLevels) : Prop where
  tells : Tells s.app s'.app (sent s event)
  book : dirties s event = false → s'.app.book = s.app.book

theorem Quiet.reports {event : Event} (quiet : Quiet s.app s'.app) (silent : sent s event = []) : Reports s event s' := by
  refine ⟨?_,fun _ => quiet.book⟩
  rw [silent]
  exact .nothing quiet.toBeside

theorem handle_reports {now : UInt64} (ran : s.traffic (.handle now) = some s') : Reports s (.traffic (.handle now)) s' := by
  obtain ⟨frame,msg,rest,next,rfl⟩ := System.handle_cases ran
  rw [deliver_eq]
  constructor
  · rw [sent,next]
    exact handle_tells s.app now msg
  · intro clean
    rw [dirties,next] at clean
    exact handle_unmarked clean now

theorem traffic_reports {event : Traffic} (ran : s.traffic event = some s') : Reports s (.traffic event) s' := by
  cases event with
  | postOrder body =>
    rcases System.postOrder_cases ran with rfl | ⟨m,gateway,_,_,_,_,rfl⟩
    · exact (Quiet.refl _).reports rfl
    · exact Quiet.reports ⟨⟨rfl,rfl,_,rfl⟩,rfl⟩ rfl
  | postCancel orderId =>
    rw [System.postCancel_cases ran]
    exact Quiet.reports (Quiet.refl _) rfl
  | check n =>
    obtain ⟨_,_,_,rfl⟩ := System.check_cases ran
    exact Quiet.reports (Quiet.refl _) rfl
  | register n =>
    obtain ⟨_,_,_,rfl | ⟨app,prepared,rfl⟩⟩ := System.register_cases ran
    · exact Quiet.reports (Quiet.refl _) rfl
    · obtain ⟨_,entry,_,_,_,rfl⟩ := prepare_some prepared
      exact Quiet.reports ⟨⟨rfl,rfl,_,rfl⟩,rfl⟩ rfl
  | send n =>
    obtain ⟨_,_,_,rfl⟩ := System.send_cases ran
    exact Quiet.reports (Quiet.refl _) rfl
  | receive n =>
    obtain ⟨_,_,_,rfl⟩ := System.receive_cases ran
    exact Quiet.reports (Quiet.refl _) rfl
  | giveUp n =>
    obtain ⟨_,_,rfl⟩ := System.giveUp_cases ran
    exact Quiet.reports (Quiet.refl _) rfl
  | drop n =>
    obtain ⟨_,_,_,rfl⟩ := System.drop_cases ran
    exact Quiet.reports ⟨⟨rfl,rfl,_,rfl⟩,rfl⟩ rfl
  | forward =>
    obtain ⟨frame,rest,_,_,rfl⟩ := System.forward_cases ran
    rw [System.write]
    split
    · exact Quiet.reports (Quiet.refl _) rfl
    · exact Quiet.reports (Quiet.refl _) rfl
  | process =>
    obtain ⟨_,_,_,_,_,_,rfl⟩ := System.process_cases ran
    exact Quiet.reports (Quiet.refl _) rfl
  | handle now => exact handle_reports ran

theorem prepareReplay_quiet {app app' : AppState} {responder : Nat} {record : JournalRecord} {command : Option Command}
    (prepared : app.prepareReplay responder record = (app',command)) : Quiet app app' := by
  cases command with
  | none =>
    obtain ⟨gateway,rfl⟩ := prepareReplay_none prepared
    exact ⟨⟨rfl,rfl,_,rfl⟩,rfl⟩
  | some command =>
    obtain ⟨_,_,gateway,entry,_,_,_,_,rfl⟩ := prepareReplay_some prepared
    exact ⟨⟨rfl,rfl,_,rfl⟩,rfl⟩

theorem link_reports {event : Link} (ran : s.link event = some s') : Reports s (.link event) s' := by
  cases event with
  | connect readable =>
    -- the book is reset, and marked
    refine ⟨?_,fun clean => by cases clean⟩
    obtain ⟨_,⟨_,rfl⟩ | ⟨records,_,rfl⟩⟩ := System.connect_cases ran
    · exact .nothing ⟨rfl,rfl,_,rfl⟩
    · exact .nothing ⟨rfl,rfl,_,rfl⟩
  | connectFails =>
    obtain ⟨_,rfl⟩ := System.connectFails_cases ran
    exact Quiet.reports ⟨⟨rfl,rfl,_,rfl⟩,rfl⟩ rfl
  | replayNext =>
    obtain ⟨record,rest,app,_,⟨prepared,rfl⟩ | ⟨command,prepared,rfl⟩⟩ := System.replayNext_cases ran
    · exact Quiet.reports (prepareReplay_quiet prepared) rfl
    · have quiet := prepareReplay_quiet prepared
      rw [System.write]
      split
      · exact Quiet.reports quiet rfl
      · exact Quiet.reports quiet rfl
  | replayNextFails =>
    obtain ⟨record,rest,app,command,_,_,prepared,rfl⟩ := System.replayNextFails_cases ran
    obtain ⟨⟨journal,tape,metrics⟩,book⟩ := prepareReplay_quiet prepared
    exact Quiet.reports ⟨⟨journal,tape,metrics⟩,book⟩ rfl
  | replayAwaited =>
    obtain ⟨_,_,_,rfl⟩ := System.replayAwaited_cases ran
    exact Quiet.reports (Quiet.refl _) rfl
  | endRestore =>
    obtain ⟨_,rfl⟩ | ⟨_,rfl⟩ := System.endRestore_cases ran
    · exact Quiet.reports ⟨⟨rfl,rfl,_,rfl⟩,rfl⟩ rfl
    · exact Quiet.reports ⟨⟨rfl,rfl,_,rfl⟩,rfl⟩ rfl
  | abandon =>
    obtain ⟨_,rfl⟩ := System.abandon_cases ran
    exact Quiet.reports ⟨⟨rfl,rfl,_,rfl⟩,rfl⟩ rfl
  | serve =>
    obtain ⟨_,rfl⟩ := System.serve_cases ran
    exact Quiet.reports ⟨⟨rfl,rfl,_,rfl⟩,rfl⟩ rfl
  | forwardFails =>
    obtain ⟨_,_,_,_,_,rfl⟩ := System.forwardFails_cases ran
    exact Quiet.reports (Quiet.refl _) rfl
  | readerEnds =>
    obtain ⟨_,_,_,rfl⟩ := System.readerEnds_cases ran
    exact Quiet.reports (Quiet.refl _) rfl
  | disconnect =>
    obtain ⟨_,rfl⟩ := System.disconnect_cases ran
    exact Quiet.reports ⟨⟨rfl,rfl,_,rfl⟩,rfl⟩ rfl
  | failAll =>
    obtain ⟨_,rfl⟩ := System.failAll_cases ran
    exact Quiet.reports ⟨⟨rfl,rfl,_,rfl⟩,rfl⟩ rfl
  | cut frames events =>
    obtain ⟨_,rfl⟩ := System.cut_cases ran
    exact Quiet.reports (Quiet.refl _) rfl
  | processStray =>
    obtain ⟨_,_,_,_,_,_,rfl⟩ := System.processStray_cases ran
    exact Quiet.reports (Quiet.refl _) rfl
  | restartEngine =>
    obtain ⟨_,rfl⟩ := System.restartEngine_cases ran
    exact Quiet.reports (Quiet.refl _) rfl

theorem step_reports {event : Event} (ran : s.step event = some s') : Reports s event s' := by
  cases event with
  | traffic event => exact traffic_reports ran
  | link event => exact link_reports ran
end

/-! ### Whole runs -/

/-- The trades that were told, newest first. -/
def told (feed : List Message) : List TradeRecord := (feed.filterMap Message.traded).reverse

/-- The last book that was pushed; a page starts with an empty one. -/
def lastBook (feed : List Message) : List BookLevel × List BookLevel := ((feed.filterMap Message.shown).getLast?).getD ([],[])

/-- What the records of the gateway hold of its feed. -/
structure Recorded (journal : Option (List JournalRecord)) (feed : List Message) (app : AppState) : Prop where
  tape : app.trades = (told feed).take tradeTapeCap
  trades : app.metrics.trades = UInt64.ofNat (told feed).length
  accepted : app.metrics.ordersAccepted = UInt64.ofNat (feed.countP Message.isAccepted)
  cancels : app.metrics.cancels = UInt64.ofNat (feed.countP Message.isCancelled)
  rejected : ∃ orders ≤ feed.countP Message.isRejected, app.metrics.ordersRejected = UInt64.ofNat orders
  journal : app.journal = journal.map (· ++ feed.flatMap Message.records)

section
variable {journal : Option (List JournalRecord)} {feed : List Message} {app app' : AppState}

/-- One more message, with what it adds to each record. -/
theorem Recorded.append (recorded : Recorded journal feed app) (message : Message)
    (tape : app'.trades = (message.traded.toList ++ told feed).take tradeTapeCap)
    (trades : app'.metrics.trades = app.metrics.trades + UInt64.ofNat message.traded.toList.length)
    (accepted : app'.metrics.ordersAccepted = app.metrics.ordersAccepted + if message.isAccepted then 1 else 0)
    (cancels : app'.metrics.cancels = app.metrics.cancels + if message.isCancelled then 1 else 0)
    (rejected : app'.metrics.ordersRejected = app.metrics.ordersRejected ∨
      message.isRejected = true ∧ app'.metrics.ordersRejected = app.metrics.ordersRejected + 1)
    (written : app'.journal = app.journal.map (· ++ message.records)) : Recorded journal (feed ++ [message]) app' := by
  have grown : told (feed ++ [message]) = message.traded.toList ++ told feed := by
    cases known : message.traded with
    | none => simp [told,known]
    | some record => simp [told,known]
  obtain ⟨orders,few,counted⟩ := recorded.rejected
  refine ⟨?_,?_,?_,?_,?_,?_⟩
  · rw [tape,grown]
  · rw [trades,grown,recorded.trades,List.length_append,Nat.add_comm,UInt64.ofNat_add]
  · rw [accepted,recorded.accepted,List.countP_append,UInt64.ofNat_add]
    by_cases one : message.isAccepted = true <;> simp [one]
  · rw [cancels,recorded.cancels,List.countP_append,UInt64.ofNat_add]
    by_cases one : message.isCancelled = true <;> simp [one]
  · rw [List.countP_append]
    rcases rejected with same | ⟨one,more⟩
    · exact ⟨orders,Nat.le_add_right_of_le few,same.trans counted⟩
    · refine ⟨orders + 1,by simpa [one] using few,?_⟩
      rw [more,counted,UInt64.ofNat_add]
      rfl
  · rw [written,recorded.journal]
    simp [Function.comp_def]

theorem Recorded.tells {messages : List Message} (recorded : Recorded journal feed app) (tells : Tells app app' messages) :
    Recorded journal (feed ++ messages) app' := by
  cases tells with
  | nothing beside =>
    obtain ⟨journal',tape',submitted,metrics⟩ := beside
    rw [List.append_nil]
    exact ⟨tape'.trans recorded.tape,metrics ▸ recorded.trades,metrics ▸ recorded.accepted,metrics ▸ recorded.cancels,
      metrics ▸ recorded.rejected,journal'.trans recorded.journal⟩
  | @trade record journal' tape' metrics =>
    refine recorded.append (.trade record) ?_ ?_ ?_ ?_ (.inl ?_) ?_
    · rw [tape',recorded.tape]
      exact Ranks.take_cons_full (by decide) _ _
    · simp [metrics,Message.traded]
    · simp [metrics,Message.isAccepted]
    · simp [metrics,Message.isCancelled]
    · rw [metrics]
    · simp [journal',Message.records]
  | @accepted orderId side priceTicks quantity filled resting journal' tape' metrics =>
    refine recorded.append (.accepted orderId side priceTicks quantity filled resting) (tape'.trans recorded.tape) ?_ ?_ ?_ (.inl ?_)
      journal'
    · simp [metrics,Message.traded]
    · simp [metrics,Message.isAccepted]
    · simp [metrics,Message.isCancelled]
    · rw [metrics]
  | @cancelled orderId journal' tape' metrics =>
    refine recorded.append (.cancelled orderId) (tape'.trans recorded.tape) ?_ ?_ ?_ (.inl ?_) journal'
    · simp [metrics,Message.traded]
    · simp [metrics,Message.isAccepted]
    · simp [metrics,Message.isCancelled]
    · rw [metrics]
  | @rejected orderId reason journal' tape' metrics =>
    refine recorded.append (.rejected orderId reason) (tape'.trans recorded.tape) ?_ ?_ ?_ ?_ ?_
    · rcases metrics with metrics | metrics <;> simp [metrics,Message.traded]
    · rcases metrics with metrics | metrics <;> simp [metrics,Message.isAccepted]
    · rcases metrics with metrics | metrics <;> simp [metrics,Message.isCancelled]
    · rcases metrics with metrics | metrics
      · exact .inl (by rw [metrics])
      · exact .inr ⟨rfl,by rw [metrics]⟩
    · simp [journal',Message.records]

/-- A push of the book is in no record. -/
theorem Recorded.beside_push (recorded : Recorded journal feed app) (board : Board (List BookLevel × List BookLevel)) (act : Act) :
    Recorded journal (feed ++ pushed board act) app := by
  have cases : pushed board act = [] ∨ ∃ bids asks, pushed board act = [.book bids asks] := by
    rw [pushed.eq_def]
    split
    · split
      · exact .inr ⟨_,_,rfl⟩
      · exact .inl rfl
    · exact .inl rfl
  rcases cases with none | ⟨bids,asks,some⟩
  · rw [none,List.append_nil]
    exact recorded
  · rw [some]
    refine recorded.append (.book bids asks) recorded.tape ?_ ?_ ?_ (.inl rfl) ?_
    · simp [Message.traded]
    · simp [Message.isAccepted]
    · simp [Message.isCancelled]
    · simp [Message.records]
end

section
variable {maxOrders maxPriceLevels : PoolCapacity} {s s' : Server maxOrders maxPriceLevels}
  {journal : Option (List JournalRecord)}

theorem Server.turn_system {event : Event} (ran : s.turn (.system event) = some s') : ∃ system,
    s.system.step event = some system ∧
      s' = ⟨system,if dirties s.system event then s.board.changed else s.board,s.feed ++ sent s.system event⟩ := by
  rw [Server.turn] at ran
  simp only [Option.bind_eq_bind,Option.bind_eq_some_iff] at ran
  obtain ⟨system,stepped,made⟩ := ran
  exact ⟨system,stepped,(Option.some.inj made).symm⟩

theorem Server.turn_board {act : Act} (ran : s.turn (.board act) = some s') : ∃ board,
    s.board.act (shot s.system.app) act = some board ∧ s' = { s with board := board, feed := s.feed ++ pushed s.board act } := by
  rw [Server.turn] at ran
  simp only [Option.bind_eq_bind,Option.bind_eq_some_iff] at ran
  obtain ⟨board,acted,made⟩ := ran
  exact ⟨board,acted,(Option.some.inj made).symm⟩

/-- The messages of the events are no books. -/
theorem lastBook_sent (feed : List Message) {messages : List Message} {app app' : AppState} (tells : Tells app app' messages) :
    lastBook (feed ++ messages) = lastBook feed := by
  cases tells <;> simp [lastBook,Message.shown]

/-- What is shown is what was pushed last. -/
theorem lastBook_pushed {feed : List Message} {board board' : Board (List BookLevel × List BookLevel)}
    {value : List BookLevel × List BookLevel} {act : Act} (shown : board.shown = lastBook feed)
    (acted : board.act value act = some board') : board'.shown = lastBook (feed ++ pushed board act) := by
  cases act with
  | mark =>
    rw [Board.act] at acted
    split_ifs at acted
    cases acted
    simpa [pushed] using shown
  | take =>
    rw [Board.act] at acted
    split at acted
    · cases acted
      simpa [pushed] using shown
    · cases acted
  | read =>
    rw [Board.act] at acted
    split at acted
    · cases acted
      simpa [pushed] using shown
    · cases acted
  | push =>
    rw [Board.act] at acted
    split at acted
    · rename_i read holds
      cases acted
      simp [pushed,holds,lastBook,Message.shown]
    · cases acted

/-- The feed is a true account of the gateway. -/
structure Tracks (journal : Option (List JournalRecord)) (s : Server maxOrders maxPriceLevels) : Prop where
  recorded : Recorded journal s.feed s.system.app
  shown : s.board.shown = lastBook s.feed
  fresh : s.board.Fresh (shot s.system.app)

theorem shot_new (journal : Option (List JournalRecord)) : shot (.new journal) = ([],[]) := by
  simp [shot,AppState.new,Projection.OrderBook.snapshot,Projection.iter]

theorem tracks_new (journal : Option (List JournalRecord)) :
    Tracks journal (Server.new journal : Server maxOrders maxPriceLevels) := by
  refine ⟨⟨?_,rfl,rfl,rfl,⟨0,Nat.le_refl _,rfl⟩,?_⟩,shot_new journal,Board.fresh_new _⟩
  · simp [Server.new,System.new,AppState.new,told]
  · simp [Server.new,System.new,AppState.new]

theorem Tracks.turn (tracks : Tracks journal s) {turn : Turn} (ran : s.turn turn = some s') : Tracks journal s' := by
  cases turn with
  | system event =>
    obtain ⟨system,stepped,rfl⟩ := Server.turn_system ran
    obtain ⟨tells,book⟩ := step_reports stepped
    refine ⟨tracks.recorded.tells tells,?_,?_⟩
    · rw [lastBook_sent _ tells,← tracks.shown]
      dsimp only
      split
      · rfl
      · rfl
    · dsimp only
      split
      · exact Board.fresh_changed _ _
      · rename_i clean
        rw [shot,book (by simpa using clean)]
        exact tracks.fresh
  | board act =>
    obtain ⟨board,acted,rfl⟩ := Server.turn_board ran
    exact ⟨tracks.recorded.beside_push s.board act,lastBook_pushed tracks.shown acted,tracks.fresh.act acted⟩

theorem Leads.tracks {allowed : Server maxOrders maxPriceLevels → Turn → Prop}
    (run : Leads Server.turn allowed (Server.new journal) s) : Tracks journal s :=
  run.keeps (tracks_new journal) (fun _ _ _ before _ ran => before.turn ran)

/-- The publisher's acts are turns of the server that leave the system alone. -/
theorem Server.turn_acts {board : Board (List BookLevel × List BookLevel)} {acts : List Act}
    (ran : s.board.acts (shot s.system.app) acts = some board) :
    ∃ s', Leads Server.turn (fun _ turn => ∃ act, turn = .board act) s s' ∧ s'.system = s.system ∧ s'.board = board := by
  induction acts generalizing s with
  | nil =>
    cases ran
    exact ⟨s,.start,rfl,rfl⟩
  | cons act rest ih =>
    rw [Board.acts,List.foldlM_cons] at ran
    obtain ⟨middle,acted,later⟩ := Option.bind_eq_some_iff.mp ran
    have turned : s.turn (.board act) = some { s with board := middle, feed := s.feed ++ Feed.pushed s.board act } := by
      simp only [Server.turn,acted,Option.bind_eq_bind,Option.bind_some,pure]
    obtain ⟨s',leads,same,ends⟩ := ih (s := { s with board := middle, feed := s.feed ++ Feed.pushed s.board act }) later
    exact ⟨s',(Leads.step .start ⟨act,rfl⟩ turned).trans leads,same,ends⟩
end

/-- In every run of the gateway with its engine, through replays and reconnects, the feed is a
true account: the trades served are the newest of those told, the counters count the
messages, and the journal is the old one with a record for each acceptance told. -/
theorem feed_tells_all {maxOrders maxPriceLevels : PoolCapacity} {journal : Option (List JournalRecord)}
    {s : Server maxOrders maxPriceLevels} (run : Leads Server.turn (fun _ _ => True) (Server.new journal) s) :
    (∀ limit, getTrades s.system.app limit = (told s.feed).take (max 1 (min (limit.getD defaultTradeLimit) 10000))) ∧
      s.system.app.metrics.trades = UInt64.ofNat (told s.feed).length ∧
      s.system.app.metrics.ordersAccepted = UInt64.ofNat (s.feed.countP Message.isAccepted) ∧
      s.system.app.metrics.cancels = UInt64.ofNat (s.feed.countP Message.isCancelled) ∧
      (∃ orders ≤ s.feed.countP Message.isRejected, s.system.app.metrics.ordersRejected = UInt64.ofNat orders) ∧
      s.system.app.journal = journal.map (· ++ s.feed.flatMap Message.records) := by
  obtain ⟨tape,trades,accepted,cancels,rejected,written⟩ := (Leads.tracks run).recorded
  refine ⟨?_,trades,accepted,cancels,rejected,written⟩
  intro limit
  rw [getTrades,recentTrades,tape,List.take_take]
  congr 1
  rw [tradeTapeCap]
  omega

/-- An order up to the engine's answer. -/
def placing (body : JsonBody) (n : Nat) : List Turn :=
  (.postOrder body :: Correlation.submit n ++ [.forward,.process] : List Traffic).map (fun event => .system (.traffic event))

/-- A bid of five and an ask that takes three of it; the task has read the book between the
two, and the ask changes it before the push. -/
def dealt : List Turn :=
  [.system (.link (.connect true)),.system (.link .serve)] ++ placing (Correlation.order "buy" 100 5 5) 0 ++
    [.system (.traffic (.handle 7)),.board .mark,.board .take,.board .read] ++
    placing (Correlation.order "sell" 100 3 6) 1 ++
    [.system (.traffic (.handle 8)),.board .push,.system (.traffic (.handle 9))]

theorem feed_tells_all_dealt :
    ∃ s : Server .four .four, Leads Server.turn (fun _ _ => True) (Server.new (some [])) s ∧ (told s.feed).length = 1 ∧
      getTrades s.system.app none = told s.feed ∧ s.system.app.metrics.trades = 1 ∧
      s.system.app.journal = some [.New 5 .Buy 100 5,.New 6 .Sell 100 3] := by
  have ran : ((follow Server.turn (fun _ _ => True) (Server.new (some []) : Server .four .four) dealt).map
      (fun s => ((told s.feed).length,s.feed.flatMap Message.records))) =
      some (1,[.New 5 .Buy 100 5,.New 6 .Sell 100 3]) := by
    decide +kernel
  obtain ⟨s,followed,result⟩ := Option.map_eq_some_iff.mp ran
  obtain ⟨one,records⟩ := Prod.mk.inj result
  have leads := follow_leads followed
  obtain ⟨served,trades,_,_,_,journal⟩ := feed_tells_all leads
  refine ⟨s,leads,one,?_,?_,?_⟩
  · rw [served none]
    exact List.take_of_length_le (by rw [one]; decide)
  · rw [trades,one]
    rfl
  · rw [journal,records]
    rfl

/-- No change of the book is lost on its way to the web sockets. In every run, whenever the flag
is clear, every change has been marked and the task is between two ticks, the book that
was pushed last is the one that the gateway holds; and from every state the marks and
the ticks alone lead there. -/
theorem book_pushes_not_lost {maxOrders maxPriceLevels : PoolCapacity} {journal : Option (List JournalRecord)}
    {s : Server maxOrders maxPriceLevels} (run : Leads Server.turn (fun _ _ => True) (Server.new journal) s) :
    (s.board.Settled → lastBook s.feed = shot s.system.app) ∧
      ∃ s', Leads Server.turn (fun _ turn => ∃ act, turn = .board act) s s' ∧ s'.system = s.system ∧ s'.board.Settled ∧
        lastBook s'.feed = shot s.system.app := by
  have tracks := Leads.tracks run
  refine ⟨fun settled => tracks.shown.symm.trans (settled.shown_eq tracks.fresh),?_⟩
  obtain ⟨acts,board,acted,settled⟩ := s.board.settles (shot s.system.app)
  obtain ⟨s',leads,same,rfl⟩ := Server.turn_acts acted
  have later := Leads.tracks (run.trans (leads.weaken (fun _ _ _ => trivial)))
  refine ⟨s',leads,same,settled,?_⟩
  rw [← later.shown,settled.shown_eq later.fresh,same]

theorem book_pushes_not_lost_dealt :
    ∃ s s' : Server .four .four, Leads Server.turn (fun _ _ => True) (Server.new (some [])) s ∧ s.board.unmarked = 2 ∧
      Leads Server.turn (fun _ turn => ∃ act, turn = .board act) s s' ∧ lastBook s'.feed = shot s.system.app := by
  have ran : ((follow Server.turn (fun _ _ => True) (Server.new (some []) : Server .four .four) dealt).map
      (fun s => s.board.unmarked)) = some 2 := by
    decide +kernel
  obtain ⟨s,followed,two⟩ := Option.map_eq_some_iff.mp ran
  have leads := follow_leads followed
  obtain ⟨s',later,_,_,last⟩ := (book_pushes_not_lost leads).2
  exact ⟨s,s',leads,two,later,last⟩

end HyperMatch.Feed
