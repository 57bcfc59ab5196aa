import HyperMatch.Gateway
import HyperMatch.Projection
import Mathlib.Algebra.BigOperators.Group.List.Basic

/-!
The shared state of `gateway-server/src/state.rs` and what it does with a request and
with an engine event. Each mutex is held for one call, so a call is one step. A
one-shot channel is the number of the request that waits on it; sending returns the
number and the reply. The journal is the list of its records; its writes succeed.
Latencies, the broadcast to web sockets and its dirty flag are left out: nothing
reads them back.
-/
namespace HyperMatch
open HyperMatch.Wire
open HyperMatch.Projection (saturatingSub32)

structure Fill where
  execSeq : UInt64
  priceTicks : UInt64
  quantity : UInt32
  restingId : UInt64
  deriving Repr, DecidableEq

structure TradeRecord where
  execSeq : UInt64
  priceTicks : UInt64
  quantity : UInt32
  incomingId : UInt64
  restingId : UInt64
  tsMs : UInt64
  deriving Repr, DecidableEq

structure EngineReply where
  terminator : BinaryMessage
  fills : List Fill
  deriving Repr, DecidableEq

structure InFlight where
  submittedSide : Side
  submittedPriceTicks : UInt64
  submittedQuantity : UInt32
  isCancel : Bool
  fills : List Fill
  responder : Nat
  deriving Repr, DecidableEq

inductive JournalRecord where
  | New (orderId : UInt64) (side : Side) (priceTicks : UInt64) (quantity : UInt32)
  | Cancel (orderId : UInt64)
  deriving Repr, DecidableEq

/-- `Counters` of `stats.rs`. -/
structure Counters where
  ordersSubmitted : UInt64 := 0
  ordersAccepted : UInt64 := 0
  ordersRejected : UInt64 := 0
  cancels : UInt64 := 0
  trades : UInt64 := 0
  deriving Repr, DecidableEq

structure AppState where
  gateway : Gateway
  book : Projection.OrderBook
  metrics : Counters
  trades : List TradeRecord
  inflight : Finmap (fun _ : UInt64 => InFlight)
  connected : Bool
  restoring : Bool
  journal : Option (List JournalRecord)

namespace AppState

def tradeTapeCap : Nat := 10000
def commandChannelCapacity : Nat := 4096

/-- A server that has just been started, with or without a journal. -/
def new (journal : Option (List JournalRecord)) : AppState := ⟨.new,{},{},[],∅,false,false,journal⟩

def beginRestore (app : AppState) : AppState := { app with restoring := true }
def endRestore (app : AppState) : AppState := { app with restoring := false }
def setConnected (app : AppState) (connected : Bool) : AppState := { app with connected := connected }

/-- `register_inflight`, which makes the channel that `responder` waits on. -/
def registerInflight (app : AppState) (responder : Nat) (orderId : UInt64) (submittedSide : Side)
    (submittedPriceTicks : UInt64) (submittedQuantity : UInt32) (isCancel : Bool) : Option AppState :=
  if (app.inflight.lookup orderId).isSome then none
  else
    let entry := ⟨submittedSide,submittedPriceTicks,submittedQuantity,isCancel,[],responder⟩
    some { app with inflight := app.inflight.insert orderId entry }

def dropInflight (app : AppState) (orderId : UInt64) : AppState :=
  { app with inflight := app.inflight.erase orderId }

def failAllInflight (app : AppState) : AppState := { app with inflight := ∅ }

def resetBook (app : AppState) : AppState := { app with book := {} }

def recordSubmission (app : AppState) : AppState :=
  { app with metrics := { app.metrics with ordersSubmitted := app.metrics.ordersSubmitted + 1 } }

/-- `Journal::append`, if there is a journal. -/
def append (app : AppState) (record : JournalRecord) : AppState :=
  { app with journal := app.journal.map (· ++ [record]) }

/-! ### Engine events -/

/-- A fill is added to the entry of the incoming order, if there is one. -/
def accumulate (app : AppState) (t : Trade) : AppState :=
  match app.inflight.lookup t.incomingId with
  | none => app
  | some entry =>
    let entry := { entry with fills := entry.fills ++ [⟨t.execSeq,t.priceTicks,t.quantity,t.restingId⟩] }
    { app with inflight := app.inflight.insert t.incomingId entry }

/-- The tape keeps the newest trades. -/
def recordTrade (app : AppState) (now : UInt64) (t : Trade) : AppState :=
  { app with
    trades := ⟨t.execSeq,t.priceTicks,t.quantity,t.incomingId,t.restingId,now⟩ ::
      (if app.trades.length = tradeTapeCap then app.trades.dropLast else app.trades)
    metrics := { app.metrics with trades := app.metrics.trades + 1 } }

def handleTrade (app : AppState) (now : UInt64) (t : Trade) : AppState :=
  let app := app.accumulate t
  let app := { app with book := app.book.applyTrade t.restingId t.quantity }
  if app.restoring then app else app.recordTrade now t

/-- The quantity of the fills of an entry, and what is left of its order. -/
def filled (entry : InFlight) : UInt32 := (entry.fills.map Fill.quantity).sum
def leftOf (entry : InFlight) : UInt32 := saturatingSub32 entry.submittedQuantity (filled entry)

def completeAccept (app : AppState) (orderId : UInt64) (terminator : BinaryMessage) :
    AppState × Option (Nat × EngineReply) :=
  match app.inflight.lookup orderId with
  | none => (app,none)
  | some entry =>
    let app := app.dropInflight orderId
    let app :=
      if leftOf entry > 0 then
        { app with book :=
            app.book.insertResting orderId entry.submittedSide entry.submittedPriceTicks (leftOf entry) }
      else app
    let app :=
      if app.restoring then app
      else
        { app with metrics := { app.metrics with ordersAccepted := app.metrics.ordersAccepted + 1 } }.append
          (.New orderId entry.submittedSide entry.submittedPriceTicks entry.submittedQuantity)
    (app,some (entry.responder,⟨terminator,entry.fills⟩))

def completeCancel (app : AppState) (orderId : UInt64) (terminator : BinaryMessage) :
    AppState × Option (Nat × EngineReply) :=
  match app.inflight.lookup orderId with
  | none => (app,none)
  | some entry =>
    let app := app.dropInflight orderId
    let app := { app with book := app.book.remove orderId }
    let app :=
      if app.restoring then app
      else { app with metrics := { app.metrics with cancels := app.metrics.cancels + 1 } }.append (.Cancel orderId)
    (app,some (entry.responder,⟨terminator,entry.fills⟩))

def completeReject (app : AppState) (orderId : UInt64) (terminator : BinaryMessage) :
    AppState × Option (Nat × EngineReply) :=
  match app.inflight.lookup orderId with
  | none => (app,none)
  | some entry =>
    let app := app.dropInflight orderId
    let app :=
      if app.restoring ∨ entry.isCancel then app
      else { app with metrics := { app.metrics with ordersRejected := app.metrics.ordersRejected + 1 } }
    (app,some (entry.responder,⟨terminator,entry.fills⟩))

/-- The state after an event, and the reply that it sends. -/
def handleEngineEvent (app : AppState) (now : UInt64) (msg : BinaryMessage) : AppState × Option (Nat × EngineReply) :=
  match msg with
  | .trade t => (app.handleTrade now t,none)
  | .ack ⟨orderId,.Accepted⟩ => app.completeAccept orderId msg
  | .ack ⟨orderId,.Cancelled⟩ => app.completeCancel orderId msg
  | .reject ⟨orderId,_⟩ => app.completeReject orderId msg
  | .newOrder _ => (app,none)
  | .cancelOrder _ => (app,none)

/-! ### What the calls do -/

section
variable {app app' : AppState} {orderId : UInt64} {entry : InFlight}

/-- A registration needs a free identifier, and adds an entry without fills. -/
theorem registerInflight_some {responder : Nat} {side : Side} {priceTicks : UInt64} {quantity : UInt32} {isCancel : Bool}
    (registered : app.registerInflight responder orderId side priceTicks quantity isCancel = some app') :
    app.inflight.lookup orderId = none ∧
      app' = { app with inflight := app.inflight.insert orderId ⟨side,priceTicks,quantity,isCancel,[],responder⟩ } := by
  rw [registerInflight] at registered
  split_ifs at registered with taken
  refine ⟨?_,(Option.some.inj registered).symm⟩
  rw [Option.not_isSome_iff_eq_none] at taken
  exact taken

/-- The identifier that a terminator names. -/
def terminatorId : BinaryMessage → Option UInt64
  | .ack a => some a.orderId
  | .reject r => some r.orderId
  | _ => none

/-- What a terminator writes to the journal, given the entry that it finds. -/
def recordsOf (entry : InFlight) : BinaryMessage → List JournalRecord
  | .ack ⟨orderId,.Accepted⟩ =>
    [.New orderId entry.submittedSide entry.submittedPriceTicks entry.submittedQuantity]
  | .ack ⟨orderId,.Cancelled⟩ => [.Cancel orderId]
  | _ => []

/-- What a terminator does to the book. -/
def settledBook (book : Projection.OrderBook) (entry : InFlight) : BinaryMessage → Projection.OrderBook
  | .ack ⟨orderId,.Accepted⟩ =>
    book.insertResting orderId entry.submittedSide entry.submittedPriceTicks (leftOf entry)
  | .ack ⟨orderId,.Cancelled⟩ => book.remove orderId
  | _ => book

/-- No event touches the identifiers in use or the flags. -/
structure SameGates (app app' : AppState) : Prop where
  gateway : app'.gateway = app.gateway
  connected : app'.connected = app.connected
  restoring : app'.restoring = app.restoring

/-- A trade is a fill for the entry of its incoming order and a reduction of the
    resting one. -/
theorem handle_trade (app : AppState) (now : UInt64) (t : Trade) :
    ∃ app', app.handleEngineEvent now (.trade t) = (app',none) ∧ SameGates app app' ∧ app'.journal = app.journal ∧
      app'.inflight = (app.accumulate t).inflight ∧ app'.book = app.book.applyTrade t.restingId t.quantity := by
  refine ⟨app.handleTrade now t,rfl,?_⟩
  have first : SameGates app (app.accumulate t) ∧ (app.accumulate t).journal = app.journal ∧
      (app.accumulate t).book = app.book := by
    rw [accumulate]
    split
    · exact ⟨⟨rfl,rfl,rfl⟩,rfl,rfl⟩
    · exact ⟨⟨rfl,rfl,rfl⟩,rfl,rfl⟩
  obtain ⟨⟨gateway,connected,restoring⟩,journal,book⟩ := first
  rw [handleTrade]
  dsimp only
  split_ifs
  · exact ⟨⟨gateway,connected,restoring⟩,journal,rfl,by rw [book]⟩
  · exact ⟨⟨gateway,connected,restoring⟩,journal,rfl,by rw [← book]; rfl⟩

/-- A terminator without an entry does nothing. -/
theorem handle_missing {msg : BinaryMessage} (terminates : terminatorId msg = some orderId)
    (missing : app.inflight.lookup orderId = none) (now : UInt64) : app.handleEngineEvent now msg = (app,none) := by
  cases msg with
  | ack a =>
    obtain ⟨id,kind⟩ := a
    cases terminates
    cases kind with
    | Accepted => simp only [handleEngineEvent,completeAccept,missing]
    | Cancelled => simp only [handleEngineEvent,completeCancel,missing]
  | reject r =>
    cases terminates
    simp only [handleEngineEvent,completeReject,missing]
  | _ => cases terminates

/-- Nothing comes to rest of an order that is filled. -/
theorem insertResting_left {book : Projection.OrderBook} {side : Side} {priceTicks : UInt64} (none : ¬ leftOf entry > 0) :
    book.insertResting orderId side priceTicks (leftOf entry) = book := by
  have zero : leftOf entry = 0 := by
    by_contra some
    exact none (UInt32.pos_iff_ne_zero.mpr some)
  rw [zero,Projection.insertResting_zero]

/-- A terminator takes the entry of its identifier, whoever that belongs to. -/
theorem handle_found {msg : BinaryMessage} (terminates : terminatorId msg = some orderId)
    (found : app.inflight.lookup orderId = some entry) (now : UInt64) :
    ∃ app', app.handleEngineEvent now msg = (app',some (entry.responder,⟨msg,entry.fills⟩)) ∧ SameGates app app' ∧
      app'.inflight = app.inflight.erase orderId ∧ app'.book = settledBook app.book entry msg ∧
      app'.journal = if app.restoring then app.journal else app.journal.map (· ++ recordsOf entry msg) := by
  cases msg with
  | ack a =>
    obtain ⟨id,kind⟩ := a
    cases terminates
    cases kind with
    | Accepted =>
      simp only [handleEngineEvent,completeAccept,found,settledBook,recordsOf]
      refine ⟨_,rfl,?_⟩
      dsimp only [dropInflight,append]
      split_ifs with some restoring restoring
      · exact ⟨⟨rfl,rfl,rfl⟩,rfl,rfl,rfl⟩
      · exact ⟨⟨rfl,rfl,rfl⟩,rfl,rfl,rfl⟩
      · exact ⟨⟨rfl,rfl,rfl⟩,rfl,(insertResting_left some).symm,rfl⟩
      · exact ⟨⟨rfl,rfl,rfl⟩,rfl,(insertResting_left some).symm,rfl⟩
    | Cancelled =>
      simp only [handleEngineEvent,completeCancel,found,settledBook,recordsOf]
      refine ⟨_,rfl,?_⟩
      obtain ⟨_,_,_,_,_,_,restoring,_⟩ := app
      cases restoring with
      | false => exact ⟨⟨rfl,rfl,rfl⟩,rfl,rfl,rfl⟩
      | true => exact ⟨⟨rfl,rfl,rfl⟩,rfl,rfl,rfl⟩
  | reject r =>
    cases terminates
    have nothing : app.journal.map (· ++ ([] : List JournalRecord)) = app.journal := by cases app.journal <;> simp
    simp only [handleEngineEvent,completeReject,found,settledBook,recordsOf,nothing,ite_self]
    refine ⟨_,rfl,?_⟩
    split_ifs
    · exact ⟨⟨rfl,rfl,rfl⟩,rfl,rfl,rfl⟩
    · exact ⟨⟨rfl,rfl,rfl⟩,rfl,rfl,rfl⟩
  | _ => cases terminates

theorem accumulate_missing {t : Trade} (missing : app.inflight.lookup t.incomingId = none) : app.accumulate t = app := by
  rw [accumulate,missing]

theorem accumulate_found {t : Trade} (found : app.inflight.lookup t.incomingId = some entry) :
    (app.accumulate t).inflight = app.inflight.insert t.incomingId
      { entry with fills := entry.fills ++ [⟨t.execSeq,t.priceTicks,t.quantity,t.restingId⟩] } := by
  rw [accumulate,found]

/-- An entry after a trade is an old one, with the fill if the trade is its own. -/
theorem accumulate_lookup {t : Trade} {id : UInt64} (found : (app.accumulate t).inflight.lookup id = some entry) :
    (id ≠ t.incomingId ∧ app.inflight.lookup id = some entry) ∨
      ∃ old, id = t.incomingId ∧ app.inflight.lookup id = some old ∧
        entry = { old with fills := old.fills ++ [⟨t.execSeq,t.priceTicks,t.quantity,t.restingId⟩] } := by
  cases looked : app.inflight.lookup t.incomingId with
  | none =>
    rw [accumulate_missing looked] at found
    refine .inl ⟨?_,found⟩
    rintro rfl
    cases looked.symm.trans found
  | some old =>
    rw [accumulate_found looked] at found
    rcases Projection.lookup_insert_some found with ⟨rfl,rfl⟩ | other
    · exact .inr ⟨old,rfl,looked,rfl⟩
    · exact .inl other
end

end AppState
end HyperMatch
