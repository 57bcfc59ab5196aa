import HyperMatch.AppState
import HyperMatch.Processing

/-!
The gateway server and the engine as one system: the handlers of
`gateway-server/src/api.rs`, the connection manager of `engine_client.rs` with its
reader, the engine, and the queues between them. A step is what one of them does
without being interrupted; any of them may take the next one. A frame on the wire is
the command that it encodes (the codecs read back what they write), and a frame and
an event carry the number of the request that they belong to, which no step reads.
A reader that is aborted stops at once: what is shown of this system is shown under this
premise, and `LateReaders` has the readers that go on.
-/
namespace HyperMatch
open HyperMatch.Wire
open HyperMatch.Matching (Command)
open HyperMatch.OrderBook (PoolCapacity)

def Matching.Command.orderId : Command → UInt64
  | .newOrder m => m.orderId
  | .cancelOrder c => c.orderId

def Matching.Command.message : Command → BinaryMessage
  | .newOrder m => .newOrder m
  | .cancelOrder c => .cancelOrder c

structure Frame where
  command : Command
  owner : Nat
  deriving Repr, DecidableEq

/-- Where a handler stands: before its look at the connection, before it registers,
    before it sends, at its timeout, before it drops its entry, and at its end. The
    replay of a record waits like a handler but never gives up its entry. -/
inductive Phase where
  | arrived
  | checked
  | registered
  | waiting
  | failed
  | unavailable
  | answered
  | replay
  deriving Repr, DecidableEq

/-- A request, with what its one-shot channel holds. -/
structure Request where
  command : Command
  phase : Phase
  mailbox : Option EngineReply
  deriving Repr, DecidableEq

/-- Where `engine_client::run` stands. -/
inductive Manager where
  | down
  | replaying (rest : List JournalRecord)
  | awaiting (ticket : Nat) (rest : List JournalRecord)
  | failing
  | broken
  | restored
  | live
  | closing
  | closed
  deriving Repr, DecidableEq

/-- The system. The commands that the engine has processed on this connection, with
    its answers, and the events that the gateway has handled are kept as logs; the
    frames of a lost connection that the engine may still process are strays. -/
structure System (maxOrders maxPriceLevels : PoolCapacity) where
  app : AppState
  requests : List Request
  channel : List Frame
  toEngine : List Frame
  toGateway : List (Frame × BinaryMessage)
  engine : MatchingEngine maxOrders maxPriceLevels
  manager : Manager
  linked : Bool
  strays : List Frame
  processed : List (Frame × List BinaryMessage)
  applied : List (Frame × BinaryMessage)

namespace AppState

/-- The registration of a command, as its handler makes it. -/
def register (app : AppState) (responder : Nat) : Command → Option AppState
  | .newOrder m => app.registerInflight responder m.orderId m.side m.priceTicks m.quantity false
  | .cancelOrder c => app.registerInflight responder c.orderId .Buy 0 0 true

/-- The registration and the frame of a command; `none` if the identifier is in
    flight or the message does not encode. -/
def prepare (app : AppState) (responder : Nat) (command : Command) : Option AppState :=
  match app.register responder command with
  | none => none
  | some registered => if InRange command.message then some registered else none

/-- `prepare_replay`: the stamp is taken even if the record cannot be prepared. -/
def prepareReplay (app : AppState) (responder : Nat) : JournalRecord → AppState × Option Command
  | .New orderId side priceTicks quantity =>
    let gateway := (app.gateway.reserve orderId).2
    let (message,gateway) := gateway.newOrderMessage ⟨orderId,side,priceTicks,quantity⟩
    let app := { app with gateway := gateway }
    match app.prepare responder (.newOrder message) with
    | none => (app,none)
    | some app => (app,some (.newOrder message))
  | .Cancel orderId =>
    match app.prepare responder (.cancelOrder ⟨orderId⟩) with
    | none => (app,none)
    | some app => (app,some (.cancelOrder ⟨orderId⟩))

end AppState

/-- A reply is lost on a handler that has stopped waiting. -/
def Request.deliver (reply : EngineReply) (request : Request) : Request :=
  match request.phase with
  | .registered => { request with mailbox := some reply }
  | .waiting => { request with mailbox := some reply }
  | .replay => { request with mailbox := some reply }
  | _ => request

/-- The steps of the handlers, of the manager that forwards, of the engine and of the
    reader. -/
inductive Traffic where
  | postOrder (body : JsonBody)
  | postCancel (orderId : UInt64)
  | check (n : Nat)
  | register (n : Nat)
  | send (n : Nat)
  | receive (n : Nat)
  | giveUp (n : Nat)
  | drop (n : Nat)
  | forward
  | process
  | handle (now : UInt64)
  deriving Repr, DecidableEq

/-- The other steps of the manager, and what befalls the connection and the engine. A
    lost connection keeps some of the frames and of the events that are under way. -/
inductive Link where
  | connect (readable : Bool)
  | connectFails
  | replayNext
  | replayNextFails
  | replayAwaited
  | endRestore
  | abandon
  | serve
  | forwardFails
  | readerEnds
  | disconnect
  | failAll
  | cut (frames events : Nat)
  | processStray
  | restartEngine
  deriving Repr, DecidableEq

inductive Event where
  | traffic (event : Traffic)
  | link (event : Link)
  deriving Repr, DecidableEq

namespace System
variable {maxOrders maxPriceLevels : PoolCapacity}

def move (s : System maxOrders maxPriceLevels) (n : Nat) (phase : Phase) : System maxOrders maxPriceLevels :=
  { s with requests := s.requests.modify n (fun request => { request with phase := phase }) }

def deliver (s : System maxOrders maxPriceLevels) : Option (Nat × EngineReply) → System maxOrders maxPriceLevels
  | none => s
  | some (n,reply) => { s with requests := s.requests.modify n (Request.deliver reply) }

/-- A frame that is written to a lost connection is lost. -/
def write (s : System maxOrders maxPriceLevels) (frame : Frame) : System maxOrders maxPriceLevels :=
  if s.linked then { s with toEngine := s.toEngine ++ [frame] } else s

def traffic (s : System maxOrders maxPriceLevels) : Traffic → Option (System maxOrders maxPriceLevels)
  | .postOrder body => do
    let (accepted,gateway) ← s.app.gateway.acceptNewOrder body
    let s := { s with app := { s.app with gateway := gateway } }
    match accepted with
    | .error _ => return s
    | .ok m => return { s with requests := s.requests ++ [⟨.newOrder m,.arrived,none⟩] }
  | .postCancel orderId => some { s with requests := s.requests ++ [⟨.cancelOrder ⟨orderId⟩,.arrived,none⟩] }
  | .check n =>
    match s.requests[n]? with
    | some ⟨_,.arrived,_⟩ => some (s.move n (if s.app.connected then .checked else .unavailable))
    | _ => none
  | .register n =>
    match s.requests[n]? with
    | some ⟨command,.checked,_⟩ =>
      match s.app.prepare n command with
      | none => some (s.move n .unavailable)
      | some app =>
        let s := { s with app := app.recordSubmission }
        some (s.move n .registered)
    | _ => none
  | .send n =>
    match s.requests[n]? with
    | some ⟨command,.registered,_⟩ =>
      if s.channel.length < AppState.commandChannelCapacity then
        let s := { s with channel := s.channel ++ [Frame.mk command n] }
        some (s.move n .waiting)
      else none
    | _ => none
  | .receive n =>
    match s.requests[n]? with
    | some ⟨_,.waiting,some _⟩ => some (s.move n .answered)
    | _ => none
  | .giveUp n =>
    match s.requests[n]? with
    | some ⟨_,.waiting,none⟩ => some (s.move n .failed)
    | _ => none
  | .drop n =>
    match s.requests[n]? with
    | some ⟨command,.failed,_⟩ =>
      let s := { s with app := s.app.dropInflight command.orderId }
      some (s.move n .unavailable)
    | _ => none
  | .forward =>
    match s.manager,s.channel with
    | .live,frame :: rest =>
      let s := { s with channel := rest }
      some (s.write frame)
    | _,_ => none
  | .process =>
    match s.toEngine with
    | [] => none
    | frame :: rest => do
      let (events,engine) ← Processing.answer s.engine frame.command.message
      return { s with
        engine := engine
        toEngine := rest
        toGateway := s.toGateway ++ events.map (frame,·)
        processed := s.processed ++ [(frame,events)] }
  | .handle now =>
    match s.toGateway with
    | [] => none
    | (frame,msg) :: rest =>
      let (app,sent) := s.app.handleEngineEvent now msg
      let s := { s with app := app, toGateway := rest, applied := s.applied ++ [(frame,msg)] }
      some (s.deliver sent)

def link (s : System maxOrders maxPriceLevels) : Link → Option (System maxOrders maxPriceLevels)
  | .connect readable =>
    match s.manager with
    | .down =>
      let s := { s with app := s.app.resetBook, linked := true, processed := [], applied := [] }
      match s.app.journal with
      | none => some { s with manager := .restored }
      | some records =>
        if readable = false ∨ records = [] then some { s with manager := .restored }
        else some { s with app := s.app.beginRestore, manager := .replaying records }
    | _ => none
  | .connectFails =>
    match s.manager with
    | .down => some { s with app := s.app.setConnected false }
    | _ => none
  | .replayNext =>
    match s.manager with
    | .replaying (record :: rest) =>
      let n := s.requests.length
      match s.app.prepareReplay n record with
      | (app,none) => some { s with app := app, manager := .replaying rest }
      | (app,some command) =>
        let requests := s.requests ++ [⟨command,.replay,none⟩]
        let s := { s with app := app, requests := requests, manager := .awaiting n rest }
        some (s.write ⟨command,n⟩)
    | _ => none
  | .replayNextFails =>
    match s.manager,s.linked with
    | .replaying (record :: _),false =>
      match s.app.prepareReplay s.requests.length record with
      | (_,none) => none
      | (app,some command) => some { s with app := app.dropInflight command.orderId, manager := .failing }
    | _,_ => none
  | .replayAwaited =>
    match s.manager with
    | .awaiting _ rest => some { s with manager := .replaying rest }
    | _ => none
  | .endRestore =>
    match s.manager with
    | .replaying [] => some { s with app := s.app.endRestore, manager := .restored }
    | .failing => some { s with app := s.app.endRestore, manager := .broken }
    | _ => none
  | .abandon =>
    match s.manager with
    | .broken => some { s with app := s.app.failAllInflight, toGateway := [], manager := .down }
    | _ => none
  | .serve =>
    match s.manager with
    | .restored => some { s with app := s.app.setConnected true, manager := .live }
    | _ => none
  | .forwardFails =>
    match s.manager,s.channel,s.linked with
    | .live,_ :: rest,false => some { s with channel := rest, manager := .closing }
    | _,_,_ => none
  | .readerEnds =>
    match s.manager,s.toGateway,s.linked with
    | .live,[],false => some { s with manager := .closing }
    | _,_,_ => none
  | .disconnect =>
    match s.manager with
    | .closing => some { s with app := s.app.setConnected false, manager := .closed }
    | _ => none
  | .failAll =>
    match s.manager with
    | .closed => some { s with app := s.app.failAllInflight, toGateway := [], manager := .down }
    | _ => none
  | .cut frames events =>
    if s.linked then
      some { s with
        linked := false
        strays := s.strays ++ s.toEngine.take frames
        toEngine := []
        toGateway := s.toGateway.take events }
    else none
  | .processStray =>
    match s.strays with
    | [] => none
    | frame :: rest => do
      let (_,engine) ← Processing.answer s.engine frame.command.message
      return { s with engine := engine, strays := rest }
  | .restartEngine => if s.linked then none else some { s with engine := .new, strays := [] }

def step (s : System maxOrders maxPriceLevels) : Event → Option (System maxOrders maxPriceLevels)
  | .traffic event => s.traffic event
  | .link event => s.link event

/-- The server and the engine before the first connection. -/
def new (journal : Option (List JournalRecord)) : System maxOrders maxPriceLevels :=
  ⟨.new journal,[],[],[],[],.new,.down,false,[],[],[]⟩

/-! ### What a step of the traffic does -/

section
variable {s s' : System maxOrders maxPriceLevels} {n : Nat}

/-- A delivery leaves all but the requests. -/
theorem deliver_eq (s : System maxOrders maxPriceLevels) (sent : Option (Nat × EngineReply)) :
    s.deliver sent = { s with requests := (s.deliver sent).requests } := by
  cases sent with
  | none => rfl
  | some sent => rfl

theorem deliver_requests (same : s'.requests = s.requests) (sent : Option (Nat × EngineReply)) :
    (s'.deliver sent).requests = (s.deliver sent).requests := by
  cases sent with
  | none => exact same
  | some sent => exact congrArg (·.modify sent.1 (Request.deliver sent.2)) same

theorem postOrder_cases {body : JsonBody} (ran : s.traffic (.postOrder body) = some s') :
    s' = s ∨ ∃ m gateway, m.orderId ∉ s.app.gateway.inUse ∧ gateway.inUse = insert m.orderId s.app.gateway.inUse ∧
      m.seq = s.app.gateway.nextSeq ∧ gateway.nextSeq = s.app.gateway.nextSeq + 1 ∧
      s' = { s with
        app := { s.app with gateway := gateway }
        requests := s.requests ++ [⟨.newOrder m,.arrived,none⟩] } := by
  rw [traffic] at ran
  cases accepting : s.app.gateway.acceptNewOrder body with
  | none => simp [accepting] at ran
  | some result =>
    obtain ⟨accepted,gateway⟩ := result
    rw [accepting] at ran
    rcases Gateway.acceptNewOrder_spec accepting with ⟨e,rfl,rfl⟩ | ⟨m,rfl,free,inUse,seq,next⟩
    · exact .inl (Option.some.inj ran).symm
    · exact .inr ⟨m,gateway,free,inUse,seq,next,(Option.some.inj ran).symm⟩

theorem postCancel_cases {orderId : UInt64} (ran : s.traffic (.postCancel orderId) = some s') :
    s' = { s with requests := s.requests ++ [⟨.cancelOrder ⟨orderId⟩,.arrived,none⟩] } := (Option.some.inj ran).symm

theorem check_cases (ran : s.traffic (.check n) = some s') : ∃ command mailbox,
    s.requests[n]? = some ⟨command,.arrived,mailbox⟩ ∧
      s' = s.move n (if s.app.connected then .checked else .unavailable) := by
  rw [traffic] at ran
  split at ran
  · rename_i command mailbox found
    exact ⟨command,mailbox,found,(Option.some.inj ran).symm⟩
  · cases ran

theorem register_cases (ran : s.traffic (.register n) = some s') : ∃ command mailbox,
    s.requests[n]? = some ⟨command,.checked,mailbox⟩ ∧
      (s' = s.move n .unavailable ∨ ∃ app, s.app.prepare n command = some app ∧
        s' = { s with app := app.recordSubmission }.move n .registered) := by
  rw [traffic] at ran
  split at ran
  · rename_i command mailbox found
    refine ⟨command,mailbox,found,?_⟩
    split at ran
    · exact .inl (Option.some.inj ran).symm
    · rename_i app prepared
      exact .inr ⟨app,prepared,(Option.some.inj ran).symm⟩
  · cases ran

theorem send_cases (ran : s.traffic (.send n) = some s') : ∃ command mailbox,
    s.requests[n]? = some ⟨command,.registered,mailbox⟩ ∧
      s' = { s with channel := s.channel ++ [Frame.mk command n] }.move n .waiting := by
  rw [traffic] at ran
  split at ran
  · rename_i command mailbox found
    split_ifs at ran
    exact ⟨command,mailbox,found,(Option.some.inj ran).symm⟩
  · cases ran

theorem receive_cases (ran : s.traffic (.receive n) = some s') : ∃ command reply,
    s.requests[n]? = some ⟨command,.waiting,some reply⟩ ∧ s' = s.move n .answered := by
  rw [traffic] at ran
  split at ran
  · rename_i command reply found
    exact ⟨command,reply,found,(Option.some.inj ran).symm⟩
  · cases ran

theorem giveUp_cases (ran : s.traffic (.giveUp n) = some s') : ∃ command,
    s.requests[n]? = some ⟨command,.waiting,none⟩ ∧ s' = s.move n .failed := by
  rw [traffic] at ran
  split at ran
  · rename_i command found
    exact ⟨command,found,(Option.some.inj ran).symm⟩
  · cases ran

theorem drop_cases (ran : s.traffic (.drop n) = some s') : ∃ command mailbox,
    s.requests[n]? = some ⟨command,.failed,mailbox⟩ ∧
      s' = { s with app := s.app.dropInflight command.orderId }.move n .unavailable := by
  rw [traffic] at ran
  split at ran
  · rename_i command mailbox found
    exact ⟨command,mailbox,found,(Option.some.inj ran).symm⟩
  · cases ran

theorem forward_cases (ran : s.traffic .forward = some s') : ∃ frame rest, s.manager = .live ∧
    s.channel = frame :: rest ∧ s' = { s with channel := rest }.write frame := by
  rw [traffic] at ran
  split at ran
  · rename_i frame rest live queued
    exact ⟨frame,rest,live,queued,(Option.some.inj ran).symm⟩
  · cases ran

theorem process_cases (ran : s.traffic .process = some s') : ∃ frame rest events engine, s.toEngine = frame :: rest ∧
    Processing.answer s.engine frame.command.message = some (events,engine) ∧
      s' = { s with
        engine := engine
        toEngine := rest
        toGateway := s.toGateway ++ events.map (frame,·)
        processed := s.processed ++ [(frame,events)] } := by
  rw [traffic] at ran
  split at ran
  · cases ran
  · rename_i frame rest written
    cases answered : Processing.answer s.engine frame.command.message with
    | none => simp [answered] at ran
    | some result =>
      rw [answered] at ran
      exact ⟨frame,rest,result.1,result.2,written,answered,(Option.some.inj ran).symm⟩

theorem handle_cases {now : UInt64} (ran : s.traffic (.handle now) = some s') : ∃ frame msg rest,
    s.toGateway = (frame,msg) :: rest ∧
      s' = { s with
        app := (s.app.handleEngineEvent now msg).1
        toGateway := rest
        applied := s.applied ++ [(frame,msg)] }.deliver (s.app.handleEngineEvent now msg).2 := by
  rw [traffic] at ran
  split at ran
  · cases ran
  · rename_i frame msg rest emitted
    exact ⟨frame,msg,rest,emitted,(Option.some.inj ran).symm⟩

/-- Only forwarding and processing reach the frames that have left the channel, and only
    a handler that sends adds one to it. -/
theorem frames_cases {event : Traffic} (ran : s.traffic event = some s') :
    (s'.engine = s.engine ∧ s'.processed = s.processed ∧ s'.toEngine = s.toEngine ∧
        (s'.channel = s.channel ∨ ∃ n command mailbox, event = .send n ∧
          s.requests[n]? = some ⟨command,.registered,mailbox⟩ ∧ s'.channel = s.channel ++ [⟨command,n⟩])) ∨
      event = .forward ∨ event = .process := by
  cases event with
  | postOrder body =>
    rcases postOrder_cases ran with rfl | ⟨m,gateway,_,_,_,_,rfl⟩
    · exact .inl ⟨rfl,rfl,rfl,.inl rfl⟩
    · exact .inl ⟨rfl,rfl,rfl,.inl rfl⟩
  | postCancel orderId =>
    rw [postCancel_cases ran]
    exact .inl ⟨rfl,rfl,rfl,.inl rfl⟩
  | check n =>
    obtain ⟨command,mailbox,_,rfl⟩ := check_cases ran
    exact .inl ⟨rfl,rfl,rfl,.inl rfl⟩
  | register n =>
    obtain ⟨command,mailbox,_,rfl | ⟨app,_,rfl⟩⟩ := register_cases ran
    · exact .inl ⟨rfl,rfl,rfl,.inl rfl⟩
    · exact .inl ⟨rfl,rfl,rfl,.inl rfl⟩
  | send n =>
    obtain ⟨command,mailbox,found,rfl⟩ := send_cases ran
    exact .inl ⟨rfl,rfl,rfl,.inr ⟨n,command,mailbox,rfl,found,rfl⟩⟩
  | receive n =>
    obtain ⟨command,reply,_,rfl⟩ := receive_cases ran
    exact .inl ⟨rfl,rfl,rfl,.inl rfl⟩
  | giveUp n =>
    obtain ⟨command,_,rfl⟩ := giveUp_cases ran
    exact .inl ⟨rfl,rfl,rfl,.inl rfl⟩
  | drop n =>
    obtain ⟨command,mailbox,_,rfl⟩ := drop_cases ran
    exact .inl ⟨rfl,rfl,rfl,.inl rfl⟩
  | handle now =>
    obtain ⟨frame,msg,rest,_,rfl⟩ := handle_cases ran
    rw [deliver_eq]
    exact .inl ⟨rfl,rfl,rfl,.inl rfl⟩
  | forward => exact .inr (.inl rfl)
  | process => exact .inr (.inr rfl)
end

/-! ### What the other steps do -/

section
variable {s s' : System maxOrders maxPriceLevels}

theorem connect_cases {readable : Bool} (ran : s.link (.connect readable) = some s') : s.manager = .down ∧
    ((s.app.journal = none ∨ readable = false ∨ s.app.journal = some []) ∧ s' = { s with
        app := s.app.resetBook
        linked := true
        processed := []
        applied := []
        manager := .restored } ∨
      ∃ records, s.app.journal = some records ∧ s' = { s with
        app := s.app.resetBook.beginRestore
        linked := true
        processed := []
        applied := []
        manager := .replaying records }) := by
  rw [link] at ran
  split at ran
  · rename_i down
    refine ⟨down,?_⟩
    dsimp only at ran
    split at ran
    · rename_i missing
      exact .inl ⟨.inl missing,(Option.some.inj ran).symm⟩
    · rename_i records journal
      split_ifs at ran with skipped
      · refine .inl ⟨?_,(Option.some.inj ran).symm⟩
        rcases skipped with unreadable | rfl
        · exact .inr (.inl unreadable)
        · exact .inr (.inr journal)
      · exact .inr ⟨records,journal,(Option.some.inj ran).symm⟩
  · cases ran

theorem connectFails_cases (ran : s.link .connectFails = some s') :
    s.manager = .down ∧ s' = { s with app := s.app.setConnected false } := by
  rw [link] at ran
  split at ran
  · exact ⟨‹_›,(Option.some.inj ran).symm⟩
  · cases ran

theorem replayNext_cases (ran : s.link .replayNext = some s') : ∃ record rest app, s.manager = .replaying (record :: rest) ∧
    ((s.app.prepareReplay s.requests.length record = (app,none) ∧ s' = { s with app := app, manager := .replaying rest }) ∨
      ∃ command, s.app.prepareReplay s.requests.length record = (app,some command) ∧
        s' = { s with
          app := app
          requests := s.requests ++ [Request.mk command .replay none]
          manager := .awaiting s.requests.length rest }.write ⟨command,s.requests.length⟩) := by
  rw [link] at ran
  split at ran
  · rename_i record rest replaying
    dsimp only at ran
    split at ran
    · rename_i app prepared
      exact ⟨record,rest,app,replaying,.inl ⟨prepared,(Option.some.inj ran).symm⟩⟩
    · rename_i app command prepared
      exact ⟨record,rest,app,replaying,.inr ⟨command,prepared,(Option.some.inj ran).symm⟩⟩
  · cases ran

theorem replayNextFails_cases (ran : s.link .replayNextFails = some s') : ∃ record rest app command,
    s.manager = .replaying (record :: rest) ∧ s.linked = false ∧
      s.app.prepareReplay s.requests.length record = (app,some command) ∧
      s' = { s with app := app.dropInflight command.orderId, manager := .failing } := by
  rw [link] at ran
  split at ran
  · rename_i record rest replaying unlinked
    split at ran
    · cases ran
    · rename_i app command prepared
      exact ⟨record,rest,app,command,replaying,unlinked,prepared,(Option.some.inj ran).symm⟩
  · cases ran

theorem replayAwaited_cases (ran : s.link .replayAwaited = some s') : ∃ ticket rest,
    s.manager = .awaiting ticket rest ∧ s' = { s with manager := .replaying rest } := by
  rw [link] at ran
  split at ran
  · rename_i ticket rest awaiting
    exact ⟨ticket,rest,awaiting,(Option.some.inj ran).symm⟩
  · cases ran

theorem endRestore_cases (ran : s.link .endRestore = some s') :
    (s.manager = .replaying [] ∧ s' = { s with app := s.app.endRestore, manager := .restored }) ∨
      (s.manager = .failing ∧ s' = { s with app := s.app.endRestore, manager := .broken }) := by
  rw [link] at ran
  split at ran
  · exact .inl ⟨‹_›,(Option.some.inj ran).symm⟩
  · exact .inr ⟨‹_›,(Option.some.inj ran).symm⟩
  · cases ran

theorem abandon_cases (ran : s.link .abandon = some s') : s.manager = .broken ∧
    s' = { s with app := s.app.failAllInflight, toGateway := [], manager := .down } := by
  rw [link] at ran
  split at ran
  · exact ⟨‹_›,(Option.some.inj ran).symm⟩
  · cases ran

theorem serve_cases (ran : s.link .serve = some s') : s.manager = .restored ∧
    s' = { s with app := s.app.setConnected true, manager := .live } := by
  rw [link] at ran
  split at ran
  · exact ⟨‹_›,(Option.some.inj ran).symm⟩
  · cases ran

theorem forwardFails_cases (ran : s.link .forwardFails = some s') : ∃ frame rest, s.manager = .live ∧
    s.channel = frame :: rest ∧ s.linked = false ∧ s' = { s with channel := rest, manager := .closing } := by
  rw [link] at ran
  split at ran
  · rename_i frame rest live queued unlinked
    exact ⟨frame,rest,live,queued,unlinked,(Option.some.inj ran).symm⟩
  · cases ran

theorem readerEnds_cases (ran : s.link .readerEnds = some s') : s.manager = .live ∧ s.toGateway = [] ∧
    s.linked = false ∧ s' = { s with manager := .closing } := by
  rw [link] at ran
  split at ran
  · rename_i live empty unlinked
    exact ⟨live,empty,unlinked,(Option.some.inj ran).symm⟩
  · cases ran

theorem disconnect_cases (ran : s.link .disconnect = some s') : s.manager = .closing ∧
    s' = { s with app := s.app.setConnected false, manager := .closed } := by
  rw [link] at ran
  split at ran
  · exact ⟨‹_›,(Option.some.inj ran).symm⟩
  · cases ran

theorem failAll_cases (ran : s.link .failAll = some s') : s.manager = .closed ∧
    s' = { s with app := s.app.failAllInflight, toGateway := [], manager := .down } := by
  rw [link] at ran
  split at ran
  · exact ⟨‹_›,(Option.some.inj ran).symm⟩
  · cases ran

theorem cut_cases {frames events : Nat} (ran : s.link (.cut frames events) = some s') : s.linked = true ∧ s' = { s with
    linked := false
    strays := s.strays ++ s.toEngine.take frames
    toEngine := []
    toGateway := s.toGateway.take events } := by
  rw [link] at ran
  split_ifs at ran with linked
  exact ⟨linked,(Option.some.inj ran).symm⟩

theorem processStray_cases (ran : s.link .processStray = some s') : ∃ frame rest events engine, s.strays = frame :: rest ∧
    Processing.answer s.engine frame.command.message = some (events,engine) ∧
      s' = { s with engine := engine, strays := rest } := by
  rw [link] at ran
  split at ran
  · cases ran
  · rename_i frame rest stray
    cases answered : Processing.answer s.engine frame.command.message with
    | none => simp [answered] at ran
    | some result =>
      rw [answered] at ran
      exact ⟨frame,rest,result.1,result.2,stray,answered,(Option.some.inj ran).symm⟩

theorem restartEngine_cases (ran : s.link .restartEngine = some s') : s.linked = false ∧
    s' = { s with engine := .new, strays := [] } := by
  rw [link] at ran
  split_ifs at ran with linked
  exact ⟨Bool.not_eq_true _ ▸ linked,(Option.some.inj ran).symm⟩
end

end System
end HyperMatch
