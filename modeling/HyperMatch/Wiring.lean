import HyperMatch.Answers
import HyperMatch.WirePath

/-!
The two programs joined by bytes. The handlers send encoded frames, the connection
carries them in whatever pieces, the pipeline of the engine's server frames, decodes,
answers and encodes, and `read_loop` takes the events out of its stream one by one. As
long as what a read completes fits the rings, this is the system of whole frames: every
run is one of its runs, and neither side meets a frame that it refuses.
-/
namespace HyperMatch.Wiring
open HyperMatch.Wire HyperMatch.Matching HyperMatch.OrderBook HyperMatch.MatchingEngine HyperMatch.Runs HyperMatch.Processing
open HyperMatch.FrameBuffer HyperMatch.DataPath HyperMatch.Terminators HyperMatch.WirePath HyperMatch.Answers
open HyperMatch.WireFormat (bytesOf typeLength)

/-! ### The system of bytes -/

/-- The frame that a handler encodes, in a vector of the length of its message. -/
def frameOf (command : Command) : Option (List UInt8) :=
  match RustCodec.encode command.message (List.replicate (RustCodec.encodedLen command.message) 0) with
  | (.ok _,frame) => some frame
  | (.error _,_) => none

/-- The handlers, the channel of frames, the bytes that the server has not read, the
    server, the bytes that it has sent, and those of them that have arrived. -/
structure Wired (capacities : Capacities) where
  app : AppState
  requests : List Request
  channel : List (List UInt8)
  toServer : List UInt8
  pipeline : ServerPipeline capacities
  toClient : List UInt8
  toReader : List UInt8
  closed : Bool

/-- The steps of the handlers and of the manager as before; a read of the server, of at
    most so many bytes, the arrival of bytes, and a round of the reader. -/
inductive Motion where
  | postOrder (body : JsonBody)
  | postCancel (orderId : UInt64)
  | check (n : Nat)
  | register (n : Nat)
  | send (n : Nat)
  | receive (n : Nat)
  | giveUp (n : Nat)
  | drop (n : Nat)
  | forward
  | deliver (count : Nat)
  | arrive (count : Nat)
  | handle (now : UInt64)
  deriving Repr, DecidableEq

/-- What a motion is over whole frames. The engine makes its step as often as a read
    completes a frame. -/
def Motion.event : Motion → Option Traffic
  | .postOrder body => some (.postOrder body)
  | .postCancel orderId => some (.postCancel orderId)
  | .check n => some (.check n)
  | .register n => some (.register n)
  | .send n => some (.send n)
  | .receive n => some (.receive n)
  | .giveUp n => some (.giveUp n)
  | .drop n => some (.drop n)
  | .forward => some .forward
  | .deliver _ => some .process
  | .arrive _ => none
  | .handle now => some (.handle now)

namespace Wired
variable {capacities : Capacities}

/-- The system of whole frames, with nothing under way. -/
def frames (w : Wired capacities) : System capacities.orders capacities.levels :=
  ⟨w.app,w.requests,[],[],[],w.pipeline.processor.engine,.live,true,[],[],[]⟩

def move (w : Wired capacities) (n : Nat) (phase : Phase) : Wired capacities :=
  { w with requests := (w.frames.move n phase).requests }

def post (w : Wired capacities) (sent : Option (Nat × EngineReply)) : Wired capacities :=
  { w with requests := (w.frames.deliver sent).requests }

/-- A step of a handler that reaches neither the codec nor the channel, as in the system
    of whole frames. -/
def handler (w : Wired capacities) (event : Traffic) : Option (Wired capacities) :=
  (w.frames.traffic event).map (fun s => { w with app := s.app, requests := s.requests })

def act (fd : SocketHandle) (w : Wired capacities) : Motion → Option (Wired capacities)
  | .postOrder body => w.handler (.postOrder body)
  | .postCancel orderId => w.handler (.postCancel orderId)
  | .check n => w.handler (.check n)
  | .register n =>
    match w.requests[n]? with
    | some ⟨command,.checked,_⟩ =>
      match w.app.register n command with
      | none => some (w.move n .unavailable)
      | some app =>
        match frameOf command with
        | none =>
          let w := { w with app := app.dropInflight command.orderId }
          some (w.move n .unavailable)
        | some _ =>
          let w := { w with app := app.recordSubmission }
          some (w.move n .registered)
    | _ => none
  | .send n =>
    match w.requests[n]? with
    | some ⟨command,.registered,_⟩ => do
      let frame ← frameOf command
      if w.channel.length < AppState.commandChannelCapacity then
        let w := { w with channel := w.channel ++ [frame] }
        some (w.move n .waiting)
      else none
    | _ => none
  | .receive n => w.handler (.receive n)
  | .giveUp n => w.handler (.giveUp n)
  | .drop n => w.handler (.drop n)
  | .forward =>
    match w.channel with
    | [] => none
    | frame :: rest => some { w with channel := rest, toServer := w.toServer ++ frame }
  | .deliver count => do
    let (status,outs,pipeline) ← w.pipeline.submitClientBytes fd (w.toServer.take count)
    return { w with
      pipeline := pipeline
      toServer := w.toServer.drop count
      toClient := w.toClient ++ outs.flatMap Prod.snd
      closed := decide (status = .Closed) }
  | .arrive count => some { w with toClient := w.toClient.drop count, toReader := w.toReader ++ w.toClient.take count }
  | .handle now =>
    match readRound w.toReader with
    | .message msg rest =>
      let (app,sent) := w.app.handleEngineEvent now msg
      let w := { w with app := app, toReader := rest }
      some (w.post sent)
    | .ends (.exhausted _) => none
    | .ends _ => some { w with closed := true }

/-- Nothing happens on a connection that either side has closed. -/
def step (fd : SocketHandle) (w : Wired capacities) (motion : Motion) : Option (Wired capacities) :=
  if w.closed then none else w.act fd motion

theorem move_requests (w : Wired capacities) (n : Nat) (phase : Phase) :
    (w.move n phase).requests = w.requests.modify n (fun request => { request with phase := phase }) := rfl
theorem post_requests (w : Wired capacities) (sent : Nat × EngineReply) :
    (w.post (some sent)).requests = w.requests.modify sent.1 (Request.deliver sent.2) := rfl

/-- What a read completes fits the command ring, and its events the event ring. -/
def Roomy (fd : SocketHandle) (w : Wired capacities) : Motion → Prop
  | .deliver count =>
    let msgs := completed (unfinishedOf w.pipeline.registry fd) (w.toServer.take count)
    msgs.length ≤ capacities.ingress.size ∧
      workload capacities.orders capacities.levels (view w.pipeline.processor.engine) msgs ≤ capacities.egress.size
  | _ => True

/-- A connection that has just been accepted, with nothing under way. -/
structure Connected (fd : SocketHandle) (w : Wired capacities) : Prop where
  serving : Serving w.pipeline
  accepted : unfinishedOf w.pipeline.registry fd = some []
  requests : w.requests = []
  channel : w.channel = []
  toServer : w.toServer = []
  toClient : w.toClient = []
  toReader : w.toReader = []
  isOpen : w.closed = false

end Wired

/-! ### What is written and read -/

theorem frameOf_eq (command : Command) :
    frameOf command = if InRange command.message then some (bytesOf command.message) else none := by
  rw [frameOf,Codecs.rustEncode_eq]
  by_cases ranged : InRange command.message
  · have room : ¬ (List.replicate (RustCodec.encodedLen command.message) (0 : UInt8)).length < typeLength (messageType command.message) := by
      rw [List.length_replicate,Codecs.encodedLen_eq]
      exact Nat.lt_irrefl _
    rw [if_pos ranged,if_pos ranged,if_neg room,Codecs.encodedLen_eq,List.drop_replicate]
    simp
  · rw [if_neg ranged,if_neg ranged]

theorem erase_insert {inflight : Finmap (fun _ : UInt64 => InFlight)} {id : UInt64} (free : inflight.lookup id = none)
    (entry : InFlight) : (inflight.insert id entry).erase id = inflight := by
  refine Finmap.ext_lookup ?_
  intro a
  by_cases same : a = id
  · rw [same,Finmap.lookup_erase,free]
  · rw [Finmap.lookup_erase_ne same,Finmap.lookup_insert_of_ne _ same]

/-- A frame that is refused leaves nothing behind. -/
theorem dropInflight_register {app app' : AppState} {responder : Nat} {command : Command}
    (registered : app.register responder command = some app') : app'.dropInflight command.orderId = app := by
  cases command with
  | newOrder m =>
    obtain ⟨free,rfl⟩ := AppState.registerInflight_some registered
    simp only [AppState.dropInflight,Matching.Command.orderId,erase_insert free]
  | cancelOrder c =>
    obtain ⟨free,rfl⟩ := AppState.registerInflight_some registered
    simp only [AppState.dropInflight,Matching.Command.orderId,erase_insert free]

/-- A frame that has arrived is taken, whatever comes behind it. -/
theorem readRound_whole {msg : BinaryMessage} (ranged : InRange msg) (rest : List UInt8) :
    readRound (bytesOf msg ++ rest) = .message msg rest := by
  have known : frameLength ((bytesOf msg).headD 0) = some (bytesOf msg).length := frameLength_bytesOf msg
  have split : bytesOf msg ++ rest = (bytesOf msg).headD 0 :: ((bytesOf msg).tail ++ rest) := by
    rw [WireFormat.bytesOf_eq]
    rfl
  have enough : ¬ (bytesOf msg ++ rest).length < (bytesOf msg).length := by simp
  rw [split,readRound_cons,known,← split]
  simp only [if_neg enough,List.take_left,List.drop_left,(decode_ok_iff _ _).mp (decode_bytesOf ranged)]

/-- The reader waits in the middle of a frame, or takes it. -/
theorem readRound_front {msg : BinaryMessage} (ranged : InRange msg) {later : List BinaryMessage} {stream ahead : List UInt8}
    (carried : stream ++ ahead = (msg :: later).flatMap bytesOf) :
    (∃ begun, readRound stream = .ends (.exhausted begun)) ∨
      ∃ rest, readRound stream = .message msg rest ∧ rest ++ ahead = later.flatMap bytesOf := by
  cases stream with
  | nil => exact .inl ⟨[],rfl⟩
  | cons first rest =>
    have known : frameLength first = some (bytesOf msg).length := by
      rw [← frameLength_bytesOf]
      rw [List.flatMap_cons,WireFormat.bytesOf_eq] at carried
      rw [WireFormat.bytesOf_eq,List.headD_cons,(List.cons.inj carried).1]
    by_cases short : (first :: rest).length < (bytesOf msg).length
    · rw [readRound_cons,known]
      exact .inl ⟨first :: rest,by simp only [if_pos short]⟩
    · rw [List.flatMap_cons] at carried
      have begun : bytesOf msg <+: first :: rest ++ ahead := by
        rw [carried]
        exact List.prefix_append _ _
      obtain ⟨more,begins⟩ := List.prefix_of_prefix_length_le begun (List.prefix_append _ _) (Nat.le_of_not_lt short)
      rw [← begins,List.append_assoc,List.append_cancel_left_eq] at carried
      rw [← begins]
      exact .inr ⟨more,readRound_whole ranged more,carried⟩

/-- A message that is taken makes the stream shorter. -/
theorem readRound_shorter {stream rest : List UInt8} {msg : BinaryMessage} (taken : readRound stream = .message msg rest) :
    rest.length < stream.length := by
  cases stream with
  | nil => cases taken
  | cons first more =>
    rw [readRound_cons] at taken
    cases known : frameLength first with
    | none => simp [known] at taken
    | some needed =>
      have wide := (frameLength_bounds known).1
      rw [known] at taken
      dsimp only at taken
      split at taken
      · cases taken
      · split at taken
        · cases taken
          rw [List.length_drop]
          simp only [List.length_cons] at *
          omega
        · cases taken

/-! ### The frames that the bytes carry -/

section
variable {capacities : Capacities} {fd : SocketHandle}

/-- The bytes of a connection carry the frames of a system, in either direction. -/
structure Carries (fd : SocketHandle) (w : Wired capacities) (s : System capacities.orders capacities.levels) : Prop where
  app : s.app = w.app
  requests : s.requests = w.requests
  engine : s.engine = w.pipeline.processor.engine
  live : s.manager = .live
  linked : s.linked = true
  channel : w.channel = s.channel.map (fun frame => bytesOf frame.command.message)
  upstream : ∃ unfinished, unfinishedOf w.pipeline.registry fd = some unfinished ∧
    readBytes unfinished w.toServer = (s.toEngine.map (fun frame => frame.command.message),some [])
  downstream : w.toReader ++ w.toClient = (s.toGateway.map Prod.snd).flatMap bytesOf
  ranged : Answers.Ranged s.requests
  queued : ∀ frame ∈ s.channel, InRange frame.command.message
  emitted : ∀ p ∈ s.toGateway, InRange p.2
  serving : Serving w.pipeline
  isOpen : w.closed = false

variable {w w' : Wired capacities} {s : System capacities.orders capacities.levels}
  {allowed : System capacities.orders capacities.levels → Traffic → Prop}

theorem Wired.Connected.carries (connected : w.Connected fd) : Carries fd w w.frames where
  app := rfl
  requests := rfl
  engine := rfl
  live := rfl
  linked := rfl
  channel := by rw [connected.channel]; rfl
  upstream := ⟨[],connected.accepted,by rw [connected.toServer]; rfl⟩
  downstream := by rw [connected.toReader,connected.toClient]; rfl
  ranged := by
    intro n r found
    have here : w.requests[n]? = some r := found
    rw [connected.requests] at here
    cases here
  queued := by simp [Wired.frames]
  emitted := by simp [Wired.frames]
  serving := connected.serving
  isOpen := connected.isOpen

/-- The steps that change nothing but the requests and what the handlers share, and look
    at nothing else. -/
def Handles : Traffic → Prop
  | .postOrder _ => True
  | .postCancel _ => True
  | .check _ => True
  | .receive _ => True
  | .giveUp _ => True
  | .drop _ => True
  | _ => False

theorem traffic_handler {t : System capacities.orders capacities.levels} {event : Traffic} (handles : Handles event)
    (app : s.app = t.app) (requests : s.requests = t.requests) :
    s.traffic event = (t.traffic event).map (fun t' => { s with app := t'.app, requests := t'.requests }) := by
  cases event with
  | postOrder body =>
    simp only [System.traffic,app,requests]
    cases t.app.gateway.acceptNewOrder body with
    | none => rfl
    | some result =>
      obtain ⟨accepted,gateway⟩ := result
      cases accepted <;> simp [← requests]
  | postCancel orderId => simp [System.traffic,← app,requests]
  | check n =>
    simp only [System.traffic,app,requests]
    split
    · simp [System.move,← app,requests]
    · rfl
  | receive n =>
    simp only [System.traffic,requests]
    split
    · simp [System.move,← app,requests]
    · rfl
  | giveUp n =>
    simp only [System.traffic,requests]
    split
    · simp [System.move,← app,requests]
    · rfl
  | drop n =>
    simp only [System.traffic,requests]
    split
    · simp [System.move,app]
    · rfl
  | _ => exact handles.elim

/-- A step of a handler changes both systems alike. -/
theorem Carries.beside (carries : Carries fd w s) {event : Traffic} (may : allowed s event) {app : AppState} {requests : List Request}
    (ran : s.traffic event = some { s with app := app, requests := requests }) :
    ∃ s', Leads System.traffic allowed s s' ∧ Carries fd { w with app := app, requests := requests } s' :=
  ⟨_,.step .start may ran,
    { carries with app := rfl, requests := rfl, ranged := carries.ranged.step ran }⟩

theorem Carries.handler (carries : Carries fd w s) {event : Traffic} (handles : Handles event) (may : allowed s event)
    (ran : w.handler event = some w') : ∃ s', Leads System.traffic allowed s s' ∧ Carries fd w' s' := by
  obtain ⟨t,taken,rfl⟩ := Option.map_eq_some_iff.mp ran
  have same := traffic_handler (s := s) (t := w.frames) handles carries.app carries.requests
  rw [taken,Option.map_some] at same
  exact carries.beside may same

theorem Carries.moved (carries : Carries fd w s) {event : Traffic} (may : allowed s event) {n : Nat} {phase : Phase}
    (ran : s.traffic event = some (s.move n phase)) :
    ∃ s', Leads System.traffic allowed s s' ∧ Carries fd (w.move n phase) s' := by
  have moved : s.move n phase = { s with app := w.app, requests := (w.move n phase).requests } := by
    rw [System.move,Wired.move_requests,carries.requests,← carries.app]
  exact carries.beside may (ran.trans (congrArg some moved))

theorem Carries.register (carries : Carries fd w s) {n : Nat} (may : allowed s (.register n)) (ran : w.act fd (.register n) = some w') :
    ∃ s', Leads System.traffic allowed s s' ∧ Carries fd w' s' := by
  rw [Wired.act] at ran
  split at ran
  · rename_i command mailbox found
    rw [← carries.requests] at found
    cases registering : w.app.register n command with
    | none =>
      rw [registering] at ran
      cases ran
      refine carries.moved may ?_
      simp only [System.traffic,found,AppState.prepare,carries.app,registering]
    | some app =>
      rw [registering] at ran
      by_cases ranged : InRange command.message
      · simp only [frameOf_eq,if_pos ranged] at ran
        cases ran
        refine carries.beside may ?_
        simp only [System.traffic,found,AppState.prepare,carries.app,registering,if_pos ranged]
        rw [System.move,carries.requests]
        rfl
      · simp only [frameOf_eq,if_neg ranged,dropInflight_register registering] at ran
        cases ran
        refine carries.moved may ?_
        simp only [System.traffic,found,AppState.prepare,carries.app,registering,if_neg ranged]
  · cases ran

theorem Carries.send (carries : Carries fd w s) {n : Nat} (may : allowed s (.send n)) (ran : w.act fd (.send n) = some w') :
    ∃ s', Leads System.traffic allowed s s' ∧ Carries fd w' s' := by
  rw [Wired.act] at ran
  split at ran
  · rename_i command mailbox found
    rw [← carries.requests] at found
    have ranged := carries.ranged n _ found trivial
    simp only [frameOf_eq,if_pos ranged,Option.bind_eq_bind,Option.bind_some] at ran
    split_ifs at ran with room
    cases ran
    have sends : s.traffic (.send n) = some ({ s with channel := s.channel ++ [Frame.mk command n] }.move n .waiting) := by
      rw [carries.channel,List.length_map] at room
      simp only [System.traffic,found,if_pos room]
    refine ⟨_,.step .start may sends,
      { carries with
        requests := by rw [System.move,Wired.move_requests,carries.requests]
        channel := by simp [System.move,Wired.move,carries.channel]
        ranged := carries.ranged.step sends
        queued := ?_ }⟩
    intro frame inside
    rcases List.mem_append.mp inside with old | new
    · exact carries.queued frame old
    · rw [List.mem_singleton.mp new]
      exact ranged
  · cases ran

theorem Carries.forward (carries : Carries fd w s) (may : allowed s .forward) (ran : w.act fd .forward = some w') :
    ∃ s', Leads System.traffic allowed s s' ∧ Carries fd w' s' := by
  rw [Wired.act] at ran
  have same := carries.channel
  cases queued : s.channel with
  | nil =>
    rw [queued,List.map_nil] at same
    rw [same] at ran
    cases ran
  | cons frame rest =>
    rw [queued,List.map_cons] at same
    rw [same] at ran
    cases ran
    have forwards : s.traffic .forward = some { s with channel := rest, toEngine := s.toEngine ++ [frame] } := by
      simp only [System.traffic,carries.live,queued,System.write,carries.linked,if_true]
    obtain ⟨unfinished,begun,reads⟩ := carries.upstream
    have whole := readBytes_messages [frame.command.message] (by
      intro msg inside
      rw [List.mem_singleton.mp inside]
      exact carries.queued frame (queued ▸ List.mem_cons_self))
    rw [List.flatMap_singleton] at whole
    refine ⟨_,.step .start may forwards,
      { carries with
        channel := rfl
        upstream := ⟨unfinished,begun,?_⟩
        queued := fun f inside => carries.queued f (queued ▸ List.mem_cons_of_mem _ inside) }⟩
    rw [readBytes_append,reads]
    simp only [whole,List.map_append,List.map_cons,List.map_nil]

/-- The engine of whole frames answers one by one what a read completes. -/
theorem processes (may : ∀ s, allowed s .process) {msgs later : List BinaryMessage} {answers : List (List BinaryMessage)}
    {engine : MatchingEngine capacities.orders capacities.levels}
    (waiting : s.toEngine.map (fun frame => frame.command.message) = msgs ++ later)
    (answered : answerAll s.engine msgs = some (answers,engine)) :
    ∃ toEngine toGateway processed,
      Leads System.traffic allowed s
        { s with engine := engine, toEngine := toEngine, toGateway := toGateway, processed := processed } ∧
      toEngine.map (fun frame => frame.command.message) = later ∧
      toGateway.map Prod.snd = s.toGateway.map Prod.snd ++ answers.flatten := by
  induction msgs generalizing s answers with
  | nil =>
    cases answered
    exact ⟨s.toEngine,s.toGateway,s.processed,.start,waiting,by simp⟩
  | cons msg rest ih =>
    cases written : s.toEngine with
    | nil =>
      rw [written] at waiting
      cases waiting
    | cons frame frames =>
      rw [written,List.map_cons,List.cons_append] at waiting
      obtain ⟨rfl,behind⟩ := List.cons.inj waiting
      rw [answerAll] at answered
      cases answering : answer s.engine frame.command.message with
      | none => simp [answering] at answered
      | some result =>
        obtain ⟨events,engine₁⟩ := result
        simp only [answering,Option.bind_eq_bind,Option.bind_some] at answered
        cases rests : answerAll engine₁ rest with
        | none => simp [rests] at answered
        | some result =>
          obtain ⟨answers',engine'⟩ := result
          simp only [rests,Option.bind_some,Option.pure_def] at answered
          cases answered
          have runs : s.traffic .process = some { s with
              engine := engine₁
              toEngine := frames
              toGateway := s.toGateway ++ events.map (frame,·)
              processed := s.processed ++ [(frame,events)] } := by
            simp only [System.traffic,written,answering]
            rfl
          obtain ⟨toEngine,toGateway,processed,leads,left,emitted⟩ := ih (s := { s with
              engine := engine₁
              toEngine := frames
              toGateway := s.toGateway ++ events.map (frame,·)
              processed := s.processed ++ [(frame,events)] }) behind rests
          refine ⟨toEngine,toGateway,processed,(Leads.step .start (may s) runs).trans leads,left,?_⟩
          rw [emitted]
          simp

/-- A read of an open connection that completes frames only leaves it open. -/
theorem submitClientBytes_open {pipeline pipeline' : ServerPipeline capacities} (serving : Serving pipeline)
    {unfinished left bytes : List UInt8} (begun : unfinishedOf pipeline.registry fd = some unfinished)
    (reads : (readBytes unfinished bytes).2 = some left) {status : FrameStatus} {outs : List (SocketHandle × List UInt8)}
    (submitted : pipeline.submitClientBytes fd bytes = some (status,outs,pipeline')) : status = .Ok := by
  obtain ⟨registry,read,_,_⟩ := onReadable_spec serving.framed begun bytes
  rw [ServerPipeline.submitClientBytes,serving.ready] at submitted
  simp only [Bool.not_true,Bool.false_eq_true,if_false,read,Option.bind_eq_bind,Option.bind_some,reads,Option.isSome_some,
    if_true,Option.bind_eq_some_iff] at submitted
  obtain ⟨_,_,_,_,same⟩ := submitted
  cases same
  rfl

theorem Carries.deliver (carries : Carries fd w s) (may : ∀ s, allowed s .process) {count : Nat} (roomy : w.Roomy fd (.deliver count))
    (ran : w.act fd (.deliver count) = some w') : ∃ s', Leads System.traffic allowed s s' ∧ Carries fd w' s' := by
  obtain ⟨unfinished,begun,reads⟩ := carries.upstream
  obtain ⟨fits,few⟩ := roomy
  rw [begun] at fits few
  -- the read takes a part of what the bytes will complete
  rw [← List.take_append_drop count w.toServer,readBytes_append] at reads
  cases left : (readBytes unfinished (w.toServer.take count)).2 with
  | none =>
    have closes := congrArg Prod.snd reads
    simp only [left] at closes
    cases closes
  | some last =>
    rw [left] at reads
    obtain ⟨waiting,rests⟩ := Prod.mk.inj reads
    obtain ⟨answers,status,pipeline,answered,submitted,serving,after,_⟩ :=
      submitClientBytes_spec carries.serving fd (w.toServer.take count)
    rw [begun] at answered after
    simp only [completed] at answered fits few
    rw [List.take_of_length_le fits,← carries.engine] at answered
    have orderly := carries.serving.running.orderly
    rw [← carries.engine] at orderly few
    have counted := (answerAll_counted orderly answered).1
    obtain ⟨_,_,again,_,_,ranged⟩ := answerAll_orderly orderly (readBytes unfinished (w.toServer.take count)).1
    rw [answered] at again
    cases again
    rw [List.take_of_length_le (counted.trans_le few)] at submitted
    obtain rfl := submitClientBytes_open carries.serving begun left submitted
    obtain ⟨toEngine,toGateway,processed,leads,untaken,emitted⟩ := processes may waiting.symm answered
    rw [Wired.act,submitted] at ran
    cases ran
    refine ⟨_,leads,
      { carries with
        engine := rfl
        upstream := ⟨last,?_,?_⟩
        downstream := ?_
        emitted := ?_
        serving := serving
        isOpen := rfl }⟩
    · rw [after,Function.update_self,Option.bind_some,left]
    · rw [untaken]
      exact Prod.ext rfl rests
    · rw [emitted,List.flatMap_append,← carries.downstream,List.append_assoc]
      congr 2
      rw [framesFor,List.flatMap_map]
    · intro p inside
      have known := List.mem_map_of_mem (f := Prod.snd) inside
      rw [emitted,List.mem_append] at known
      rcases known with old | new
      · obtain ⟨q,sent,same⟩ := List.mem_map.mp old
        rw [← same]
        exact carries.emitted q sent
      · exact ranged _ new

theorem Carries.post (carries : Carries fd w s) (sent : Option (Nat × EngineReply)) : Carries fd (w.post sent) (s.deliver sent) := by
  cases sent with
  | none => exact carries
  | some sent =>
    exact { carries with
      requests := by rw [System.deliver,Wired.post_requests,carries.requests]
      ranged := carries.ranged.deliver (some sent) }

theorem Carries.handle (carries : Carries fd w s) {now : UInt64} (may : allowed s (.handle now))
    (ran : w.act fd (.handle now) = some w') :
    ∃ s', Leads System.traffic allowed s s' ∧ Carries fd w' s' := by
  have carried := carries.downstream
  cases sent : s.toGateway with
  | nil =>
    rw [sent,List.map_nil,List.flatMap_nil] at carried
    rw [Wired.act,(List.append_eq_nil_iff.mp carried).1] at ran
    cases ran
  | cons p rest =>
    obtain ⟨frame,msg⟩ := p
    have ranged : InRange msg := carries.emitted (frame,msg) (sent ▸ List.mem_cons_self)
    rw [sent,List.map_cons] at carried
    rcases readRound_front ranged carried with ⟨begun,waits⟩ | ⟨left,takes,carried⟩
    · rw [Wired.act,waits] at ran
      cases ran
    · rw [Wired.act,takes] at ran
      have handles : s.traffic (.handle now) = some (System.deliver
          { s with
            app := (s.app.handleEngineEvent now msg).1
            toGateway := rest
            applied := s.applied ++ [(frame,msg)] } (s.app.handleEngineEvent now msg).2) := by
        simp only [System.traffic,sent]
      cases ran
      refine ⟨_,.step .start may handles,?_⟩
      rw [carries.app]
      refine Carries.post ?_ _
      exact { carries with
        app := rfl
        downstream := carried
        emitted := fun p inside => carries.emitted p (sent ▸ List.mem_cons_of_mem _ inside) }

/-- A step over bytes is some steps over whole frames, most often one. -/
theorem Carries.step (carries : Carries fd w s) {motion : Motion} (may : ∀ event ∈ motion.event, allowed s event)
    (engine : ∀ s, allowed s .process) (roomy : w.Roomy fd motion) (ran : w.step fd motion = some w') :
    ∃ s', Leads System.traffic allowed s s' ∧ Carries fd w' s' := by
  rw [Wired.step,carries.isOpen] at ran
  simp only [Bool.false_eq_true,if_false] at ran
  cases motion with
  | postOrder body => exact carries.handler (by trivial) (may _ rfl) ran
  | postCancel orderId => exact carries.handler (by trivial) (may _ rfl) ran
  | check n => exact carries.handler (by trivial) (may _ rfl) ran
  | register n => exact carries.register (may _ rfl) ran
  | send n => exact carries.send (may _ rfl) ran
  | receive n => exact carries.handler (by trivial) (may _ rfl) ran
  | giveUp n => exact carries.handler (by trivial) (may _ rfl) ran
  | drop n => exact carries.handler (by trivial) (may _ rfl) ran
  | forward => exact carries.forward (may _ rfl) ran
  | deliver count => exact carries.deliver engine roomy ran
  | arrive count =>
    cases ran
    refine ⟨s,.start,{ carries with downstream := ?_ }⟩
    rw [List.append_assoc,List.take_append_drop]
    exact carries.downstream
  | handle now => exact carries.handle (may _ rfl) ran

/-- On every run over bytes whose reads fit the rings, in whatever pieces the bytes
    arrive: the same handlers, with the same requests and the same engine, are a run over
    whole frames, the bytes under way are exactly its frames under way, and neither side
    has closed the connection. -/
theorem bytes_carry_frames {start : Wired capacities} (connected : start.Connected fd)
    (leads : Leads (Wired.step fd) (Wired.Roomy fd) start w) :
    ∃ s, Leads System.traffic (fun _ _ => True) start.frames s ∧ Carries fd w s := by
  induction leads with
  | start => exact ⟨start.frames,.start,connected.carries⟩
  | @step _ next _ _ roomy ran ih =>
    obtain ⟨s,before,carries⟩ := ih
    have stepped : ∃ s', Leads System.traffic (fun _ _ => True) s s' ∧ Carries fd next s' :=
      carries.step (fun _ _ => trivial) (fun _ => trivial) roomy ran
    obtain ⟨s',after,carries'⟩ := stepped
    exact ⟨s',before.trans after,carries'⟩

end

instance {capacities : Capacities} (fd : SocketHandle) (w : Wired capacities) : (motion : Motion) → Decidable (w.Roomy fd motion)
  | .deliver _ => inferInstanceAs (Decidable (_ ≤ _ ∧ _ ≤ _))
  | .postOrder _ | .postCancel _ | .check _ | .register _ | .send _ | .receive _ | .giveUp _ | .drop _ | .forward
  | .arrive _ | .handle _ => .isTrue trivial

def narrow : Capacities := ⟨.four,.four,⟨4,Nat.succ_pos 3⟩,⟨4,Nat.succ_pos 3⟩⟩

/-- Both programs on a connection that has just been opened, with small pools and rings. -/
def joined : Wired narrow :=
  ⟨{ AppState.new (some []) with connected := true },[],[],[],((ServerPipeline.new 1).accept 7).2,[],[],false⟩

theorem joined_connected : joined.Connected 7 where
  serving := ⟨running_new,rfl,Routing.accept_framed (@serving_new narrow 1).framed 7⟩
  accepted := rfl
  requests := rfl
  channel := rfl
  toServer := rfl
  toClient := rfl
  toReader := rfl
  isOpen := rfl

/-- An order and its answer, both in two pieces. -/
def cutUp : List Motion :=
  [.postOrder (Correlation.order "buy" 100 5 5),.check 0,.register 0,.send 0,.forward,.deliver 7,.deliver 40,.arrive 3,
    .arrive 40,.handle 0,.receive 0]

theorem bytes_carry_frames_cut_up :
    ∃ w, Leads (Wired.step 7) (Wired.Roomy 7) joined w ∧
      w.requests[0]? = some ⟨.newOrder ⟨5,.Buy,100,5,0⟩,.answered,some ⟨.ack ⟨5,.Accepted⟩,[]⟩⟩ ∧
      ∃ s, Leads System.traffic (fun _ _ => True) joined.frames s ∧ Carries 7 w s := by
  have ran : ((follow (Wired.step 7) (Wired.Roomy 7) joined cutUp).map (fun w => w.requests[0]?)) =
      some (some ⟨.newOrder ⟨5,.Buy,100,5,0⟩,.answered,some ⟨.ack ⟨5,.Accepted⟩,[]⟩⟩) := by
    decide +kernel
  obtain ⟨w,followed,found⟩ := Option.map_eq_some_iff.mp ran
  have leads := follow_leads followed
  exact ⟨w,leads,found,bytes_carry_frames joined_connected leads⟩

end HyperMatch.Wiring
