import HyperMatch.Histories

/-!
The replay of the journal on one connection. The manager sends one record at a time and
waits for its terminator; handlers may go on beside it, but none of their frames gets to
the engine. The frames of the replay carry the records of the journal under increasing
stamps, and the book is the fold of their events (`Replaying`).
-/
namespace HyperMatch.Reconnection
open HyperMatch.Wire HyperMatch.Matching HyperMatch.MatchingEngine HyperMatch.BookLayout HyperMatch.Streams
open HyperMatch.Correlation HyperMatch.Mirror HyperMatch.GatewayBook HyperMatch.Replays HyperMatch.Runs
open HyperMatch.OrderBook (PoolCapacity)
open HyperMatch.AppState (settledBook)

variable {maxOrders maxPriceLevels : PoolCapacity}

/-- The records that the manager has not yet sent. -/
def unsentRecords : Manager → List JournalRecord
  | .replaying rest => rest
  | .awaiting _ rest => rest
  | _ => []

/-- The counter of the stamps does not wrap with the next order. -/
def Ahead (s : System maxOrders maxPriceLevels) : Prop := s.app.gateway.nextSeq < s.app.gateway.nextSeq + 1

/-- The manager has the reply that it waits for. -/
def Received (requests : List Request) : Manager → Prop
  | .awaiting n _ => ∃ request ∈ requests[n]?, request.mailbox.isSome = true
  | _ => True

/-- The journal that was written before the connection was lost is read at each
    reconnect; on a connection that is up every record is sent again and its terminator
    is received. The connection may be lost again, and then all starts over. -/
def Resubmits (records : List JournalRecord) (s : System maxOrders maxPriceLevels) : Event → Prop
  | .link (.connect readable) => readable = true ∧ s.app.journal = some records
  | .link .replayNext => s.linked = true → ∀ record ∈ (unsentRecords s.manager).head?,
      (s.app.prepareReplay s.requests.length record).2.isSome = true
  | .link .replayAwaited => s.linked = true → Received s.requests s.manager
  | .link .serve => False
  | _ => True

/-- The engine has no orders at the reconnect and none on their way to it. -/
def Afresh (s : System maxOrders maxPriceLevels) : Event → Prop
  | .link (.connect _) => resting s.engine.book .Buy = [] ∧ resting s.engine.book .Sell = [] ∧ s.strays = []
  | .link .replayNext => Ahead s
  | .traffic (.postOrder _) => Ahead s
  | _ => True

def Reconnects (records : List JournalRecord) (s : System maxOrders maxPriceLevels) (event : Event) : Prop :=
  Resubmits records s event ∧ Afresh s event

section
variable (records : List JournalRecord) (s : System maxOrders maxPriceLevels)

instance : Decidable (Ahead s) := inferInstanceAs (Decidable (_ < _))

instance (requests : List Request) : DecidablePred (Received requests)
  | .awaiting n _ => inferInstanceAs (Decidable (∃ request ∈ requests[n]?, request.mailbox.isSome = true))
  | .down | .replaying _ | .failing | .broken | .restored | .live | .closing | .closed => .isTrue trivial

instance : DecidablePred (Resubmits records s)
  | .link (.connect readable) => inferInstanceAs (Decidable (readable = true ∧ s.app.journal = some records))
  | .link .replayNext => inferInstanceAs (Decidable (s.linked = true → ∀ record ∈ (unsentRecords s.manager).head?,
      (s.app.prepareReplay s.requests.length record).2.isSome = true))
  | .link .replayAwaited => inferInstanceAs (Decidable (s.linked = true → Received s.requests s.manager))
  | .link .serve => .isFalse id
  | .link .connectFails | .link .replayNextFails | .link .endRestore | .link .abandon | .link .forwardFails
  | .link .readerEnds | .link .disconnect | .link .failAll | .link (.cut _ _) | .link .processStray
  | .link .restartEngine | .traffic _ => .isTrue trivial

instance : DecidablePred (Afresh s)
  | .link (.connect _) => inferInstanceAs (Decidable (resting s.engine.book .Buy = [] ∧
      resting s.engine.book .Sell = [] ∧ s.strays = []))
  | .link .replayNext => inferInstanceAs (Decidable (Ahead s))
  | .traffic (.postOrder _) => inferInstanceAs (Decidable (Ahead s))
  | .link .connectFails | .link .replayNextFails | .link .replayAwaited | .link .endRestore | .link .abandon
  | .link .serve | .link .forwardFails | .link .readerEnds | .link .disconnect | .link .failAll | .link (.cut _ _)
  | .link .processStray | .link .restartEngine => .isTrue trivial
  | .traffic (.postCancel _) | .traffic (.check _) | .traffic (.register _) | .traffic (.send _)
  | .traffic (.receive _) | .traffic (.giveUp _) | .traffic (.drop _) | .traffic .forward | .traffic .process
  | .traffic (.handle _) => .isTrue trivial

instance : DecidablePred (Reconnects records s) := fun event =>
  inferInstanceAs (Decidable (Resubmits records s event ∧ Afresh s event))
end

/-! ### Handlers -/

/-- What a step of a handler leaves alone: all but its own request, entries and stamps. -/
structure Beside (s s' : System maxOrders maxPriceLevels) : Prop where
  engine : s'.engine = s.engine
  toEngine : s'.toEngine = s.toEngine
  toGateway : s'.toGateway = s.toGateway
  manager : s'.manager = s.manager
  linked : s'.linked = s.linked
  strays : s'.strays = s.strays
  processed : s'.processed = s.processed
  applied : s'.applied = s.applied
  book : s'.app.book = s.app.book
  requests : ∀ (n : Nat) (request : Request), s.requests[n]? = some request → request.phase = .replay →
    s'.requests[n]? = some request
  entries : ∀ id entry, s'.app.inflight.lookup id = some entry → s.app.inflight.lookup id = some entry ∨
    ∃ request, s.requests[entry.responder]? = some request ∧ request.phase ≠ .replay

section
variable {s s' : System maxOrders maxPriceLevels}

theorem append_kept {requests : List Request} {n : Nat} {request : Request} (found : requests[n]? = some request)
    (new : Request) : (requests ++ [new])[n]? = some request := by
  rw [List.getElem?_append_left (List.getElem?_eq_some_iff.mp found).1]
  exact found

/-- A handler that moves is not the replay. -/
theorem beside_move {n : Nat} {request : Request} (found : s.requests[n]? = some request) (own : request.phase ≠ .replay)
    (phase : Phase) : Beside s (s.move n phase) := by
  refine ⟨rfl,rfl,rfl,rfl,rfl,rfl,rfl,rfl,rfl,?_,fun _ _ same => .inl same⟩
  intro m other there replay
  have apart : m ≠ n := by
    rintro rfl
    cases found.symm.trans there
    exact own replay
  rw [move_other apart]
  exact there

/-- A step of the traffic is that of a handler, or something moves between the programs. -/
theorem traffic_beside {event : Traffic} (ran : s.traffic event = some s') :
    (Beside s s' ∧ (s'.app.gateway.nextSeq = s.app.gateway.nextSeq ∨
        (∃ body, event = .postOrder body) ∧ s'.app.gateway.nextSeq = s.app.gateway.nextSeq + 1)) ∨
      event = .forward ∨ event = .process ∨ ∃ now, event = .handle now := by
  cases event with
  | postOrder body =>
    left
    rcases System.postOrder_cases ran with rfl | ⟨m,gateway,_,_,_,next,rfl⟩
    · exact ⟨⟨rfl,rfl,rfl,rfl,rfl,rfl,rfl,rfl,rfl,fun _ _ found _ => found,fun _ _ same => .inl same⟩,.inl rfl⟩
    · exact ⟨⟨rfl,rfl,rfl,rfl,rfl,rfl,rfl,rfl,rfl,fun _ _ found _ => append_kept found _,fun _ _ same => .inl same⟩,
        .inr ⟨⟨body,rfl⟩,next⟩⟩
  | postCancel orderId =>
    left
    rw [System.postCancel_cases ran]
    exact ⟨⟨rfl,rfl,rfl,rfl,rfl,rfl,rfl,rfl,rfl,fun _ _ found _ => append_kept found _,fun _ _ same => .inl same⟩,.inl rfl⟩
  | check n =>
    left
    obtain ⟨command,mailbox,found,rfl⟩ := System.check_cases ran
    exact ⟨beside_move found (by simp) _,.inl rfl⟩
  | register n =>
    left
    obtain ⟨command,mailbox,found,rfl | ⟨app,prepared,rfl⟩⟩ := System.register_cases ran
    · exact ⟨beside_move found (by simp) _,.inl rfl⟩
    · obtain ⟨_,entry,_,_,responder,rfl⟩ := prepare_some prepared
      have moved := beside_move found (by simp) .registered
      refine ⟨⟨rfl,rfl,rfl,rfl,rfl,rfl,rfl,rfl,rfl,moved.requests,?_⟩,.inl rfl⟩
      intro id other looked
      have inserted : (s.app.inflight.insert command.orderId entry).lookup id = some other := looked
      rcases Projection.lookup_insert_some inserted with ⟨rfl,rfl⟩ | ⟨_,old⟩
      · rw [responder]
        exact .inr ⟨_,found,by simp⟩
      · exact .inl old
  | send n =>
    left
    obtain ⟨command,mailbox,found,rfl⟩ := System.send_cases ran
    have moved := beside_move found (by simp) .waiting
    exact ⟨⟨rfl,rfl,rfl,rfl,rfl,rfl,rfl,rfl,rfl,moved.requests,fun _ _ same => .inl same⟩,.inl rfl⟩
  | receive n =>
    left
    obtain ⟨command,reply,found,rfl⟩ := System.receive_cases ran
    exact ⟨beside_move found (by simp) _,.inl rfl⟩
  | giveUp n =>
    left
    obtain ⟨command,found,rfl⟩ := System.giveUp_cases ran
    exact ⟨beside_move found (by simp) _,.inl rfl⟩
  | drop n =>
    left
    obtain ⟨command,mailbox,found,rfl⟩ := System.drop_cases ran
    have moved := beside_move found (by simp) .unavailable
    refine ⟨⟨rfl,rfl,rfl,rfl,rfl,rfl,rfl,rfl,rfl,moved.requests,?_⟩,.inl rfl⟩
    intro id entry looked
    exact .inl (lookup_erase_some looked).2
  | forward => exact .inr (.inl rfl)
  | process => exact .inr (.inr (.inl rfl))
  | handle now => exact .inr (.inr (.inr ⟨now,rfl⟩))
end

/-! ### The replay -/

/-- The commands that were sent on this connection. -/
def sentCommands (s : System maxOrders maxPriceLevels) : List Command := commandsOf s.processed ++ s.toEngine.map Frame.command

/-- The book is the fold of the events that were handled. -/
def Folded (s : System maxOrders maxPriceLevels) : Prop := s.app.book = (projectAll ({},[]) s.applied).1

/-- All that was sent is answered, and all answers are handled. -/
structure AtRest (s : System maxOrders maxPriceLevels) : Prop where
  toEngine : s.toEngine = []
  toGateway : s.toGateway = []
  applied : s.applied = s.processed.flatMap emitted
  book : Folded s

/-- Where a frame of the replay is: on its way to the engine, or answered with some of
    its events handled. -/
inductive Located (s : System maxOrders maxPriceLevels) (frame : Frame) : Option EngineReply → Prop
  | written (toEngine : s.toEngine = [frame]) (toGateway : s.toGateway = [])
      (applied : s.applied = s.processed.flatMap emitted) : Located s frame none
  | answered {first : List (Frame × List BinaryMessage)} {before after : List BinaryMessage} {mailbox : Option EngineReply}
      (toEngine : s.toEngine = []) (processed : s.processed = first ++ [(frame,before ++ after)])
      (applied : s.applied = first.flatMap emitted ++ before.map (frame,·)) (toGateway : s.toGateway = after.map (frame,·))
      (replied : mailbox.isSome = true → after = []) : Located s frame mailbox

/-- The record that the manager waits for. Its entry, as long as it is there, has the
    trades of the record as fills; once another entry has been taken for it, the manager
    waits in vain. -/
structure Underway (s : System maxOrders maxPriceLevels) (n : Nat) (command : Command) (mailbox : Option EngineReply) :
    Prop where
  request : s.requests[n]? = some ⟨command,.replay,mailbox⟩
  located : Located s ⟨command,n⟩ mailbox
  entry : ∀ entry, s.app.inflight.lookup command.orderId = some entry → entry.responder = n →
    Registers entry command ∧ entry.fills = (projectAll ({},[]) s.applied).2.map fillOfTrade
  book : mailbox.isSome = true ∨ s.toEngine ≠ [] ∨ s.toGateway ≠ [] → Folded s

/-- Where the manager stands. -/
def Staged (s : System maxOrders maxPriceLevels) : Prop :=
  match s.manager with
  | .replaying _ => AtRest s
  | .restored => AtRest s
  | .awaiting n _ => ∃ command mailbox, Underway s n command mailbox
  | _ => False

/-- A replay on a connection that is up, from a market that the engine showed at the
    reconnect. -/
structure Replaying (market : Market) (records : List JournalRecord) (s : System maxOrders maxPriceLevels) : Prop where
  strays : s.strays = []
  spoken : Spoken maxOrders maxPriceLevels market s.processed
  shown : Shows s.engine (marketAfter maxOrders maxPriceLevels market s.processed)
  answered : ∀ p ∈ s.processed, Answered p.1.command p.2
  sent : (sentCommands s).map asRecord ++ unsentRecords s.manager = records
  increasing : ((sentCommands s).filterMap stamp).Pairwise (· < ·)
  below : ∀ q ∈ (sentCommands s).filterMap stamp, q < s.app.gateway.nextSeq
  staged : Staged s

section
variable {s s' : System maxOrders maxPriceLevels} {market : Market} {records : List JournalRecord}

theorem AtRest.beside (rest : AtRest s) (beside : Beside s s') : AtRest s' := by
  constructor
  · rw [beside.toEngine]
    exact rest.toEngine
  · rw [beside.toGateway]
    exact rest.toGateway
  · rw [beside.applied,beside.processed]
    exact rest.applied
  · rw [Folded,beside.book,beside.applied]
    exact rest.book

theorem Located.beside {frame : Frame} {mailbox : Option EngineReply} (located : Located s frame mailbox)
    (beside : Beside s s') : Located s' frame mailbox := by
  cases located with
  | written toEngine toGateway applied =>
    refine .written (beside.toEngine.trans toEngine) (beside.toGateway.trans toGateway) ?_
    rw [beside.applied,beside.processed]
    exact applied
  | answered toEngine processed applied toGateway replied =>
    exact .answered (beside.toEngine.trans toEngine) (beside.processed.trans processed) (beside.applied.trans applied)
      (beside.toGateway.trans toGateway) replied

theorem Underway.beside {n : Nat} {command : Command} {mailbox : Option EngineReply}
    (underway : Underway s n command mailbox) (beside : Beside s s') : Underway s' n command mailbox := by
  constructor
  · exact beside.requests n _ underway.request rfl
  · exact underway.located.beside beside
  · intro entry found own
    rw [beside.applied]
    rcases beside.entries _ entry found with old | ⟨request,other,phase⟩
    · exact underway.entry entry old own
    · rw [own,underway.request] at other
      cases other
      exact absurd rfl phase
  · rw [Folded,beside.toEngine,beside.toGateway,beside.book,beside.applied]
    exact underway.book

theorem Staged.beside (staged : Staged s) (beside : Beside s s') : Staged s' := by
  rw [Staged] at staged ⊢
  rw [beside.manager]
  split at staged
  · exact AtRest.beside staged beside
  · exact AtRest.beside staged beside
  · obtain ⟨command,mailbox,underway⟩ := staged
    exact ⟨command,mailbox,underway.beside beside⟩
  · exact staged

/-- Handlers do not disturb the replay. -/
theorem Replaying.beside (replaying : Replaying market records s) (beside : Beside s s')
    (later : s.app.gateway.nextSeq ≤ s'.app.gateway.nextSeq) : Replaying market records s' := by
  have sent : sentCommands s' = sentCommands s := by rw [sentCommands,sentCommands,beside.processed,beside.toEngine]
  constructor
  · rw [beside.strays]
    exact replaying.strays
  · rw [beside.processed]
    exact replaying.spoken
  · rw [beside.processed,beside.engine]
    exact replaying.shown
  · rw [beside.processed]
    exact replaying.answered
  · rw [sent,beside.manager]
    exact replaying.sent
  · rw [sent]
    exact replaying.increasing
  · intro q inside
    rw [sent] at inside
    exact UInt64.lt_of_lt_of_le (replaying.below q inside) later
  · exact replaying.staged.beside beside

/-- What lies before the engine is the frame that the manager waits for. -/
theorem Staged.written (staged : Staged s) {frame : Frame} {rest : List Frame} (written : s.toEngine = frame :: rest) :
    ∃ n later, s.manager = .awaiting n later ∧ rest = [] ∧ s.toGateway = [] ∧ frame.owner = n ∧
      s.applied = s.processed.flatMap emitted ∧ Underway s n frame.command none := by
  rw [Staged] at staged
  split at staged
  · rw [staged.toEngine] at written
    cases written
  · rw [staged.toEngine] at written
    cases written
  · rename_i n later manager
    obtain ⟨command,mailbox,underway⟩ := staged
    cases underway.located with
    | written toEngine toGateway applied =>
      rw [toEngine] at written
      cases written
      exact ⟨n,later,manager,rfl,toGateway,rfl,applied,underway⟩
    | answered toEngine _ _ _ _ =>
      rw [toEngine] at written
      cases written
  · cases staged

theorem Replaying.processing (replaying : Replaying market records s) (ran : s.traffic .process = some s') :
    Replaying market records s' := by
  obtain ⟨frame,rest,events,engine,written,answered,rfl⟩ := System.process_cases ran
  obtain ⟨engine',ran',shown⟩ := answer_shows replaying.shown frame.command
  obtain ⟨rfl,rfl⟩ := Prod.mk.inj (Option.some.inj (answered.symm.trans ran'))
  obtain ⟨n,later,manager,rfl,toGateway,owner,applied,underway⟩ := replaying.staged.written written
  have answers := answered_of_shows replaying.shown frame.command
  generalize told : eventsOf frame.command ((marketAfter maxOrders maxPriceLevels market s.processed).step maxOrders
    maxPriceLevels frame.command).1 = events at answers answered ran' ⊢
  have same : sentCommands { s with
      engine := engine
      toEngine := []
      toGateway := s.toGateway ++ events.map (frame,·)
      processed := s.processed ++ [(frame,events)] } = sentCommands s := by
    simp [sentCommands,commandsOf,written]
  constructor
  · exact replaying.strays
  · exact (spoken_append _ _ _).mpr ⟨replaying.spoken,told.symm,trivial⟩
  · rw [marketAfter_append]
    exact shown
  · intro p inside
    rcases List.mem_append.mp inside with old | new
    · exact replaying.answered p old
    · rw [List.mem_singleton.mp new]
      exact answers
  · rw [same]
    exact replaying.sent
  · rw [same]
    exact replaying.increasing
  · rw [same]
    exact replaying.below
  · rw [Staged]
    simp only [manager]
    refine ⟨frame.command,none,underway.request,?_,underway.entry,?_⟩
    · have frame_eq : frame = ⟨frame.command,n⟩ := by rw [← owner]
      rw [← frame_eq]
      have split : s.processed ++ [(frame,events)] = s.processed ++ [(frame,[] ++ events)] := rfl
      refine .answered rfl split ?_ ?_ (by simp)
      · rw [List.map_nil,List.append_nil]
        exact applied
      · rw [toGateway]
        rfl
    · intro _
      exact underway.book (.inr (.inl (by rw [written]; simp)))

/-- The next event is one of the frame that the manager waits for. -/
theorem Staged.next (staged : Staged s) (answered : ∀ p ∈ s.processed, Answered p.1.command p.2) {frame : Frame}
    {msg : BinaryMessage} {rest : List (Frame × BinaryMessage)} (next : s.toGateway = (frame,msg) :: rest) :
    ∃ n later mailbox first before after, s.manager = .awaiting n later ∧ frame.owner = n ∧ s.toEngine = [] ∧
      Underway s n frame.command mailbox ∧ mailbox = none ∧ s.processed = first ++ [(frame,before ++ msg :: after)] ∧
      s.applied = first.flatMap emitted ++ before.map (frame,·) ∧ rest = after.map (frame,·) ∧
      ((∃ t, msg = .trade t ∧ t.incomingId = frame.command.orderId ∧ after ≠ []) ∨
        (after = [] ∧ Terminator frame.command msg)) := by
  rw [Staged] at staged
  split at staged
  · rw [staged.toGateway] at next
    cases next
  · rw [staged.toGateway] at next
    cases next
  · rename_i n later manager
    obtain ⟨command,mailbox,underway⟩ := staged
    cases underway.located with
    | written _ toGateway _ =>
      rw [toGateway] at next
      cases next
    | answered toEngine processed applied toGateway replied =>
      rename_i first before events
      rw [toGateway] at next
      obtain ⟨other,after,rfl,same,remains⟩ := List.map_eq_cons_iff.mp next
      cases same
      have none : mailbox = none := by
        cases mailbox with
        | none => rfl
        | some reply => cases replied rfl
      have answers := answered (⟨command,n⟩,before ++ msg :: after) (by rw [processed]; simp)
      refine ⟨n,later,mailbox,first,before,after,manager,rfl,toEngine,underway,none,processed,applied,remains.symm,?_⟩
      rcases answers.split with trade | ⟨last,terminator,_⟩
      · exact .inl trade
      · exact .inr ⟨last,terminator⟩
  · cases staged

/-- A replay in which only the place of the frame changes. -/
theorem Replaying.restaged (replaying : Replaying market records s) (strays : s'.strays = s.strays)
    (engine : s'.engine = s.engine) (processed : s'.processed = s.processed) (toEngine : s'.toEngine = s.toEngine)
    (unsent : unsentRecords s'.manager = unsentRecords s.manager)
    (nextSeq : s'.app.gateway.nextSeq = s.app.gateway.nextSeq) (staged : Staged s') : Replaying market records s' := by
  have sent : sentCommands s' = sentCommands s := by rw [sentCommands,sentCommands,processed,toEngine]
  constructor
  · rw [strays]
    exact replaying.strays
  · rw [processed]
    exact replaying.spoken
  · rw [processed,engine]
    exact replaying.shown
  · rw [processed]
    exact replaying.answered
  · rw [sent,unsent]
    exact replaying.sent
  · rw [sent]
    exact replaying.increasing
  · rw [sent,nextSeq]
    exact replaying.below
  · exact staged

/-- The entry of the frame after one of its trades. -/
theorem Underway.trade {n : Nat} {command : Command} {mailbox : Option EngineReply}
    (underway : Underway s n command mailbox) {t : Trade} (own : t.incomingId = command.orderId) {frame : Frame}
    {entry : InFlight} (found : (s.app.accumulate t).inflight.lookup command.orderId = some entry)
    (responder : entry.responder = n) : Registers entry command ∧
      entry.fills = (projectAll ({},[]) (s.applied ++ [(frame,.trade t)])).2.map fillOfTrade := by
  rcases AppState.accumulate_lookup found with ⟨other,_⟩ | ⟨old,_,looked,rfl⟩
  · exact absurd own.symm other
  · obtain ⟨registers,fills⟩ := underway.entry old looked responder
    refine ⟨?_,?_⟩
    · cases command with
      | newOrder m => exact registers
      | cancelOrder c => exact registers
    · have pending : (projectAll ({},[]) (s.applied ++ [(frame,.trade t)])).2 = (projectAll ({},[]) s.applied).2 ++ [t] := by
        rw [projectAll_append]
        rfl
      rw [pending,List.map_append,← fills]
      rfl

theorem folded_trade (book : Folded s) {frame : Frame} {t : Trade} :
    s.app.book.applyTrade t.restingId t.quantity = (projectAll ({},[]) (s.applied ++ [(frame,.trade t)])).1 := by
  rw [book,projectAll_append]
  rfl

theorem Replaying.handling (replaying : Replaying market records s) {now : UInt64}
    (ran : s.traffic (.handle now) = some s') : Replaying market records s' := by
  obtain ⟨frame,msg,rest,next,rfl⟩ := System.handle_cases ran
  obtain ⟨n,later,mailbox,first,before,after,manager,owner,toEngine,underway,none,processed,applied,rfl,event⟩ :=
    replaying.staged.next replaying.answered next
  subst owner none
  have book : Folded s := underway.book (.inr (.inr (by rw [next]; simp)))
  have split : s.processed = first ++ [(frame,(before ++ [msg]) ++ after)] := by
    rw [processed]
    simp
  have more : s.applied ++ [(frame,msg)] = first.flatMap emitted ++ (before ++ [msg]).map (frame,·) := by
    rw [applied]
    simp
  rcases event with ⟨t,rfl,own,left⟩ | ⟨rfl,terminator⟩
  · obtain ⟨app,handled,gates,_,inflight,traded⟩ := AppState.handle_trade s.app now t
    rw [handled]
    refine replaying.restaged rfl rfl rfl rfl rfl (by exact congrArg Gateway.nextSeq gates.gateway) ?_
    rw [Staged]
    simp only [System.deliver,manager]
    refine ⟨frame.command,none,underway.request,.answered toEngine split more rfl (by simp),?_,?_⟩
    · intro entry found responder
      rw [inflight] at found
      exact underway.trade own found responder
    · intro _
      rw [Folded]
      exact traded.trans (folded_trade book)
  · cases looked : s.app.inflight.lookup frame.command.orderId with
    | none =>
      rw [AppState.handle_missing terminator.id looked]
      refine replaying.restaged rfl rfl rfl rfl rfl rfl ?_
      rw [Staged]
      simp only [System.deliver,manager]
      refine ⟨frame.command,none,underway.request,.answered toEngine split more rfl (by simp),?_,?_⟩
      · intro entry found
        cases looked.symm.trans found
      · rintro (⟨⟨⟩⟩ | away | away)
        · exact absurd toEngine away
        · exact absurd rfl away
    | some entry =>
      obtain ⟨app,handled,gates,inflight,settles,_⟩ := AppState.handle_found terminator.id looked now
      rw [handled]
      refine replaying.restaged rfl rfl rfl rfl rfl (by exact congrArg Gateway.nextSeq gates.gateway) ?_
      have gone : ∀ other, app.inflight.lookup frame.command.orderId ≠ some other := by
        intro other found
        rw [inflight,Finmap.lookup_erase] at found
        cases found
      rw [Staged]
      simp only [System.deliver,manager]
      by_cases own : entry.responder = frame.owner
      · -- The entry is that of the record: the manager gets its reply and the book is settled.
        obtain ⟨registers,fills⟩ := underway.entry entry looked own
        refine ⟨frame.command,some ⟨msg,entry.fills⟩,?_,.answered toEngine split more rfl (fun _ => rfl),?_,?_⟩
        · change (s.requests.modify entry.responder _)[frame.owner]? = _
          rw [own,List.getElem?_modify,underway.request]
          simp [Request.deliver]
        · intro other found
          exact absurd found (gone other)
        · intro _
          change app.book = (projectAll ({},[]) (s.applied ++ [(frame,msg)])).1
          rw [settles,settledBook_own registers terminator fills,projectAll_append,book]
          change _ = (project (projectAll ({},[]) s.applied) (frame,msg)).1
          rw [project_terminator terminator]
      · -- The entry is that of a handler: the manager waits in vain.
        refine ⟨frame.command,none,?_,.answered toEngine split more rfl (by simp),?_,?_⟩
        · change (s.requests.modify entry.responder _)[frame.owner]? = _
          rw [List.getElem?_modify,underway.request]
          simp [own]
        · intro other found
          exact absurd found (gone other)
        · rintro (⟨⟨⟩⟩ | away | away)
          · exact absurd toEngine away
          · exact absurd rfl away

/-! ### The manager -/

theorem asRecord_replayed (gateway : Gateway) (record : JournalRecord) : asRecord (replayed gateway record) = record := by
  cases record with
  | New orderId side priceTicks quantity => rfl
  | Cancel orderId => rfl

/-- A record that is sent again gets a stamp after all that were given. -/
theorem stamps_replayed {gateway gateway' : Gateway} {record : JournalRecord} {stamps : List UInt64}
    (ahead : gateway.nextSeq < gateway.nextSeq + 1)
    (next : gateway'.nextSeq = gateway.nextSeq + (match record with | .New .. => 1 | .Cancel _ => 0))
    (increasing : stamps.Pairwise (· < ·)) (below : ∀ q ∈ stamps, q < gateway.nextSeq) :
    (stamps ++ (stamp (replayed gateway record)).toList).Pairwise (· < ·) ∧
      ∀ q ∈ stamps ++ (stamp (replayed gateway record)).toList, q < gateway'.nextSeq := by
  cases record with
  | New orderId side priceTicks quantity =>
    have last : (stamp (replayed gateway (.New orderId side priceTicks quantity))).toList = [gateway.nextSeq] := rfl
    have later : gateway'.nextSeq = gateway.nextSeq + 1 := next
    rw [last,later]
    constructor
    · rw [List.pairwise_append]
      refine ⟨increasing,List.pairwise_singleton _ _,?_⟩
      intro q old p new
      rw [List.mem_singleton.mp new]
      exact below q old
    · intro q inside
      rcases List.mem_append.mp inside with old | new
      · exact UInt64.lt_trans (below q old) ahead
      · rw [List.mem_singleton.mp new]
        exact ahead
  | Cancel orderId =>
    have last : (stamp (replayed gateway (.Cancel orderId))).toList = [] := rfl
    have later : gateway'.nextSeq = gateway.nextSeq := by
      rw [next]
      simp
    rw [last,later,List.append_nil]
    exact ⟨increasing,below⟩

theorem Replaying.replayNext (replaying : Replaying market records s) (linked : s.linked = true)
    (may : Reconnects records s (.link .replayNext)) (ran : s.link .replayNext = some s') : Replaying market records s' := by
  obtain ⟨resubmits,ahead⟩ := may
  have prepared := resubmits linked
  obtain ⟨record,rest,app,manager,⟨refused,_⟩ | ⟨command,preparing,rfl⟩⟩ := System.replayNext_cases ran
  · have some := prepared record (by rw [manager]; rfl)
    rw [refused] at some
    cases some
  · have staged := replaying.staged
    rw [Staged,manager] at staged
    have resting : AtRest s := staged
    obtain ⟨rfl,_,gateway,entry,next,registers,fills,responder,rfl⟩ := prepareReplay_some preparing
    have sent := replaying.sent
    rw [manager] at sent
    obtain ⟨increasing,below⟩ := stamps_replayed ahead next replaying.increasing replaying.below
    have written : sentCommands s = commandsOf s.processed := by
      rw [sentCommands,resting.toEngine]
      exact List.append_nil _
    rw [System.write,if_pos linked,resting.toEngine]
    have one : (stamp (replayed s.app.gateway record)).toList = [replayed s.app.gateway record].filterMap stamp := by
      rw [List.filterMap_cons]
      cases stamp (replayed s.app.gateway record) with
      | none => rfl
      | some q => rfl
    rw [one,← List.filterMap_append,written] at increasing below
    constructor
    · exact replaying.strays
    · exact replaying.spoken
    · exact replaying.shown
    · exact replaying.answered
    · change (commandsOf s.processed ++ [replayed s.app.gateway record]).map asRecord ++ rest = records
      rw [← sent,written,List.map_append,List.map_singleton,asRecord_replayed,List.append_assoc]
      rfl
    · exact increasing
    · exact below
    · refine ⟨replayed s.app.gateway record,none,?_,.written rfl resting.toGateway resting.applied,?_,fun _ => resting.book⟩
      · change (s.requests ++ [_])[s.requests.length]? = _
        rw [List.getElem?_concat_length]
      · intro other found _
        have new : (s.app.inflight.insert (replayed s.app.gateway record).orderId entry).lookup
          (replayed s.app.gateway record).orderId = some other := found
        rw [Finmap.lookup_insert] at new
        cases new
        have cleared : (projectAll ({},[]) s.applied).2 = [] := by
          rw [resting.applied]
          exact projectAll_log replaying.answered {}
        change Registers entry _ ∧ entry.fills = (projectAll ({},[]) s.applied).2.map fillOfTrade
        rw [cleared]
        exact ⟨registers,fills⟩

theorem Replaying.replayAwaited (replaying : Replaying market records s) (linked : s.linked = true)
    (may : Reconnects records s (.link .replayAwaited)) (ran : s.link .replayAwaited = some s') :
    Replaying market records s' := by
  have received := may.1 linked
  obtain ⟨n,rest,manager,rfl⟩ := System.replayAwaited_cases ran
  refine replaying.restaged rfl rfl rfl rfl (by rw [manager]; rfl) rfl ?_
  have staged := replaying.staged
  rw [Staged,manager] at staged
  obtain ⟨command,mailbox,underway⟩ := staged
  rw [manager] at received
  obtain ⟨request,found,replied⟩ := received
  cases underway.request.symm.trans found
  have book : Folded s := underway.book (.inl replied)
  cases underway.located with
  | written => cases replied
  | answered toEngine processed applied toGateway last =>
    cases last replied
    refine ⟨toEngine,toGateway,?_,book⟩
    change s.applied = s.processed.flatMap emitted
    rw [applied,processed,List.flatMap_append,List.append_nil]
    simp [emitted]

theorem Replaying.endRestore (replaying : Replaying market records s) (ran : s.link .endRestore = some s') :
    Replaying market records s' := by
  have staged := replaying.staged
  rcases System.endRestore_cases ran with ⟨manager,rfl⟩ | ⟨manager,rfl⟩
  · rw [Staged,manager] at staged
    refine replaying.restaged rfl rfl rfl rfl (by rw [manager]; rfl) rfl ?_
    exact ⟨staged.toEngine,staged.toGateway,staged.applied,staged.book⟩
  · rw [Staged,manager] at staged
    cases staged

theorem Replaying.traffic (replaying : Replaying market records s) {event : Traffic}
    (may : Reconnects records s (.traffic event)) (ran : s.traffic event = some s') : Replaying market records s' := by
  rcases traffic_beside ran with ⟨beside,same | ⟨⟨body,rfl⟩,next⟩⟩ | rfl | rfl | ⟨now,rfl⟩
  · exact replaying.beside beside (by rw [same]; exact UInt64.le_refl _)
  · refine replaying.beside beside ?_
    rw [next]
    exact UInt64.le_of_lt may.2
  · obtain ⟨_,_,live,_⟩ := System.forward_cases ran
    have staged := replaying.staged
    rw [Staged,live] at staged
    cases staged
  · exact replaying.processing ran
  · exact replaying.handling ran
end

end HyperMatch.Reconnection
