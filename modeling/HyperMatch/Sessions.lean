import HyperMatch.LateReaders
import HyperMatch.Reconnection

/-!
One connection of the manager from the replay to its end: what `replay_journal` of
`gateway-server/src/engine_client.rs` does with every record of the journal, what it
returns, and when `set_connected(true)` opens the gateway. Readers of earlier connections
may still handle events meanwhile.
-/
namespace HyperMatch.Sessions
open HyperMatch.Wire HyperMatch.Matching HyperMatch.MatchingEngine HyperMatch.Streams HyperMatch.Runs
open HyperMatch.Reconnection HyperMatch.Replays HyperMatch.LateReaders
open HyperMatch.AppState (terminatorId)
open HyperMatch.OrderBook (PoolCapacity)

variable {maxOrders maxPriceLevels : PoolCapacity}

/-! ### The journal file -/

/-- `std::io::ErrorKind`, as far as the journal tells the kinds apart. -/
inductive ErrorKind where
  | NotFound
  | InvalidData
  | Other
  deriving Repr, DecidableEq

/-- A line of the file: blank, a record as `serde_json` reads it, text that is no record,
    or a line that could not be read. -/
inductive JournalLine where
  | blank
  | record (record : JournalRecord)
  | malformed
  | unreadable (kind : ErrorKind)
  deriving Repr, DecidableEq

/-- The loop over the lines. -/
def readLines : List JournalLine → List JournalRecord → Except ErrorKind (List JournalRecord)
  | [],records => .ok records
  | .blank :: rest,records => readLines rest records
  | .record record :: rest,records => readLines rest (records ++ [record])
  | .malformed :: _,_ => .error .InvalidData
  | .unreadable kind :: _,_ => .error kind

/-- `read_records`, given what `File::open` answers. -/
def readRecords : Except ErrorKind (List JournalLine) → Except ErrorKind (List JournalRecord)
  | .error .NotFound => .ok []
  | .error kind => .error kind
  | .ok lines => readLines lines []

/-- The records that `replay_journal` goes through: none without a journal, and none if it
    cannot be read. -/
def toReplay : Option (Except ErrorKind (List JournalLine)) → List JournalRecord
  | none => []
  | some file =>
    match readRecords file with
    | .ok records => records
    | .error _ => []

def recordOf : JournalLine → Option JournalRecord
  | .record record => some record
  | _ => none

/-- What a session does, as far as the replay is concerned. -/
inductive Note where
  | sent (n : Nat) (record : JournalRecord) (command : Command)
  | awaited (n : Nat) (reply : Option EngineReply)
  | skipped (record : JournalRecord)
  | refused (record : JournalRecord)
  | returned (ok : Bool)
  | opened
  deriving Repr, DecidableEq

/-- What a step does: `replay_journal` writes a record, ends the wait for its terminator,
    skips it or finds the connection broken, and returns; `set_connected(true)` follows. -/
def noted (s : System maxOrders maxPriceLevels) : Event → List Note
  | .link (.connect readable) =>
    match s.app.journal with
    | none => [.returned true]
    | some records => if readable = false ∨ records = [] then [.returned true] else []
  | .link .replayNext =>
    match s.manager with
    | .replaying (record :: _) =>
      match (s.app.prepareReplay s.requests.length record).2 with
      | none => [.skipped record]
      | some command => [.sent s.requests.length record command]
    | _ => []
  | .link .replayNextFails =>
    match s.manager with
    | .replaying (record :: _) => [.refused record]
    | _ => []
  | .link .replayAwaited =>
    match s.manager with
    | .awaiting n _ => [.awaited n (s.requests[n]?.bind Request.mailbox)]
    | _ => []
  | .link .endRestore =>
    match s.manager with
    | .replaying _ => [.returned true]
    | .failing => [.returned false]
    | _ => []
  | .link .serve => [.opened]
  | _ => []

/-- The notes of a session that goes on with these turns, and how many of them were late. -/
def follows (notes : List Note) (lates : Nat) (s : Lingering maxOrders maxPriceLevels) :
    List Turn → Option (List Note × Nat × Lingering maxOrders maxPriceLevels)
  | [] => some (notes,lates,s)
  | .step (.link (.connect _)) :: _ => none
  | .step event :: rest =>
    (turn s (.step event)).bind (fun s' => follows (notes ++ noted s.system event) lates s' rest)
  | .late reader now :: rest => (turn s (.late reader now)).bind (fun s' => follows notes (lates + 1) s' rest)

/-- The file as the manager finds it: `connect` is told whether it can be read. -/
def Reads (file : Option (Except ErrorKind (List JournalLine))) (s : System maxOrders maxPriceLevels) (readable : Bool) : Prop :=
  match file with
  | none => s.app.journal = none
  | some file =>
    match readRecords file with
    | .ok records => s.app.journal = some records ∧ readable = true
    | .error _ => s.app.journal.isSome = true ∧ readable = false

/-- A session begins when the manager connects and goes on until it connects again. The
    turns of readers that were aborted earlier are counted. -/
inductive Session (file : Option (Except ErrorKind (List JournalLine))) (start : Lingering maxOrders maxPriceLevels) :
    List Note → Nat → Lingering maxOrders maxPriceLevels → Prop
  | connect {readable : Bool} {s : Lingering maxOrders maxPriceLevels} (reads : Reads file start.system readable)
      (ran : turn start (.step (.link (.connect readable))) = some s) :
      Session file start (noted start.system (.link (.connect readable))) 0 s
  | step {notes : List Note} {lates : Nat} {s s' : Lingering maxOrders maxPriceLevels} {event : Event}
      (session : Session file start notes lates s) (same : ∀ readable, event ≠ .link (.connect readable))
      (ran : turn s (.step event) = some s') : Session file start (notes ++ noted s.system event) lates s'
  | late {notes : List Note} {lates : Nat} {s s' : Lingering maxOrders maxPriceLevels} {reader : Nat} {now : UInt64}
      (session : Session file start notes lates s) (ran : turn s (.late reader now) = some s') :
      Session file start notes (lates + 1) s'

/-- Every wait so far has ended with a reply. -/
def Prompt (notes : List Note) : Prop := ∀ n, Note.awaited n none ∉ notes

/-- The records are gone through in order: each one is skipped, or written and waited for
    before the next one. A reply is a terminator that names the identifier of the record;
    as long as every wait before has ended with a reply, and no reader is late, it is the
    terminator of the record's own command. -/
inductive Covers (punctual : Prop) : List JournalRecord → List Note → Prop
  | nil : Covers punctual [] []
  | skipped {records : List JournalRecord} {notes : List Note} (covers : Covers punctual records notes)
      (record : JournalRecord) : Covers punctual (records ++ [record]) (notes ++ [.skipped record])
  | resubmitted {records : List JournalRecord} {notes : List Note} {record : JournalRecord} {n : Nat} {command : Command}
      {reply : Option EngineReply} (covers : Covers punctual records notes) (same : asRecord command = record)
      (named : ∀ answer, reply = some answer → terminatorId answer.terminator = some command.orderId)
      (own : punctual → Prompt notes → ∀ answer, reply = some answer → Terminator command answer.terminator) :
      Covers punctual (records ++ [record]) (notes ++ [.sent n record command,.awaited n reply])

/-- Every record is written, and its terminator received before the next one is written. -/
inductive Complete : List JournalRecord → List Note → Prop
  | nil : Complete [] []
  | resubmitted {records : List JournalRecord} {notes : List Note} {record : JournalRecord} {n : Nat} {command : Command}
      {answer : EngineReply} (complete : Complete records notes) (same : asRecord command = record)
      (own : Terminator command answer.terminator) :
      Complete (records ++ [record]) (notes ++ [.sent n record command,.awaited n (some answer)])

theorem Prompt.left {notes later : List Note} (prompt : Prompt (notes ++ later)) : Prompt notes :=
  fun n inside => prompt n (List.mem_append_left _ inside)

theorem Covers.stale {punctual : Prop} {records : List JournalRecord} {notes : List Note} (covers : Covers punctual records notes)
    {still : Prop} (stale : ¬ still) : Covers still records notes := by
  induction covers with
  | nil => exact .nil
  | skipped covers record ih => exact ih.skipped record
  | resubmitted covers same named own ih => exact ih.resubmitted same named (fun holds => absurd holds stale)

/-- Without a skipped record, a wait in vain and a late reader, the whole journal is replayed. -/
theorem Covers.complete {punctual : Prop} {records : List JournalRecord} {notes : List Note}
    (covers : Covers punctual records notes) (holds : punctual) (prompt : Prompt notes)
    (none : ∀ record, Note.skipped record ∉ notes) : Complete records notes := by
  induction covers with
  | nil => exact .nil
  | skipped covers record ih => exact absurd (List.mem_append_right _ List.mem_cons_self) (none record)
  | @resubmitted records notes record n command reply covers same named own ih =>
    have before := ih prompt.left (fun record inside => none record (List.mem_append_left _ inside))
    cases reply with
    | none => exact absurd (List.mem_append_right _ (List.mem_cons_of_mem _ List.mem_cons_self)) (prompt n)
    | some answer => exact before.resubmitted same (own holds prompt.left answer rfl)

theorem Complete.length {records : List JournalRecord} {notes : List Note} (complete : Complete records notes) :
    notes.length = 2 * records.length := by
  induction complete with
  | nil => rfl
  | resubmitted complete same own ih =>
    simp only [List.length_append,List.length_cons,List.length_nil,ih]
    omega

/-- The last reply is the terminator of the last record's command. -/
theorem Complete.last {records : List JournalRecord} {notes before : List Note} (complete : Complete records notes)
    {n : Nat} {record : JournalRecord} {command : Command} {answer : EngineReply}
    (ends : notes = before ++ [.sent n record command,.awaited n (some answer)]) : Terminator command answer.terminator := by
  cases complete with
  | nil => simp at ends
  | resubmitted complete same own =>
    obtain ⟨_,last⟩ := List.append_inj' ends rfl
    cases last
    exact own

/-! ### The connection -/

section
variable {s s' : System maxOrders maxPriceLevels}

/-- What holds of every state that the server reaches: the engine is sound, and a manager
    that is not connected has nothing on its way. -/
structure Linked (s : System maxOrders maxPriceLevels) : Prop where
  sound : Sound s.engine
  silent : s.linked = false → s.toEngine = []
  down : s.manager = .down → s.linked = false ∧ s.toGateway = []
  lost : s.manager = .failing ∨ s.manager = .broken ∨ s.manager = .closing ∨ s.manager = .closed → s.linked = false

theorem answer_sound {engine engine' : MatchingEngine maxOrders maxPriceLevels} (sound : Sound engine) {command : Command}
    {events : List BinaryMessage} (answered : Processing.answer engine command.message = some (events,engine')) :
    Sound engine' ∧ Answered command events := by
  obtain ⟨market,shown⟩ := shows_of_sound sound
  obtain ⟨after,ran,shown'⟩ := answer_shows shown command
  cases answered.symm.trans ran
  exact ⟨shown'.sound,answered_of_shows shown command⟩

theorem traffic_sound {event : Traffic} (sound : Sound s.engine) (ran : s.traffic event = some s') : Sound s'.engine := by
  rcases traffic_beside ran with ⟨beside,_⟩ | rfl | rfl | ⟨now,rfl⟩
  · rw [beside.engine]
    exact sound
  · obtain ⟨frame,rest,_,_,rfl⟩ := System.forward_cases ran
    rw [System.write]
    split
    · exact sound
    · exact sound
  · obtain ⟨frame,rest,events,engine,_,answered,rfl⟩ := System.process_cases ran
    exact (answer_sound sound answered).1
  · obtain ⟨frame,msg,rest,_,rfl⟩ := System.handle_cases ran
    rw [System.deliver_eq]
    exact sound

theorem Linked.traffic (linked : Linked s) {event : Traffic} (ran : s.traffic event = some s') : Linked s' := by
  obtain ⟨link,manager,handled⟩ := traffic_link ran
  refine ⟨traffic_sound linked.sound ran,?_,?_,?_⟩
  · intro off
    rw [link] at off
    exact (traffic_unlinked ran off (linked.silent off)).2
  · intro down
    rw [manager] at down
    obtain ⟨off,empty⟩ := linked.down down
    exact ⟨link.trans off,handled empty (linked.silent off)⟩
  · rw [manager,link]
    exact linked.lost

theorem Linked.link (linked : Linked s) {event : Link} (ran : s.link event = some s') : Linked s' := by
  cases event with
  | connect readable =>
    obtain ⟨_,⟨_,rfl⟩ | ⟨records,_,rfl⟩⟩ := System.connect_cases ran
    · exact ⟨linked.sound,by simp,by simp,by simp⟩
    · exact ⟨linked.sound,by simp,by simp,by simp⟩
  | connectFails =>
    obtain ⟨_,rfl⟩ := System.connectFails_cases ran
    exact ⟨linked.sound,linked.silent,linked.down,linked.lost⟩
  | replayNext =>
    obtain ⟨record,rest,app,_,⟨_,rfl⟩ | ⟨command,_,rfl⟩⟩ := System.replayNext_cases ran
    · exact ⟨linked.sound,linked.silent,by simp,by simp⟩
    · rw [System.write]
      split
      · rename_i on
        exact ⟨linked.sound,fun off => absurd (on.symm.trans off) (by simp),by simp,by simp⟩
      · exact ⟨linked.sound,linked.silent,by simp,by simp⟩
  | replayNextFails =>
    obtain ⟨record,rest,app,command,_,off,_,rfl⟩ := System.replayNextFails_cases ran
    exact ⟨linked.sound,linked.silent,by simp,fun _ => off⟩
  | replayAwaited =>
    obtain ⟨_,_,_,rfl⟩ := System.replayAwaited_cases ran
    exact ⟨linked.sound,linked.silent,by simp,by simp⟩
  | endRestore =>
    obtain ⟨_,rfl⟩ | ⟨failing,rfl⟩ := System.endRestore_cases ran
    · exact ⟨linked.sound,linked.silent,by simp,by simp⟩
    · exact ⟨linked.sound,linked.silent,by simp,fun _ => linked.lost (.inl failing)⟩
  | abandon =>
    obtain ⟨broken,rfl⟩ := System.abandon_cases ran
    exact ⟨linked.sound,linked.silent,fun _ => ⟨linked.lost (.inr (.inl broken)),rfl⟩,by simp⟩
  | serve =>
    obtain ⟨_,rfl⟩ := System.serve_cases ran
    exact ⟨linked.sound,linked.silent,by simp,by simp⟩
  | forwardFails =>
    obtain ⟨_,_,_,_,off,rfl⟩ := System.forwardFails_cases ran
    exact ⟨linked.sound,linked.silent,by simp,fun _ => off⟩
  | readerEnds =>
    obtain ⟨_,_,off,rfl⟩ := System.readerEnds_cases ran
    exact ⟨linked.sound,linked.silent,by simp,fun _ => off⟩
  | disconnect =>
    obtain ⟨closing,rfl⟩ := System.disconnect_cases ran
    exact ⟨linked.sound,linked.silent,by simp,fun _ => linked.lost (.inr (.inr (.inl closing)))⟩
  | failAll =>
    obtain ⟨closed,rfl⟩ := System.failAll_cases ran
    exact ⟨linked.sound,linked.silent,fun _ => ⟨linked.lost (.inr (.inr (.inr closed))),rfl⟩,by simp⟩
  | cut frames events =>
    obtain ⟨on,rfl⟩ := System.cut_cases ran
    refine ⟨linked.sound,fun _ => rfl,?_,fun _ => rfl⟩
    intro down
    exact absurd ((linked.down down).1.symm.trans on) (by simp)
  | processStray =>
    obtain ⟨_,_,_,_,_,answered,rfl⟩ := System.processStray_cases ran
    exact ⟨(answer_sound linked.sound answered).1,linked.silent,linked.down,linked.lost⟩
  | restartEngine =>
    obtain ⟨off,rfl⟩ := System.restartEngine_cases ran
    exact ⟨sound_new,linked.silent,linked.down,linked.lost⟩

theorem Linked.step (linked : Linked s) {event : Event} (ran : s.step event = some s') : Linked s' := by
  cases event with
  | traffic event => exact linked.traffic ran
  | link event => exact linked.link ran

/-- An event moves no frame, whoever handles it. -/
theorem Linked.turn {before after : Lingering maxOrders maxPriceLevels} (linked : Linked before.system) {event : Turn}
    (ran : turn before event = some after) : Linked after.system := by
  cases event with
  | step event => exact linked.step (step_cases ran).1
  | late reader now =>
    obtain ⟨frame,msg,rest,_,rfl⟩ := late_cases ran
    rw [System.deliver_eq]
    exact ⟨linked.sound,linked.silent,linked.down,linked.lost⟩

/-! ### One record on its way -/

/-- Nothing is on its way. -/
def Silent (s : System maxOrders maxPriceLevels) : Prop := s.toEngine = [] ∧ s.toGateway = []

/-- Events that may still come of a command: a part of its answer, in order. -/
def Coming (command : Command) (events : List BinaryMessage) : Prop :=
  events = [] ∨ ∃ before after, Answered command (before ++ (events ++ after))

/-- Only one command is on its way: it is before the engine, its events are before the
    gateway, or its terminator has been received. -/
inductive Pending (s : System maxOrders maxPriceLevels) (frame : Frame) : Option EngineReply → Prop
  | written (toEngine : s.toEngine = [frame]) (toGateway : s.toGateway = []) : Pending s frame none
  | answering {events : List BinaryMessage} (toEngine : s.toEngine = []) (toGateway : s.toGateway = events.map (frame,·))
      (coming : Coming frame.command events) : Pending s frame none
  | answered {reply : EngineReply} (silent : Silent s) (own : Terminator frame.command reply.terminator) :
      Pending s frame (some reply)

theorem Pending.beside {frame : Frame} {mailbox : Option EngineReply} (pending : Pending s frame mailbox)
    (toEngine : s'.toEngine = s.toEngine) (toGateway : s'.toGateway = s.toGateway) : Pending s' frame mailbox := by
  cases pending with
  | written engine gateway => exact .written (toEngine.trans engine) (toGateway.trans gateway)
  | answering engine gateway coming => exact .answering (toEngine.trans engine) (toGateway.trans gateway) coming
  | answered silent own => exact .answered ⟨toEngine.trans silent.1,toGateway.trans silent.2⟩ own

theorem Pending.cut {frame : Frame} {mailbox : Option EngineReply} (pending : Pending s frame mailbox) {frames events : Nat}
    (ran : s.link (.cut frames events) = some s') : Pending s' frame mailbox := by
  obtain ⟨_,rfl⟩ := System.cut_cases ran
  cases pending with
  | written _ gateway => exact .answering rfl (by simp [gateway]) (.inl rfl)
  | @answering coming _ gateway part =>
    refine .answering rfl (by rw [gateway,List.map_take]) ?_
    rcases part with rfl | ⟨before,after,answered⟩
    · exact .inl List.take_nil
    · refine .inr ⟨before,coming.drop events ++ after,?_⟩
      rw [← List.append_assoc (coming.take events),List.take_append_drop]
      exact answered
  | answered silent own => exact .answered ⟨rfl,by simp [silent.2]⟩ own

theorem Pending.process {frame : Frame} {mailbox : Option EngineReply} (pending : Pending s frame mailbox)
    (sound : Sound s.engine) (ran : s.traffic .process = some s') : Pending s' frame mailbox := by
  obtain ⟨next,rest,events,engine,written,answered,rfl⟩ := System.process_cases ran
  cases pending with
  | written toEngine toGateway =>
    rw [toEngine] at written
    cases written
    have coming : Coming frame.command events := by
      refine .inr ⟨[],[],?_⟩
      rw [List.append_nil,List.nil_append]
      exact (answer_sound sound answered).2
    exact .answering rfl (by simp [toGateway]) coming
  | answering toEngine =>
    rw [toEngine] at written
    cases written
  | answered silent =>
    rw [silent.1] at written
    cases written

/-- The next event of the only command on its way: a trade leaves its mailbox as it is; the
    terminator is the last event, and its own if it comes with a reply. -/
theorem Pending.handle {command : Command} {n : Nat} {mailbox : Option EngineReply}
    (request : s.requests[n]? = some ⟨command,.replay,mailbox⟩) (pending : Pending s ⟨command,n⟩ mailbox) {now : UInt64}
    (ran : s.traffic (.handle now) = some s') :
    ∃ mailbox', s'.requests[n]? = some ⟨command,.replay,mailbox'⟩ ∧ Pending s' ⟨command,n⟩ mailbox' := by
  obtain ⟨frame,msg,rest,next,rfl⟩ := System.handle_cases ran
  cases pending with
  | written _ toGateway =>
    rw [toGateway] at next
    cases next
  | answered silent =>
    rw [silent.2] at next
    cases next
  | @answering events toEngine toGateway coming =>
    rw [toGateway] at next
    obtain ⟨other,later,rfl,same,rfl⟩ := List.map_eq_cons_iff.mp next
    cases same
    rcases coming with wrong | ⟨before,after,answered⟩
    · cases wrong
    · rw [List.cons_append] at answered
      rcases answered.split with ⟨t,rfl,_,_⟩ | ⟨last,terminator,_⟩
      · obtain ⟨app,handled,_⟩ := AppState.handle_trade s.app now t
        rw [handled]
        refine ⟨none,request,.answering toEngine rfl (.inr ⟨before ++ [.trade t],after,?_⟩)⟩
        rw [List.append_assoc]
        exact answered
      · obtain ⟨rfl,_⟩ := List.append_eq_nil_iff.mp last
        cases looked : s.app.inflight.lookup command.orderId with
        | none =>
          rw [AppState.handle_missing terminator.id looked]
          exact ⟨none,request,.answering toEngine rfl (.inl rfl)⟩
        | some entry =>
          obtain ⟨app,handled,_⟩ := AppState.handle_found terminator.id looked now
          rw [handled]
          by_cases own : entry.responder = n
          · refine ⟨some ⟨msg,entry.fills⟩,?_,.answered ⟨toEngine,rfl⟩ terminator⟩
            change (s.requests.modify entry.responder _)[n]? = _
            rw [own,List.getElem?_modify,request]
            simp [Request.deliver]
          · -- The entry is that of a handler, which gets the reply instead.
            refine ⟨none,?_,.answering toEngine rfl (.inl rfl)⟩
            change (s.requests.modify entry.responder _)[n]? = _
            rw [List.getElem?_modify,request]
            simp [own]

theorem deliver_request {n : Nat} {command : Command} {mailbox : Option EngineReply} (sent : Option (Nat × EngineReply))
    (request : s.requests[n]? = some ⟨command,.replay,mailbox⟩) :
    ∃ mailbox', (s.deliver sent).requests[n]? = some ⟨command,.replay,mailbox'⟩ := by
  cases sent with
  | none => exact ⟨mailbox,request⟩
  | some reply =>
    change ∃ mailbox', (s.requests.modify reply.1 _)[n]? = _
    rw [List.getElem?_modify,request]
    by_cases own : reply.1 = n
    · exact ⟨some reply.2,by simp [own,Request.deliver]⟩
    · exact ⟨mailbox,by simp [own]⟩

theorem handle_request {n : Nat} {command : Command} {mailbox : Option EngineReply} {now : UInt64}
    (request : s.requests[n]? = some ⟨command,.replay,mailbox⟩) (ran : s.traffic (.handle now) = some s') :
    ∃ mailbox', s'.requests[n]? = some ⟨command,.replay,mailbox'⟩ := by
  obtain ⟨frame,msg,rest,_,rfl⟩ := System.handle_cases ran
  exact deliver_request (s := { s with
    app := (s.app.handleEngineEvent now msg).1
    toGateway := rest
    applied := s.applied ++ [(frame,msg)] }) _ request

/-! ### The story of a session -/

/-- The loop is between two records. -/
def Between (punctual : Prop) (records rest : List JournalRecord) (notes : List Note)
    (s : System maxOrders maxPriceLevels) : Prop :=
  ∃ done, records = done ++ rest ∧ Covers punctual done notes ∧ (punctual → Prompt notes → Silent s)

/-- The loop waits for request `n`. -/
def Waiting (punctual : Prop) (records : List JournalRecord) (n : Nat) (rest : List JournalRecord) (notes : List Note)
    (s : System maxOrders maxPriceLevels) : Prop :=
  ∃ done before command mailbox, records = done ++ asRecord command :: rest ∧
    notes = before ++ [.sent n (asRecord command) command] ∧ Covers punctual done before ∧
    s.requests[n]? = some ⟨command,.replay,mailbox⟩ ∧ (punctual → Prompt before → Pending s ⟨command,n⟩ mailbox)

/-- A record could not be written. -/
def Refused (punctual : Prop) (records : List JournalRecord) (notes later : List Note) : Prop :=
  ∃ done record rest before, records = done ++ record :: rest ∧ notes = before ++ .refused record :: later ∧
    Covers punctual done before

/-- All records have been gone through. -/
def Over (punctual : Prop) (records : List JournalRecord) (notes later : List Note) : Prop :=
  ∃ before, notes = before ++ .returned true :: later ∧ Covers punctual records before

/-- Where the manager is, and the notes that have led there. -/
def Story (punctual : Prop) (records : List JournalRecord) (s : System maxOrders maxPriceLevels) (notes : List Note) : Prop :=
  match s.manager with
  | .replaying rest => Between punctual records rest notes s
  | .awaiting n rest => Waiting punctual records n rest notes s
  | .failing => Refused punctual records notes []
  | .broken => Refused punctual records notes [.returned false]
  | .restored => Over punctual records notes []
  | .live => Over punctual records notes [.opened]
  | .closing => Over punctual records notes [.opened]
  | .closed => Over punctual records notes [.opened]
  | .down => Refused punctual records notes [.returned false] ∨ Over punctual records notes [.opened]

variable {punctual : Prop} {records : List JournalRecord} {notes : List Note}

/-- A step that leaves the manager where it is: it keeps the silence between two records
    and brings the one on its way further. -/
theorem Story.frames (story : Story punctual records s notes) (manager : s'.manager = s.manager) (silent : Silent s → Silent s')
    (advances : ∀ (n : Nat) (command : Command) (mailbox : Option EngineReply), s.requests[n]? = some ⟨command,.replay,mailbox⟩ →
      ∃ mailbox', s'.requests[n]? = some ⟨command,.replay,mailbox'⟩ ∧
        (Pending s ⟨command,n⟩ mailbox → Pending s' ⟨command,n⟩ mailbox')) : Story punctual records s' notes := by
  rw [Story] at story
  rw [Story,manager]
  split at story
  · obtain ⟨done,split,covers,quiet⟩ := story
    exact ⟨done,split,covers,fun on prompt => silent (quiet on prompt)⟩
  · obtain ⟨done,before,command,mailbox,split,note,covers,request,pending⟩ := story
    obtain ⟨mailbox',request',pending'⟩ := advances _ command mailbox request
    exact ⟨done,before,command,mailbox',split,note,covers,request',fun on prompt => pending' (pending on prompt)⟩
  all_goals exact story

/-- A late reader may hand over any reply, and from then on nothing is known about them. -/
theorem Story.late {still : Prop} (story : Story punctual records s notes) (stale : ¬ still) (manager : s'.manager = s.manager)
    (waits : ∀ (n : Nat) (command : Command) (mailbox : Option EngineReply), s.requests[n]? = some ⟨command,.replay,mailbox⟩ →
      ∃ mailbox', s'.requests[n]? = some ⟨command,.replay,mailbox'⟩) : Story still records s' notes := by
  have refused : ∀ later, Refused punctual records notes later → Refused still records notes later := by
    rintro later ⟨done,record,rest,before,split,note,covers⟩
    exact ⟨done,record,rest,before,split,note,covers.stale stale⟩
  have finished : ∀ later, Over punctual records notes later → Over still records notes later := by
    rintro later ⟨before,note,covers⟩
    exact ⟨before,note,covers.stale stale⟩
  rw [Story] at story
  rw [Story,manager]
  split at story
  · obtain ⟨done,split,covers,_⟩ := story
    exact ⟨done,split,covers.stale stale,fun on => absurd on stale⟩
  · obtain ⟨done,before,command,mailbox,split,note,covers,request,_⟩ := story
    obtain ⟨mailbox',request'⟩ := waits _ command mailbox request
    exact ⟨done,before,command,mailbox',split,note,covers.stale stale,request',fun on => absurd on stale⟩
  · exact refused _ story
  · exact refused _ story
  · exact finished _ story
  · exact finished _ story
  · exact finished _ story
  · exact finished _ story
  · exact story.imp (refused _) (finished _)

theorem Story.aside (story : Story punctual records s notes) (manager : s'.manager = s.manager) (toEngine : s'.toEngine = s.toEngine)
    (toGateway : s'.toGateway = s.toGateway) (requests : ∀ (n : Nat) (request : Request),
      s.requests[n]? = some request → request.phase = .replay → s'.requests[n]? = some request) : Story punctual records s' notes := by
  refine story.frames manager ?_ ?_
  · intro silent
    exact ⟨toEngine.trans silent.1,toGateway.trans silent.2⟩
  · intro n command mailbox request
    exact ⟨mailbox,requests n _ request rfl,fun pending => pending.beside toEngine toGateway⟩

theorem Story.traffic (story : Story punctual records s notes) (sound : Sound s.engine) {event : Traffic}
    (ran : s.traffic event = some s') : Story punctual records s' notes := by
  obtain ⟨_,manager,_⟩ := traffic_link ran
  rcases traffic_beside ran with ⟨beside,_⟩ | rfl | rfl | ⟨now,rfl⟩
  · exact story.aside manager beside.toEngine beside.toGateway beside.requests
  · obtain ⟨frame,rest,live,_,_⟩ := System.forward_cases ran
    rw [Story,live] at story
    rw [Story,manager,live]
    exact story
  · obtain ⟨frame,rest,events,engine,written,_,made⟩ := System.process_cases ran
    refine story.frames manager ?_ ?_
    · rintro ⟨empty,_⟩
      cases written.symm.trans empty
    · intro n command mailbox request
      exact ⟨mailbox,by rw [made]; exact request,fun pending => pending.process sound ran⟩
  · obtain ⟨frame,msg,rest,next,_⟩ := System.handle_cases ran
    refine story.frames manager ?_ ?_
    · rintro ⟨_,empty⟩
      cases next.symm.trans empty
    · intro n command mailbox request
      by_cases pending : Pending s ⟨command,n⟩ mailbox
      · obtain ⟨mailbox',request',pending'⟩ := Pending.handle request pending ran
        exact ⟨mailbox',request',fun _ => pending'⟩
      · obtain ⟨mailbox',request'⟩ := handle_request request ran
        exact ⟨mailbox',request',fun now => absurd now pending⟩

theorem Story.replayNext (story : Story punctual records s notes) (ran : s.link .replayNext = some s') :
    Story punctual records s' (notes ++ noted s (.link .replayNext)) := by
  obtain ⟨record,rest,app,replaying,⟨prepared,rfl⟩ | ⟨command,prepared,rfl⟩⟩ := System.replayNext_cases ran
  · rw [Story,replaying] at story
    obtain ⟨done,split,covers,silent⟩ := story
    have note : noted s (.link .replayNext) = [.skipped record] := by simp [noted,replaying,prepared]
    rw [note]
    exact ⟨done ++ [record],by simp [split],covers.skipped record,fun on prompt => silent on prompt.left⟩
  · rw [Story,replaying] at story
    obtain ⟨done,split,covers,silent⟩ := story
    have note : noted s (.link .replayNext) = [.sent s.requests.length record command] := by
      simp [noted,replaying,prepared]
    have same : asRecord command = record := by
      rw [(prepareReplay_some prepared).1]
      exact asRecord_replayed s.app.gateway record
    rw [note,← same,System.write]
    split
    · refine ⟨done,notes,command,none,same ▸ split,rfl,covers,List.getElem?_concat_length,?_⟩
      intro on prompt
      obtain ⟨engine,gateway⟩ := silent on prompt
      exact .written (by simp [engine]) gateway
    · refine ⟨done,notes,command,none,same ▸ split,rfl,covers,List.getElem?_concat_length,?_⟩
      intro on prompt
      obtain ⟨engine,gateway⟩ := silent on prompt
      exact .answering engine (by rw [List.map_nil]; exact gateway) (.inl rfl)

theorem Story.replayAwaited (story : Story punctual records s notes) (addressed : Addressed s)
    (ran : s.link .replayAwaited = some s') :
    Story punctual records s' (notes ++ noted s (.link .replayAwaited)) := by
  obtain ⟨n,rest,awaiting,rfl⟩ := System.replayAwaited_cases ran
  rw [Story,awaiting] at story
  obtain ⟨done,before,command,mailbox,split,rfl,covers,request,pending⟩ := story
  have note : noted s (.link .replayAwaited) = [.awaited n mailbox] := by simp [noted,awaiting,request]
  rw [note,List.append_assoc]
  refine ⟨done ++ [asRecord command],by simp [split],covers.resubmitted rfl ?_ ?_,?_⟩
  · rintro answer rfl
    exact addressed.mailboxes n _ answer request rfl
  · rintro on prompt answer rfl
    cases pending on prompt with
    | answered _ own => exact own
  · intro on prompt
    cases pending on prompt.left with
    | answered silent _ => exact silent
    | written => exact absurd (by simp) (prompt n)
    | answering => exact absurd (by simp) (prompt n)

theorem Story.unnoted {event : Event} (story : Story punctual records s' notes) (nothing : noted s event = []) :
    Story punctual records s' (notes ++ noted s event) := by
  rw [nothing,List.append_nil]
  exact story

theorem Story.link (story : Story punctual records s notes) (addressed : Addressed s) {event : Link}
    (same : ∀ readable, event ≠ .connect readable) (ran : s.link event = some s') : Story punctual records s' (notes ++ noted s (.link event)) := by
  cases event with
  | connect readable => exact absurd rfl (same readable)
  | replayNext => exact story.replayNext ran
  | replayAwaited => exact story.replayAwaited addressed ran
  | connectFails =>
    obtain ⟨_,rfl⟩ := System.connectFails_cases ran
    exact Story.unnoted (story.aside rfl rfl rfl (fun _ _ request _ => request)) rfl
  | replayNextFails =>
    obtain ⟨record,rest,app,command,replaying,_,_,rfl⟩ := System.replayNextFails_cases ran
    rw [Story,replaying] at story
    obtain ⟨done,split,covers,_⟩ := story
    have note : noted s (.link .replayNextFails) = [.refused record] := by simp [noted,replaying]
    rw [note]
    exact ⟨done,record,rest,notes,split,rfl,covers⟩
  | endRestore =>
    obtain ⟨replaying,rfl⟩ | ⟨failing,rfl⟩ := System.endRestore_cases ran
    · rw [Story,replaying] at story
      obtain ⟨done,split,covers,_⟩ := story
      rw [List.append_nil] at split
      subst split
      have note : noted s (.link .endRestore) = [.returned true] := by simp [noted,replaying]
      rw [note]
      exact ⟨notes,rfl,covers⟩
    · rw [Story,failing] at story
      obtain ⟨done,record,rest,before,split,rfl,covers⟩ := story
      have note : noted s (.link .endRestore) = [.returned false] := by simp [noted,failing]
      rw [note]
      exact ⟨done,record,rest,before,split,by simp,covers⟩
  | abandon =>
    obtain ⟨broken,rfl⟩ := System.abandon_cases ran
    rw [Story,broken] at story
    exact Story.unnoted (.inl story) rfl
  | serve =>
    obtain ⟨restored,rfl⟩ := System.serve_cases ran
    rw [Story,restored] at story
    obtain ⟨before,rfl,covers⟩ := story
    exact ⟨before,by simp [noted],covers⟩
  | forwardFails =>
    obtain ⟨_,_,live,_,_,rfl⟩ := System.forwardFails_cases ran
    rw [Story,live] at story
    exact Story.unnoted story rfl
  | readerEnds =>
    obtain ⟨live,_,_,rfl⟩ := System.readerEnds_cases ran
    rw [Story,live] at story
    exact Story.unnoted story rfl
  | disconnect =>
    obtain ⟨closing,rfl⟩ := System.disconnect_cases ran
    rw [Story,closing] at story
    exact Story.unnoted story rfl
  | failAll =>
    obtain ⟨closed,rfl⟩ := System.failAll_cases ran
    rw [Story,closed] at story
    exact Story.unnoted (.inr story) rfl
  | cut frames events =>
    have moved := System.cut_cases ran
    refine Story.unnoted (story.frames (by rw [moved.2]) ?_ ?_) rfl
    · intro silent
      rw [moved.2]
      exact ⟨rfl,by simp [silent.2]⟩
    · intro n command mailbox request
      exact ⟨mailbox,by rw [moved.2]; exact request,fun pending => pending.cut ran⟩
  | processStray =>
    obtain ⟨_,_,_,_,_,_,rfl⟩ := System.processStray_cases ran
    exact Story.unnoted (story.aside rfl rfl rfl (fun _ _ request _ => request)) rfl
  | restartEngine =>
    obtain ⟨_,rfl⟩ := System.restartEngine_cases ran
    exact Story.unnoted (story.aside rfl rfl rfl (fun _ _ request _ => request)) rfl

theorem Story.step (story : Story punctual records s notes) (sound : Sound s.engine) (addressed : Addressed s) {event : Event}
    (same : ∀ readable, event ≠ .link (.connect readable)) (ran : s.step event = some s') :
    Story punctual records s' (notes ++ noted s event) := by
  cases event with
  | traffic event =>
    exact (story.traffic sound ran).unnoted rfl
  | link event => exact story.link addressed (fun readable other => same readable (congrArg Event.link other)) ran

/-- Nothing is replayed without a journal, if it cannot be read, or if it is empty. -/
theorem connect_skips {readable : Bool} (ran : s.link (.connect readable) = some s')
    (skips : s.app.journal = none ∨ ∃ records, s.app.journal = some records ∧ (readable = false ∨ records = [])) :
    s'.manager = .restored ∧ noted s (.link (.connect readable)) = [.returned true] := by
  have down := (System.connect_cases ran).1
  rcases skips with missing | ⟨records,journal,skips⟩
  · simp only [System.link,down,AppState.resetBook,missing,Option.some.injEq] at ran
    exact ⟨by rw [← ran],by simp [noted,missing]⟩
  · simp only [System.link,down,AppState.resetBook,journal,if_pos skips,Option.some.injEq] at ran
    exact ⟨by rw [← ran],by simp [noted,journal,skips]⟩

/-- The manager begins with the records of the file, and with nothing on its way. -/
theorem story_connect {file : Option (Except ErrorKind (List JournalLine))} {readable : Bool} (linked : Linked s)
    (reads : Reads file s readable) (ran : s.link (.connect readable) = some s') :
    Story punctual (toReplay file) s' (noted s (.link (.connect readable))) := by
  have skipped : (s.app.journal = none ∨ ∃ records, s.app.journal = some records ∧ (readable = false ∨ records = [])) →
      toReplay file = [] → Story punctual (toReplay file) s' (noted s (.link (.connect readable))) := by
    intro skips nothing
    obtain ⟨restored,note⟩ := connect_skips ran skips
    rw [Story,restored,note,nothing]
    exact ⟨[],rfl,.nil⟩
  cases file with
  | none => exact skipped (.inl reads) rfl
  | some file =>
    rw [Reads] at reads
    cases read : readRecords file with
    | error kind =>
      rw [read] at reads
      obtain ⟨records,journal⟩ := Option.isSome_iff_exists.mp reads.1
      exact skipped (.inr ⟨records,journal,.inl reads.2⟩) (by simp [toReplay,read])
    | ok records =>
      rw [read] at reads
      obtain ⟨journal,rfl⟩ := reads
      by_cases empty : records = []
      · exact skipped (.inr ⟨records,journal,.inr empty⟩) (by simp [toReplay,read,empty])
      · have down := (System.connect_cases ran).1
        obtain ⟨off,gateway⟩ := linked.down down
        simp only [System.link,down,AppState.resetBook,journal,empty,Bool.true_eq_false,or_self,if_false,
          Option.some.injEq] at ran
        have note : noted s (.link (.connect true)) = [] := by simp [noted,journal,empty]
        have all : toReplay (some file) = records := by simp [toReplay,read]
        rw [note,all,← ran]
        exact ⟨[],rfl,.nil,fun _ _ => ⟨linked.silent off,gateway⟩⟩

/-- What holds of a session: with every late turn its replies may be those of others. -/
theorem Session.told {file : Option (Except ErrorKind (List JournalLine))} {start now : Lingering maxOrders maxPriceLevels}
    {lates : Nat} (linked : Linked start.system) (addressed : Addressed start.system)
    (session : Session file start notes lates now) :
    Linked now.system ∧ Addressed now.system ∧ Story (lates = 0) (toReplay file) now.system notes := by
  induction session with
  | connect reads ran => exact ⟨linked.turn ran,addressed.turn ran,story_connect linked reads (step_cases ran).1⟩
  | step session same ran ih =>
    obtain ⟨linked,addressed,story⟩ := ih
    exact ⟨linked.turn ran,addressed.turn ran,story.step linked.sound addressed same (step_cases ran).1⟩
  | late session ran ih =>
    obtain ⟨linked,addressed,story⟩ := ih
    refine ⟨linked.turn ran,addressed.turn ran,?_⟩
    obtain ⟨frame,msg,rest,_,rfl⟩ := late_cases ran
    refine story.late (Nat.succ_ne_zero _) ?_ (fun n command mailbox request => deliver_request _ request)
    cases (AppState.handleEngineEvent _ _ msg).2 with
    | none => rfl
    | some reply => rfl

/-! ### What the notes say -/

/-- The notes of the loop itself. -/
def OfRecord : Note → Prop
  | .sent _ _ _ => True
  | .awaited _ _ => True
  | .skipped _ => True
  | _ => False

theorem Covers.ofRecord (covers : Covers punctual records notes) : ∀ note ∈ notes, OfRecord note := by
  induction covers with
  | nil => simp
  | skipped covers record ih =>
    intro note inside
    rcases List.mem_append.mp inside with before | new
    · exact ih note before
    · rw [List.mem_singleton.mp new]
      trivial
  | resubmitted covers same named own ih =>
    intro note inside
    rcases List.mem_append.mp inside with before | new
    · exact ih note before
    · rcases List.mem_cons.mp new with rfl | last
      · trivial
      · rw [List.mem_singleton.mp last]
        trivial

/-- How a session can have ended, if it has. -/
theorem Story.ends (story : Story punctual records s notes) :
    (∀ note ∈ notes, OfRecord note) ∨ Refused punctual records notes [] ∨ Refused punctual records notes [.returned false] ∨
      Over punctual records notes [] ∨ Over punctual records notes [.opened] := by
  rw [Story] at story
  split at story
  · obtain ⟨done,_,covers,_⟩ := story
    exact .inl covers.ofRecord
  · obtain ⟨done,before,command,mailbox,_,rfl,covers,_⟩ := story
    refine .inl ?_
    intro note inside
    rcases List.mem_append.mp inside with earlier | last
    · exact covers.ofRecord note earlier
    · rw [List.mem_singleton.mp last]
      trivial
  · exact .inr (.inl story)
  · exact .inr (.inr (.inl story))
  · exact .inr (.inr (.inr (.inl story)))
  · exact .inr (.inr (.inr (.inr story)))
  · exact .inr (.inr (.inr (.inr story)))
  · exact .inr (.inr (.inr (.inr story)))
  · rcases story with refused | finished
    · exact .inr (.inr (.inl refused))
    · exact .inr (.inr (.inr (.inr finished)))

end

/-- A bid, an ask that trades with it and a cancel of what is left, with a blank line. -/
def traded : List JournalLine :=
  [.record (.New 5 .Buy 100 5),.blank,.record (.New 6 .Sell 100 2),.record (.Cancel 5)]

end HyperMatch.Sessions
