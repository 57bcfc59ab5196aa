import HyperMatch.Correlation

/-!
Readers that outlive their connection. `JoinHandle::abort` stops a task where it waits
next, so the reader of a connection that is given up may still handle events that it has
received, at any time later on. The system of `GatewayServer` is the one in which every
aborted reader stops at once (`punctual_system`, `system_punctual`). Whoever handles an
event, a reply is a terminator that names the identifier of its request.
-/
namespace HyperMatch.LateReaders
open HyperMatch.Wire HyperMatch.Matching HyperMatch.MatchingEngine HyperMatch.Streams HyperMatch.Runs
open HyperMatch.AppState (terminatorId)
open HyperMatch.OrderBook (PoolCapacity)

variable {maxOrders maxPriceLevels : PoolCapacity}

/-- The system, and for each reader that was aborted the events that it may still handle. -/
structure Lingering (maxOrders maxPriceLevels : PoolCapacity) where
  system : System maxOrders maxPriceLevels
  readers : List (List (Frame × BinaryMessage))

/-- A step of the system, or the next event of a reader that was aborted. -/
inductive Turn where
  | step (event : Event)
  | late (reader : Nat) (now : UInt64)
  deriving Repr, DecidableEq

/-- What the readers that a step aborts have received. -/
def aborted (s : System maxOrders maxPriceLevels) : Event → List (List (Frame × BinaryMessage))
  | .link .abandon => [s.toGateway]
  | .link .failAll => [s.toGateway]
  | _ => []

def turn (s : Lingering maxOrders maxPriceLevels) : Turn → Option (Lingering maxOrders maxPriceLevels)
  | .step event => do
    let system ← s.system.step event
    return ⟨system,s.readers ++ aborted s.system event⟩
  | .late reader now =>
    match s.readers[reader]? with
    | some ((_,msg) :: rest) =>
      let (app,sent) := s.system.app.handleEngineEvent now msg
      let system := { s.system with app := app }
      some ⟨system.deliver sent,s.readers.set reader rest⟩
    | _ => none

def new (journal : Option (List JournalRecord)) : Lingering maxOrders maxPriceLevels := ⟨.new journal,[]⟩

section
variable {s s' : Lingering maxOrders maxPriceLevels}

theorem step_cases {event : Event} (ran : turn s (.step event) = some s') :
    s.system.step event = some s'.system ∧ s'.readers = s.readers ++ aborted s.system event := by
  obtain ⟨system,stepped,same⟩ := Option.bind_eq_some_iff.mp ran
  cases same
  exact ⟨stepped,rfl⟩

theorem late_cases {reader : Nat} {now : UInt64} (ran : turn s (.late reader now) = some s') : ∃ frame msg rest,
    s.readers[reader]? = some ((frame,msg) :: rest) ∧
      s' = ⟨{ s.system with app := (s.system.app.handleEngineEvent now msg).1 }.deliver
        (s.system.app.handleEngineEvent now msg).2,s.readers.set reader rest⟩ := by
  rw [turn] at ran
  split at ran
  · rename_i frame msg rest held
    exact ⟨frame,msg,rest,held,(Option.some.inj ran).symm⟩
  · cases ran

/-! ### Readers that stop at once -/

/-- No reader that was aborted goes on. -/
def Punctual (_ : Lingering maxOrders maxPriceLevels) : Turn → Prop
  | .step _ => True
  | .late _ _ => False

theorem punctual_system (leads : Leads turn Punctual s s') : Leads System.step (fun _ _ => True) s.system s'.system := by
  induction leads with
  | start => exact .start
  | @step before after event _ may taken ih =>
    cases event with
    | step event => exact ih.step trivial (step_cases taken).1
    | late reader now => exact may.elim

theorem system_punctual {system : System maxOrders maxPriceLevels}
    (leads : Leads System.step (fun _ _ => True) s.system system) :
    ∃ readers, Leads turn Punctual s ⟨system,readers⟩ := by
  induction leads with
  | start => exact ⟨s.readers,.start⟩
  | @step before after event _ _ taken ih =>
    obtain ⟨readers,first⟩ := ih
    have turned : turn ⟨before,readers⟩ (.step event) = some ⟨after,readers ++ aborted before event⟩ := by
      simp [turn,taken]
    exact ⟨readers ++ aborted before event,first.step (by trivial) turned⟩
end

/-! ### Whose replies they are -/

/-- An entry belongs to a request with its identifier, and a reply is a terminator that
    names the identifier of the request that holds it. -/
structure Addressed (s : System maxOrders maxPriceLevels) : Prop where
  entries : ∀ id entry, s.app.inflight.lookup id = some entry →
    ∃ request, s.requests[entry.responder]? = some request ∧ request.command.orderId = id
  mailboxes : ∀ (n : Nat) (request : Request) (reply : EngineReply), s.requests[n]? = some request →
    request.mailbox = some reply → terminatorId reply.terminator = some request.command.orderId

section
variable {s s' : System maxOrders maxPriceLevels}

/-- A step that registers nothing and delivers nothing. -/
theorem Addressed.aside (addressed : Addressed s) (later : Later s.requests s'.requests)
    (mail : SameMail s.requests s'.requests)
    (entries : ∀ id entry, s'.app.inflight.lookup id = some entry →
      ∃ old, s.app.inflight.lookup id = some old ∧ entry.responder = old.responder) : Addressed s' := by
  constructor
  · intro id entry looked
    obtain ⟨old,before,responder⟩ := entries id entry looked
    obtain ⟨request,found,same⟩ := addressed.entries id old before
    obtain ⟨request',found',command,_⟩ := later _ _ found
    exact ⟨request',responder ▸ found',by rw [command,same]⟩
  · intro n request reply found held
    obtain ⟨old,before,command,held'⟩ := mail n request reply found held
    rw [← command]
    exact addressed.mailboxes n old reply before held'

/-- A registration for a request of its identifier. -/
theorem Addressed.register (addressed : Addressed s) (later : Later s.requests s'.requests)
    (mail : SameMail s.requests s'.requests) {n : Nat} {request : Request} {entry : InFlight}
    (found : s'.requests[n]? = some request) (responder : entry.responder = n)
    (inflight : s'.app.inflight = s.app.inflight.insert request.command.orderId entry) : Addressed s' := by
  have kept : Addressed { s' with app := s.app } := addressed.aside later mail (fun _ entry looked => ⟨entry,looked,rfl⟩)
  refine ⟨?_,kept.mailboxes⟩
  intro id other looked
  rw [inflight] at looked
  rcases Projection.lookup_insert_some looked with ⟨rfl,rfl⟩ | ⟨_,old⟩
  · exact ⟨request,responder ▸ found,rfl⟩
  · exact kept.entries id other old

/-- An event, whoever handles it. -/
theorem Addressed.handle (addressed : Addressed s) {now : UInt64} {msg : BinaryMessage}
    (app : s'.app = (s.app.handleEngineEvent now msg).1)
    (requests : s'.requests = (s.deliver (s.app.handleEngineEvent now msg).2).requests) : Addressed s' := by
  have none : (s.app.handleEngineEvent now msg).2 = none → (∀ id entry,
      (s.app.handleEngineEvent now msg).1.inflight.lookup id = some entry →
        ∃ old, s.app.inflight.lookup id = some old ∧ entry.responder = old.responder) → Addressed s' := by
    intro silent entries
    rw [silent] at requests
    have same : s'.requests = s.requests := requests
    refine addressed.aside ?_ ?_ (by rw [app]; exact entries)
    · rw [same]
      exact fun _ request found => ⟨request,found,rfl,Nat.le_refl _⟩
    · rw [same]
      exact sameMail_refl _
  have terminated : ∀ id, terminatorId msg = some id → Addressed s' := by
    intro id terminates
    cases looked : s.app.inflight.lookup id with
    | none =>
      refine none (by rw [AppState.handle_missing terminates looked]) ?_
      rw [AppState.handle_missing terminates looked]
      exact fun _ entry found => ⟨entry,found,rfl⟩
    | some entry =>
      obtain ⟨after,handled,_,inflight,_⟩ := AppState.handle_found terminates looked now
      obtain ⟨request,found,named⟩ := addressed.entries id entry looked
      rw [handled] at app requests
      have delivered : s'.requests = s.requests.modify entry.responder (Request.deliver ⟨msg,entry.fills⟩) := requests
      have kept : Later s.requests s'.requests := delivered ▸ later_deliver _ _ _
      constructor
      · intro other entry' looked'
        rw [app,inflight] at looked'
        obtain ⟨owner,found',named'⟩ := addressed.entries other entry' (lookup_erase_some looked').2
        obtain ⟨owner',found'',command,_⟩ := kept _ _ found'
        exact ⟨owner',found'',by rw [command,named']⟩
      · intro n holder reply held mailbox
        rw [delivered] at held
        rcases Correlation.deliver_mail held mailbox with ⟨old,before,command,mailbox'⟩ | ⟨rfl,rfl,old,before,command⟩
        · rw [← command]
          exact addressed.mailboxes n old reply before mailbox'
        · cases found.symm.trans before
          rw [← command,named]
          exact terminates
  cases msg with
  | newOrder m => exact none rfl (fun _ entry found => ⟨entry,found,rfl⟩)
  | cancelOrder c => exact none rfl (fun _ entry found => ⟨entry,found,rfl⟩)
  | trade t =>
    obtain ⟨after,handled,_,_,inflight,_⟩ := AppState.handle_trade s.app now t
    refine none (by rw [handled]) ?_
    intro id entry looked
    rw [handled] at looked
    dsimp only at looked
    rw [inflight] at looked
    obtain ⟨old,before,responder,_⟩ := accumulate_entries s.app t looked
    exact ⟨old,before,responder⟩
  | ack a => exact terminated a.orderId rfl
  | reject r => exact terminated r.orderId rfl

theorem Addressed.move (addressed : Addressed s) {n : Nat} {request : Request} {phase : Phase}
    (found : s.requests[n]? = some request) (moves : rank request.phase ≤ rank phase) : Addressed (s.move n phase) :=
  addressed.aside (later_move found moves) (sameMail_move s n phase) (fun _ entry looked => ⟨entry,looked,rfl⟩)

theorem Addressed.append (addressed : Addressed s) (command : Command) (phase : Phase)
    (app : s'.app.inflight = s.app.inflight) (requests : s'.requests = s.requests ++ [⟨command,phase,none⟩]) :
    Addressed s' := by
  refine addressed.aside ?_ ?_ ?_
  · rw [requests]
    exact later_append _ _
  · rw [requests]
    exact sameMail_append _ _ _
  · rw [app]
    exact fun _ entry looked => ⟨entry,looked,rfl⟩

/-- Entries can go, and what is no request can change. -/
theorem Addressed.entries_go (addressed : Addressed s) (requests : s'.requests = s.requests)
    (entries : ∀ id entry, s'.app.inflight.lookup id = some entry → s.app.inflight.lookup id = some entry) :
    Addressed s' := by
  constructor
  · rw [requests]
    exact fun id entry looked => addressed.entries id entry (entries id entry looked)
  · rw [requests]
    exact addressed.mailboxes

theorem Addressed.traffic (addressed : Addressed s) {event : Traffic} (ran : s.traffic event = some s') : Addressed s' := by
  cases event with
  | postOrder body =>
    rcases System.postOrder_cases ran with rfl | ⟨m,gateway,_,_,_,_,rfl⟩
    · exact addressed
    · exact addressed.append (.newOrder m) .arrived rfl rfl
  | postCancel orderId =>
    rw [System.postCancel_cases ran]
    exact addressed.append (.cancelOrder ⟨orderId⟩) .arrived rfl rfl
  | check n =>
    obtain ⟨command,mailbox,found,rfl⟩ := System.check_cases ran
    exact addressed.move found (Nat.zero_le _)
  | register n =>
    obtain ⟨command,mailbox,found,rfl | ⟨app,prepared,rfl⟩⟩ := System.register_cases ran
    · exact addressed.move found (by simp [rank])
    · obtain ⟨_,entry,_,_,responder,rfl⟩ := prepare_some prepared
      exact addressed.register (later_move found (by simp [rank])) (sameMail_move s n .registered) (move_self found) responder rfl
  | send n =>
    obtain ⟨command,mailbox,found,rfl⟩ := System.send_cases ran
    have moved : Addressed (s.move n .waiting) := addressed.move found (by simp [rank])
    exact ⟨moved.entries,moved.mailboxes⟩
  | receive n =>
    obtain ⟨command,reply,found,rfl⟩ := System.receive_cases ran
    exact addressed.move found (by simp [rank])
  | giveUp n =>
    obtain ⟨command,found,rfl⟩ := System.giveUp_cases ran
    exact addressed.move found (by simp [rank])
  | drop n =>
    obtain ⟨command,mailbox,found,rfl⟩ := System.drop_cases ran
    have moved : Addressed (s.move n .unavailable) := addressed.move found (by simp [rank])
    exact moved.entries_go rfl (fun id entry looked => (lookup_erase_some looked).2)
  | forward =>
    obtain ⟨frame,rest,_,_,rfl⟩ := System.forward_cases ran
    rw [System.write]
    split
    · exact addressed.entries_go rfl (fun _ _ looked => looked)
    · exact addressed.entries_go rfl (fun _ _ looked => looked)
  | process =>
    obtain ⟨frame,rest,events,engine,_,_,rfl⟩ := System.process_cases ran
    exact addressed.entries_go rfl (fun _ _ looked => looked)
  | handle now =>
    obtain ⟨frame,msg,rest,_,rfl⟩ := System.handle_cases ran
    refine addressed.handle (?_ : _ = (s.app.handleEngineEvent now msg).1) ?_
    · rw [System.deliver_eq]
    · exact System.deliver_requests (by rfl) _

theorem Addressed.link (addressed : Addressed s) {event : Link} (ran : s.link event = some s') : Addressed s' := by
  have same : ∀ {t : System maxOrders maxPriceLevels}, t.requests = s.requests → t.app.inflight = s.app.inflight →
      Addressed t := by
    intro t requests inflight
    exact addressed.entries_go requests (by rw [inflight]; exact fun _ _ looked => looked)
  have failed : ∀ {t : System maxOrders maxPriceLevels}, t.requests = s.requests → t.app.inflight = ∅ → Addressed t := by
    intro t requests inflight
    refine addressed.entries_go requests ?_
    rw [inflight]
    intro id entry looked
    cases looked
  cases event with
  | connect readable =>
    obtain ⟨_,⟨_,rfl⟩ | ⟨records,_,rfl⟩⟩ := System.connect_cases ran
    · exact same rfl rfl
    · exact same rfl rfl
  | connectFails =>
    obtain ⟨_,rfl⟩ := System.connectFails_cases ran
    exact same rfl rfl
  | replayNext =>
    obtain ⟨record,rest,app,_,⟨prepared,rfl⟩ | ⟨command,prepared,rfl⟩⟩ := System.replayNext_cases ran
    · obtain ⟨gateway,rfl⟩ := prepareReplay_none prepared
      exact same rfl rfl
    · obtain ⟨_,_,gateway,entry,_,_,_,responder,rfl⟩ := prepareReplay_some prepared
      have registered : Addressed { s with
          app := { s.app with gateway := gateway, inflight := s.app.inflight.insert command.orderId entry }
          requests := s.requests ++ [Request.mk command .replay none] } :=
        addressed.register (later_append _ _) (sameMail_append _ _ _) List.getElem?_concat_length responder rfl
      rw [System.write]
      split
      · exact registered.entries_go rfl (fun _ _ looked => looked)
      · exact registered.entries_go rfl (fun _ _ looked => looked)
  | replayNextFails =>
    obtain ⟨record,rest,app,command,_,_,prepared,rfl⟩ := System.replayNextFails_cases ran
    obtain ⟨_,_,gateway,entry,_,_,_,_,rfl⟩ := prepareReplay_some prepared
    refine addressed.entries_go rfl ?_
    intro id other looked
    obtain ⟨differs,inserted⟩ := lookup_erase_some looked
    exact (Finmap.lookup_insert_of_ne _ differs).symm.trans inserted
  | replayAwaited =>
    obtain ⟨_,_,_,rfl⟩ := System.replayAwaited_cases ran
    exact same rfl rfl
  | endRestore =>
    obtain ⟨_,rfl⟩ | ⟨_,rfl⟩ := System.endRestore_cases ran
    · exact same rfl rfl
    · exact same rfl rfl
  | abandon =>
    obtain ⟨_,rfl⟩ := System.abandon_cases ran
    exact failed rfl rfl
  | serve =>
    obtain ⟨_,rfl⟩ := System.serve_cases ran
    exact same rfl rfl
  | forwardFails =>
    obtain ⟨_,_,_,_,_,rfl⟩ := System.forwardFails_cases ran
    exact same rfl rfl
  | readerEnds =>
    obtain ⟨_,_,_,rfl⟩ := System.readerEnds_cases ran
    exact same rfl rfl
  | disconnect =>
    obtain ⟨_,rfl⟩ := System.disconnect_cases ran
    exact same rfl rfl
  | failAll =>
    obtain ⟨_,rfl⟩ := System.failAll_cases ran
    exact failed rfl rfl
  | cut frames events =>
    obtain ⟨_,rfl⟩ := System.cut_cases ran
    exact same rfl rfl
  | processStray =>
    obtain ⟨_,_,_,_,_,_,rfl⟩ := System.processStray_cases ran
    exact same rfl rfl
  | restartEngine =>
    obtain ⟨_,rfl⟩ := System.restartEngine_cases ran
    exact same rfl rfl
end

section
variable {s s' : Lingering maxOrders maxPriceLevels}

/-- Every turn keeps it, a late one too. -/
theorem Addressed.turn (addressed : Addressed s.system) {event : Turn} (ran : turn s event = some s') :
    Addressed s'.system := by
  cases event with
  | step event =>
    have ran := (step_cases ran).1
    cases event with
    | traffic event => exact addressed.traffic ran
    | link event => exact addressed.link ran
  | late reader now =>
    obtain ⟨frame,msg,rest,_,rfl⟩ := late_cases ran
    refine addressed.handle (?_ : _ = (s.system.app.handleEngineEvent now msg).1) ?_
    · rw [System.deliver_eq]
    · exact System.deliver_requests (by rfl) _
end

end HyperMatch.LateReaders
