import HyperMatch.Outstanding

/-!
Which frames the manager writes. A frame waits in the command channel across
connections, but its entry can go before it: when its handler gives up, when a
disconnect fails all that is in flight, or by a terminator that was meant for another
request. As long as none of these takes the entry of a request whose frame has not been
written, every frame that is taken from the channel belongs to a handler that waits.
-/
namespace HyperMatch.Orphans
open HyperMatch.Wire HyperMatch.Matching HyperMatch.Streams HyperMatch.Runs
open HyperMatch.OrderBook (PoolCapacity)
open HyperMatch.AppState (terminatorId)

variable {maxOrders maxPriceLevels : PoolCapacity}

/-- The frames of registered requests that have not been written. -/
def unwritten (s : System maxOrders maxPriceLevels) : List Frame := s.channel ++ unsent s.requests

/-- The entry of a request whose frame has not been written. -/
def Waits (s : System maxOrders maxPriceLevels) (entry : InFlight) : Prop := ∃ frame ∈ unwritten s, frame.owner = entry.responder

/-- No entry of a request whose frame has not been written is taken, and no handler
    gives up before its frame has been taken from the channel. -/
def SparesUnwritten (s : System maxOrders maxPriceLevels) : Event → Prop
  | .traffic (.giveUp n) => ∀ frame ∈ s.channel, frame.owner ≠ n
  | .traffic (.drop n) =>
    ∀ request ∈ s.requests[n]?, ∀ entry ∈ s.app.inflight.lookup request.command.orderId, ¬ Waits s entry
  | .traffic (.handle _) =>
    ∀ p ∈ s.toGateway.head?, ∀ id ∈ terminatorId p.2, ∀ entry ∈ s.app.inflight.lookup id, ¬ Waits s entry
  | .link .failAll => unwritten s = []
  | .link .abandon => unwritten s = []
  | _ => True

/-! ### Requests before their registration -/

/-- A handler that has not registered has no reply. -/
def Early (requests : List Request) : Prop :=
  ∀ (n : Nat) (r : Request), requests[n]? = some r → rank r.phase < 2 → r.mailbox = none

theorem early_append {requests : List Request} (early : Early requests) (command : Command) (phase : Phase) :
    Early (requests ++ [⟨command,phase,none⟩]) := by
  intro n r found before
  rcases Nat.lt_or_ge n requests.length with old | new
  · rw [List.getElem?_append_left old] at found
    exact early n r found before
  · rw [List.getElem?_append_right new,List.getElem?_singleton] at found
    split_ifs at found
    cases found
    rfl

theorem early_move {s : System maxOrders maxPriceLevels} (early : Early s.requests) {n : Nat} {request : Request}
    {phase : Phase} (found : s.requests[n]? = some request) (onward : rank phase < 2 → rank request.phase < 2) :
    Early (s.move n phase).requests := by
  intro m r found' before
  by_cases same : m = n
  · subst same
    rw [move_self found] at found'
    cases found'
    exact early m request found (onward before)
  · rw [move_other same] at found'
    exact early m r found' before

theorem early_deliver {requests : List Request} (early : Early requests) (n : Nat) (reply : EngineReply) :
    Early (requests.modify n (Request.deliver reply)) := by
  intro m r found before
  rw [List.getElem?_modify] at found
  cases looked : requests[m]? with
  | none =>
    rw [looked] at found
    cases found
  | some old =>
    rw [looked] at found
    by_cases same : n = m
    · simp only [same,if_true,Option.map_eq_map,Option.map_some,Option.some.injEq] at found
      subst found
      rw [deliver_phase] at before
      have none := early m old looked before
      obtain ⟨command,phase,mailbox⟩ := old
      cases phase with
      | arrived => exact none
      | checked => exact none
      | registered => exact absurd before (Nat.lt_irrefl 2)
      | waiting => exact absurd before (Nat.not_succ_le_self 3 ∘ Nat.le_succ_of_le)
      | failed => exact none
      | unavailable => exact none
      | answered => exact none
      | replay => exact absurd before (Nat.not_succ_le_self 3 ∘ Nat.le_succ_of_le)
    · simp only [same,if_false,Option.map_eq_map,Option.map_some,Option.some.injEq] at found
      subst found
      exact early m _ looked before

/-! ### Frames and their entries -/

/-- Every frame that has not been written has its own entry, and its handler has
    neither been answered nor given up. -/
structure Attended (s : System maxOrders maxPriceLevels) : Prop where
  early : Early s.requests
  entries : ∀ frame ∈ unwritten s, ∃ entry, s.app.inflight.lookup frame.command.orderId = some entry ∧
    entry.responder = frame.owner
  queued : ∀ frame ∈ s.channel, s.requests[frame.owner]? = some ⟨frame.command,.waiting,none⟩
  silent : ∀ frame ∈ unsent s.requests, s.requests[frame.owner]? = some ⟨frame.command,.registered,none⟩

section
variable {s s' : System maxOrders maxPriceLevels}

theorem attended_new (journal : Option (List JournalRecord)) :
    Attended (System.new journal : System maxOrders maxPriceLevels) := by
  constructor
  · intro n r found
    cases found
  · intro frame inside
    cases inside
  · intro frame inside
    cases inside
  · intro frame inside
    cases inside

/-- Steps that leave the frames that wait and their requests alone. -/
theorem Attended.kept (attended : Attended s) (early : Early s'.requests) (channel : ∀ frame ∈ s'.channel, frame ∈ s.channel)
    (unsent' : ∀ frame ∈ unsent s'.requests, frame ∈ unsent s.requests)
    (requests : ∀ frame ∈ unwritten s, s'.requests[frame.owner]? = s.requests[frame.owner]?)
    (entries : ∀ frame ∈ unwritten s, ∀ entry, s.app.inflight.lookup frame.command.orderId = some entry →
      ∃ entry', s'.app.inflight.lookup frame.command.orderId = some entry' ∧ entry'.responder = entry.responder) :
    Attended s' := by
  have old : ∀ frame ∈ unwritten s', frame ∈ unwritten s := by
    intro frame inside
    rcases List.mem_append.mp inside with queued | waiting
    · exact List.mem_append_left _ (channel frame queued)
    · exact List.mem_append_right _ (unsent' frame waiting)
  constructor
  · exact early
  · intro frame inside
    obtain ⟨entry,found,owner⟩ := attended.entries frame (old frame inside)
    obtain ⟨entry',found',same⟩ := entries frame (old frame inside) entry found
    exact ⟨entry',found',same.trans owner⟩
  · intro frame inside
    rw [requests frame (List.mem_append_left _ (channel frame inside))]
    exact attended.queued frame (channel frame inside)
  · intro frame inside
    rw [requests frame (List.mem_append_right _ (unsent' frame inside))]
    exact attended.silent frame (unsent' frame inside)

theorem Attended.request (attended : Attended s) {frame : Frame} (inside : frame ∈ unwritten s) :
    s.requests[frame.owner]? = some ⟨frame.command,.waiting,none⟩ ∨
      s.requests[frame.owner]? = some ⟨frame.command,.registered,none⟩ := by
  rcases List.mem_append.mp inside with queued | waiting
  · exact .inl (attended.queued frame queued)
  · exact .inr (attended.silent frame waiting)

/-- A handler whose frame does not wait to be written moves on. -/
theorem Attended.moved (attended : Attended s) {n : Nat} {request : Request} {phase : Phase} {app : AppState}
    (found : s.requests[n]? = some request) (before : request.phase ≠ .registered) (after : phase ≠ .registered)
    (onward : rank phase < 2 → rank request.phase < 2)
    (others : ∀ frame ∈ s.channel, frame.owner ≠ n)
    (entries : ∀ frame ∈ unwritten s, ∀ entry, s.app.inflight.lookup frame.command.orderId = some entry →
      ∃ entry', app.inflight.lookup frame.command.orderId = some entry' ∧ entry'.responder = entry.responder) :
    Attended ({ s with app := app }.move n phase) := by
  refine attended.kept (early_move attended.early found onward) (fun _ inside => inside) ?_ ?_ entries
  · intro frame inside
    exact (mem_unsent_move found before after frame).mp inside
  · intro frame inside
    refine move_other ?_
    rintro rfl
    rcases List.mem_append.mp inside with queued | waiting
    · exact others frame queued rfl
    · obtain ⟨_,registered⟩ := mem_unsent.mp waiting
      cases found.symm.trans registered
      exact before rfl

/-- A request is added, and the entries that are waited for stay. -/
theorem Attended.added (attended : Attended s) {command : Command} {phase : Phase} (other : phase ≠ .registered)
    (requests : s'.requests = s.requests ++ [⟨command,phase,none⟩]) (channel : s'.channel = s.channel)
    (entries : ∀ id entry, s.app.inflight.lookup id = some entry → s'.app.inflight.lookup id = some entry) :
    Attended s' := by
  refine attended.kept (requests ▸ early_append attended.early _ _) (fun _ inside => channel ▸ inside) ?_ ?_ ?_
  · intro frame inside
    rw [requests] at inside
    exact (mem_unsent_append _ _ other frame).mp inside
  · intro frame inside
    rw [requests]
    rcases attended.request inside with found | found
    · exact List.getElem?_append_left (List.getElem?_eq_some_iff.mp found).1
    · exact List.getElem?_append_left (List.getElem?_eq_some_iff.mp found).1
  · intro frame _ entry found
    exact ⟨entry,entries _ entry found,rfl⟩

theorem Attended.arriving (attended : Attended s) (app : AppState) (inflight : app.inflight = s.app.inflight)
    (command : Command) : Attended { s with app := app, requests := s.requests ++ [⟨command,.arrived,none⟩] } := by
  refine attended.added (by simp) rfl rfl ?_
  intro id entry found
  rw [inflight]
  exact found

/-- An entry is added under an identifier that was free. -/
theorem lookup_added {inflight : Finmap (fun _ : UInt64 => InFlight)} {id other : UInt64} {entry old : InFlight}
    (free : inflight.lookup id = none) (found : inflight.lookup other = some old) :
    (inflight.insert id entry).lookup other = some old := by
  rw [Finmap.lookup_insert_of_ne]
  · exact found
  · intro same
    rw [same,free] at found
    cases found

/-- An entry that nobody's unwritten frame has is taken. -/
theorem Attended.taken (attended : Attended s) {id : UInt64}
    (spared : ∀ entry ∈ s.app.inflight.lookup id, ¬ Waits s entry) :
    ∀ frame ∈ unwritten s, ∀ old, s.app.inflight.lookup frame.command.orderId = some old →
      (s.app.inflight.erase id).lookup frame.command.orderId = some old := by
  intro frame inside old found
  rw [Finmap.lookup_erase_ne]
  · exact found
  · intro same
    obtain ⟨entry,found',owner⟩ := attended.entries frame inside
    rw [same] at found'
    exact spared entry found' ⟨frame,inside,owner.symm⟩

theorem Attended.registered (attended : Attended s) {n : Nat} {command : Command} {mailbox : Option EngineReply}
    (found : s.requests[n]? = some ⟨command,.checked,mailbox⟩) {app : AppState}
    (prepared : s.app.prepare n command = some app) :
    Attended ({ s with app := app.recordSubmission }.move n .registered) := by
  obtain ⟨free,entry,_,_,responder,rfl⟩ := prepare_some prepared
  have empty : mailbox = none := attended.early n _ found (show 1 < 2 by omega)
  subst empty
  have others : ∀ frame ∈ unwritten s, frame.owner ≠ n := by
    rintro frame inside rfl
    rcases attended.request inside with request | request
    · cases found.symm.trans request
    · cases found.symm.trans request
  have new : ∀ frame ∈ unsent ({ s with app := ({ s.app with
      inflight := s.app.inflight.insert command.orderId entry } : AppState).recordSubmission }.move n .registered).requests,
      frame ∈ unsent s.requests ∨ frame = ⟨command,n⟩ := by
    intro frame inside
    exact (mem_unsent_registered found frame).mp inside
  constructor
  · exact early_move attended.early found (fun before => absurd before (Nat.lt_irrefl 2))
  · intro frame inside
    have place : frame ∈ unwritten s ∨ frame = ⟨command,n⟩ := by
      rcases List.mem_append.mp inside with queued | waiting
      · exact .inl (List.mem_append_left _ queued)
      · exact (new frame waiting).imp (List.mem_append_right _) id
    rcases place with old | rfl
    · obtain ⟨entry',looked,owner⟩ := attended.entries frame old
      exact ⟨entry',lookup_added free looked,owner⟩
    · exact ⟨entry,Finmap.lookup_insert _,responder⟩
  · intro frame inside
    have same := attended.queued frame inside
    rw [← same]
    exact move_other (others frame (List.mem_append_left _ inside))
  · intro frame inside
    rcases new frame inside with old | rfl
    · have same := attended.silent frame old
      rw [← same]
      exact move_other (others frame (List.mem_append_right _ old))
    · exact move_self found

theorem Attended.sending (attended : Attended s) {n : Nat} {command : Command} {mailbox : Option EngineReply}
    (found : s.requests[n]? = some ⟨command,.registered,mailbox⟩) :
    Attended ({ s with channel := s.channel ++ [Frame.mk command n] }.move n .waiting) := by
  have waiting : (⟨command,n⟩ : Frame) ∈ unsent s.requests := mem_unsent.mpr ⟨mailbox,found⟩
  have empty : mailbox = none := by
    have silent := attended.silent _ waiting
    cases found.symm.trans silent
    rfl
  subst empty
  have less : ∀ frame ∈ unsent (s.move n .waiting).requests, frame ∈ unsent s.requests := by
    intro frame inside
    exact (mem_unsent_sent found frame).mpr (.inl inside)
  constructor
  · exact early_move attended.early found (fun before => absurd before (by decide))
  · intro frame inside
    refine attended.entries frame ?_
    rcases List.mem_append.mp inside with queued | waiting'
    · rcases List.mem_append.mp queued with old | new
      · exact List.mem_append_left _ old
      · rw [List.mem_singleton.mp new]
        exact List.mem_append_right _ waiting
    · exact List.mem_append_right _ (less frame waiting')
  · intro frame inside
    rcases List.mem_append.mp inside with old | new
    · have same := attended.queued frame old
      rw [← same]
      refine move_other ?_
      rintro rfl
      cases found.symm.trans same
    · rw [List.mem_singleton.mp new]
      exact move_self found
  · intro frame inside
    have same := attended.silent frame (less frame inside)
    rw [← same]
    refine move_other ?_
    rintro rfl
    obtain ⟨_,moved⟩ := mem_unsent.mp inside
    have here : (s.move frame.owner .waiting).requests[frame.owner]? = _ := move_self found
    cases here.symm.trans moved

theorem Attended.handled (attended : Attended s) {now : UInt64} (may : SparesUnwritten s (.traffic (.handle now)))
    (ran : s.traffic (.handle now) = some s') : Attended s' := by
  obtain ⟨frame,msg,rest,next,rfl⟩ := System.handle_cases ran
  have spared : ∀ id ∈ terminatorId msg, ∀ entry ∈ s.app.inflight.lookup id, ¬ Waits s entry :=
    may (frame,msg) (by rw [next]; rfl)
  cases terminates : terminatorId msg with
  | none =>
    have plain : (∃ app', s.app.handleEngineEvent now msg = (app',none) ∧ (app' = s.app ∨
        ∃ t, app'.inflight = (s.app.accumulate t).inflight)) := by
      cases msg with
      | trade t =>
        obtain ⟨app,handled,_,_,inflight,_⟩ := AppState.handle_trade s.app now t
        exact ⟨app,handled,.inr ⟨t,inflight⟩⟩
      | newOrder m => exact ⟨s.app,rfl,.inl rfl⟩
      | cancelOrder c => exact ⟨s.app,rfl,.inl rfl⟩
      | ack a => cases terminates
      | reject r => cases terminates
    obtain ⟨app,handled,inflight⟩ := plain
    rw [handled]
    refine attended.kept attended.early (fun _ inside => inside) (fun _ inside => inside) (fun _ _ => rfl) ?_
    intro frame inside entry found
    rcases inflight with rfl | ⟨t,inflight⟩
    · exact ⟨entry,found,rfl⟩
    · obtain ⟨entry',found',same⟩ := accumulate_covers t found
      exact ⟨entry',by rw [← inflight] at found'; exact found',same⟩
  | some id =>
    cases looked : s.app.inflight.lookup id with
    | none =>
      rw [AppState.handle_missing terminates looked]
      refine attended.kept attended.early (fun _ inside => inside) (fun _ inside => inside) (fun _ _ => rfl) ?_
      exact fun _ _ entry found => ⟨entry,found,rfl⟩
    | some entry =>
      obtain ⟨app,handled,_,inflight,_⟩ := AppState.handle_found terminates looked now
      rw [handled]
      have alone := spared id terminates
      refine attended.kept (early_deliver attended.early _ _) (fun _ inside => inside) ?_ ?_ ?_
      · intro frame inside
        exact (mem_unsent_deliver _ _ _ frame).mp inside
      · intro frame inside
        have differs : entry.responder ≠ frame.owner := fun same => alone entry looked ⟨frame,inside,same.symm⟩
        rw [System.deliver,List.getElem?_modify]
        simp [differs]
      · intro frame inside old found
        exact ⟨old,by rw [← attended.taken alone frame inside old found]; exact congrArg (Finmap.lookup _) inflight,rfl⟩

/-- A handler whose frame does not wait to be written has another phase. -/
theorem Attended.apart (attended : Attended s) {n : Nat} {request : Request} (found : s.requests[n]? = some request)
    (other : ∀ command, request ≠ ⟨command,.waiting,none⟩) : ∀ frame ∈ s.channel, frame.owner ≠ n := by
  rintro frame inside rfl
  have request' := attended.queued frame inside
  exact other frame.command (Option.some.inj (found.symm.trans request'))

theorem Attended.traffic (attended : Attended s) {event : Traffic} (may : SparesUnwritten s (.traffic event))
    (ran : s.traffic event = some s') : Attended s' := by
  have same : ∀ frame ∈ unwritten s, ∀ entry, s.app.inflight.lookup frame.command.orderId = some entry →
      ∃ entry', s.app.inflight.lookup frame.command.orderId = some entry' ∧ entry'.responder = entry.responder :=
    fun _ _ entry found => ⟨entry,found,rfl⟩
  cases event with
  | postOrder body =>
    rcases System.postOrder_cases ran with rfl | ⟨m,gateway,_,_,_,_,rfl⟩
    · exact attended
    · exact attended.arriving { s.app with gateway := gateway } rfl (.newOrder m)
  | postCancel orderId =>
    rw [System.postCancel_cases ran]
    exact attended.arriving s.app rfl (.cancelOrder ⟨orderId⟩)
  | check n =>
    obtain ⟨command,mailbox,found,rfl⟩ := System.check_cases ran
    refine attended.moved found (by simp) ?_ (fun _ => Nat.zero_lt_two) (attended.apart found (by simp)) same
    split_ifs
    · decide
    · decide
  | register n =>
    obtain ⟨command,mailbox,found,rfl | ⟨app,prepared,rfl⟩⟩ := System.register_cases ran
    · exact attended.moved found (by simp) (by decide) (fun _ => Nat.one_lt_two) (attended.apart found (by simp)) same
    · exact attended.registered found prepared
  | send n =>
    obtain ⟨command,mailbox,found,rfl⟩ := System.send_cases ran
    exact attended.sending found
  | receive n =>
    obtain ⟨command,reply,found,rfl⟩ := System.receive_cases ran
    exact attended.moved found (by simp) (by decide) (fun before => absurd before (by decide))
      (attended.apart found (by simp)) same
  | giveUp n =>
    obtain ⟨command,found,rfl⟩ := System.giveUp_cases ran
    exact attended.moved found (by simp) (by decide) (fun before => absurd before (by decide)) may same
  | drop n =>
    obtain ⟨command,mailbox,found,rfl⟩ := System.drop_cases ran
    refine attended.moved found (by simp) (by decide) (fun before => absurd before (by decide))
      (attended.apart found (by simp)) ?_
    intro frame inside entry looked
    exact ⟨entry,attended.taken (may _ found) frame inside entry looked,rfl⟩
  | forward =>
    obtain ⟨frame,rest,_,queued,rfl⟩ := System.forward_cases ran
    have fewer : ∀ other ∈ rest, other ∈ s.channel := by
      intro other inside
      rw [queued]
      exact List.mem_cons_of_mem _ inside
    rw [System.write]
    split_ifs
    · exact attended.kept attended.early fewer (fun _ inside => inside) (fun _ _ => rfl) same
    · exact attended.kept attended.early fewer (fun _ inside => inside) (fun _ _ => rfl) same
  | process =>
    obtain ⟨frame,rest,events,engine,_,_,rfl⟩ := System.process_cases ran
    exact attended.kept attended.early (fun _ inside => inside) (fun _ inside => inside) (fun _ _ => rfl) same
  | handle now => exact attended.handled may ran

/-- When nothing waits to be written, all entries may go. -/
theorem Attended.failed (attended : Attended s) (nothing : unwritten s = []) {app : AppState}
    {toGateway : List (Frame × BinaryMessage)} {manager : Manager} :
    Attended { s with app := app, toGateway := toGateway, manager := manager } := by
  refine attended.kept attended.early (fun _ inside => inside) (fun _ inside => inside) (fun _ _ => rfl) ?_
  intro frame inside
  rw [nothing] at inside
  cases inside

theorem Attended.link (attended : Attended s) {event : Link} (may : SparesUnwritten s (.link event))
    (ran : s.link event = some s') : Attended s' := by
  have plain : ∀ app manager linked toEngine toGateway engine strays processed applied,
      app.inflight = s.app.inflight → Attended
        (⟨app,s.requests,s.channel,toEngine,toGateway,engine,manager,linked,strays,processed,applied⟩ :
          System maxOrders maxPriceLevels) := by
    intro app manager linked toEngine toGateway engine strays processed applied inflight
    refine attended.kept attended.early (fun _ inside => inside) (fun _ inside => inside) (fun _ _ => rfl) ?_
    intro frame _ entry found
    exact ⟨entry,by rw [inflight]; exact found,rfl⟩
  cases event with
  | connect readable =>
    obtain ⟨_,⟨_,rfl⟩ | ⟨records,_,rfl⟩⟩ := System.connect_cases ran
    · exact plain _ _ _ _ _ _ _ _ _ rfl
    · exact plain _ _ _ _ _ _ _ _ _ rfl
  | connectFails =>
    obtain ⟨_,rfl⟩ := System.connectFails_cases ran
    exact plain _ _ _ _ _ _ _ _ _ rfl
  | replayNext =>
    obtain ⟨record,rest,app,_,⟨prepared,rfl⟩ | ⟨command,prepared,rfl⟩⟩ := System.replayNext_cases ran
    · obtain ⟨gateway,rfl⟩ := prepareReplay_none prepared
      exact plain _ _ _ _ _ _ _ _ _ rfl
    · obtain ⟨_,free,gateway,entry,_,_,_,_,rfl⟩ := prepareReplay_some prepared
      have replaying : Attended { s with
          app := { s.app with
            gateway := gateway
            inflight := s.app.inflight.insert command.orderId entry }
          requests := s.requests ++ [⟨command,.replay,none⟩]
          manager := .awaiting s.requests.length rest } := by
        refine attended.added (by simp) rfl rfl ?_
        intro id old found
        exact lookup_added free found
      rw [System.write]
      split_ifs
      · exact ⟨replaying.early,replaying.entries,replaying.queued,replaying.silent⟩
      · exact replaying
  | replayNextFails =>
    obtain ⟨record,rest,app,command,_,_,prepared,rfl⟩ := System.replayNextFails_cases ran
    obtain ⟨_,free,gateway,entry,_,_,_,_,rfl⟩ := prepareReplay_some prepared
    refine attended.kept attended.early (fun _ inside => inside) (fun _ inside => inside) (fun _ _ => rfl) ?_
    intro frame _ old found
    refine ⟨old,?_,rfl⟩
    change ((s.app.inflight.insert _ entry).erase _).lookup _ = some old
    rw [Finmap.lookup_erase_ne]
    · exact lookup_added free found
    · intro same
      rw [same,free] at found
      cases found
  | replayAwaited =>
    obtain ⟨ticket,rest,_,rfl⟩ := System.replayAwaited_cases ran
    exact plain _ _ _ _ _ _ _ _ _ rfl
  | endRestore =>
    rcases System.endRestore_cases ran with ⟨_,rfl⟩ | ⟨_,rfl⟩
    · exact plain _ _ _ _ _ _ _ _ _ rfl
    · exact plain _ _ _ _ _ _ _ _ _ rfl
  | abandon =>
    obtain ⟨_,rfl⟩ := System.abandon_cases ran
    exact attended.failed may
  | serve =>
    obtain ⟨_,rfl⟩ := System.serve_cases ran
    exact plain _ _ _ _ _ _ _ _ _ rfl
  | forwardFails =>
    obtain ⟨frame,rest,_,queued,_,rfl⟩ := System.forwardFails_cases ran
    refine attended.kept attended.early ?_ (fun _ inside => inside) (fun _ _ => rfl)
      (fun _ _ entry found => ⟨entry,found,rfl⟩)
    intro other inside
    rw [queued]
    exact List.mem_cons_of_mem _ inside
  | readerEnds =>
    obtain ⟨_,_,_,rfl⟩ := System.readerEnds_cases ran
    exact plain _ _ _ _ _ _ _ _ _ rfl
  | disconnect =>
    obtain ⟨_,rfl⟩ := System.disconnect_cases ran
    exact plain _ _ _ _ _ _ _ _ _ rfl
  | failAll =>
    obtain ⟨_,rfl⟩ := System.failAll_cases ran
    exact attended.failed may
  | cut frames events =>
    obtain ⟨_,rfl⟩ := System.cut_cases ran
    exact plain _ _ _ _ _ _ _ _ _ rfl
  | processStray =>
    obtain ⟨frame,rest,events,engine,_,_,rfl⟩ := System.processStray_cases ran
    exact plain _ _ _ _ _ _ _ _ _ rfl
  | restartEngine =>
    obtain ⟨_,rfl⟩ := System.restartEngine_cases ran
    exact plain _ _ _ _ _ _ _ _ _ rfl
end

/-- A frame that the manager takes from the channel belongs to a handler that waits
    for its answer and whose entry is registered. -/
theorem forwarded_frame_registered {journal : Option (List JournalRecord)} {s s' : System maxOrders maxPriceLevels}
    (leads : Leads System.step SparesUnwritten (System.new journal) s) (forwarded : s.step (.traffic .forward) = some s') :
    ∃ frame, s.channel = frame :: s'.channel ∧
      (∃ entry, s.app.inflight.lookup frame.command.orderId = some entry ∧ entry.responder = frame.owner) ∧
      s.requests[frame.owner]? = some ⟨frame.command,.waiting,none⟩ := by
  have attended : Attended s := by
    refine leads.keeps (attended_new journal) ?_
    rintro s event s' attended may ran
    cases event with
    | traffic event => exact attended.traffic may ran
    | link event => exact attended.link may ran
  obtain ⟨frame,rest,_,queued,rfl⟩ := System.forward_cases forwarded
  have channel : ({ s with channel := rest }.write frame).channel = rest := by
    rw [System.write]
    split_ifs
    · rfl
    · rfl
  have inside : frame ∈ s.channel := by
    rw [queued]
    exact List.mem_cons_self
  refine ⟨frame,?_,attended.entries frame (List.mem_append_left _ inside),attended.queued frame inside⟩
  rw [channel]
  exact queued

instance (s : System maxOrders maxPriceLevels) (entry : InFlight) : Decidable (Waits s entry) :=
  inferInstanceAs (Decidable (∃ frame ∈ unwritten s, frame.owner = entry.responder))

instance (s : System maxOrders maxPriceLevels) : DecidablePred (SparesUnwritten s)
  | .traffic (.giveUp n) => inferInstanceAs (Decidable (∀ frame ∈ s.channel, frame.owner ≠ n))
  | .traffic (.drop n) => inferInstanceAs (Decidable (∀ request ∈ s.requests[n]?,
      ∀ entry ∈ s.app.inflight.lookup request.command.orderId, ¬ Waits s entry))
  -- named, as the search would run through all identifiers
  | .traffic (.handle _) =>
    have (p : Frame × BinaryMessage) : Decidable (∀ id ∈ terminatorId p.2,
        ∀ entry ∈ s.app.inflight.lookup id, ¬ Waits s entry) :=
      Option.decidableForallMem _
    inferInstanceAs (Decidable (∀ p ∈ s.toGateway.head?, ∀ id ∈ terminatorId p.2,
      ∀ entry ∈ s.app.inflight.lookup id, ¬ Waits s entry))
  | .link .failAll => inferInstanceAs (Decidable (unwritten s = []))
  | .link .abandon => inferInstanceAs (Decidable (unwritten s = []))
  | .traffic (.postOrder _) | .traffic (.postCancel _) | .traffic (.check _) | .traffic (.register _)
  | .traffic (.send _) | .traffic (.receive _) | .traffic .forward | .traffic .process => .isTrue trivial
  | .link (.connect _) | .link .connectFails | .link .replayNext | .link .replayNextFails | .link .replayAwaited
  | .link .endRestore | .link .serve | .link .forwardFails | .link .readerEnds | .link .disconnect | .link (.cut _ _)
  | .link .processStray | .link .restartEngine => .isTrue trivial

/-- The steps of a first order up to its frame in the channel. -/
def queueOrder : List Event :=
  [.link (.connect true),.link .serve,
    .traffic (.postOrder (.object (some (.string "buy")) (some (.number none (some 100))) (some (.number (some 5) none)) none)),
    .traffic (.check 0),.traffic (.register 0),.traffic (.send 0)]

/-- A second order is queued behind the first. -/
def queueTwo : List Event :=
  queueOrder ++ [.traffic (.postOrder (.object (some (.string "sell")) (some (.number none (some 90)))
      (some (.number (some 3) none)) none)),
    .traffic (.check 1),.traffic (.register 1),.traffic (.send 1)]

/-- The first order is answered and its cancellation queued before the second frame goes. -/
def thenCancel : List Event :=
  [.traffic .process,.traffic (.handle 0),.traffic (.receive 0),.traffic (.postCancel 1),.traffic (.check 2),
    .traffic (.register 2),.traffic (.send 2)]

theorem forwarded_frame_registered_two_orders :
    ∃ s₁ s₂ s₃ s₄ : System .four .four, Leads System.step SparesUnwritten (System.new (some [])) s₁ ∧
      s₁.step (.traffic .forward) = some s₂ ∧
      (∃ entry, s₁.app.inflight.lookup 1 = some entry ∧ entry.responder = 0) ∧
      Leads System.step SparesUnwritten s₂ s₃ ∧ s₃.step (.traffic .forward) = some s₄ ∧
      s₃.channel = [⟨.newOrder ⟨2,.Sell,90,3,1⟩,1⟩,⟨.cancelOrder ⟨1⟩,2⟩] ∧
      (∃ entry, s₃.app.inflight.lookup 2 = some entry ∧ entry.responder = 1) ∧
      s₃.requests[1]? = some ⟨.newOrder ⟨2,.Sell,90,3,1⟩,.waiting,none⟩ := by
  have ran : (follow System.step SparesUnwritten (System.new (some []) : System .four .four) queueTwo).bind (fun s₁ =>
      (s₁.step (.traffic .forward)).bind (fun s₂ => (follow System.step SparesUnwritten s₂ thenCancel).bind (fun s₃ =>
        (s₃.step (.traffic .forward)).map (fun _ => (s₁.channel,s₃.channel))))) =
      some ([⟨.newOrder ⟨1,.Buy,100,5,0⟩,0⟩,⟨.newOrder ⟨2,.Sell,90,3,1⟩,1⟩],
        [⟨.newOrder ⟨2,.Sell,90,3,1⟩,1⟩,⟨.cancelOrder ⟨1⟩,2⟩]) := by
    decide +kernel
  obtain ⟨s₁,first,rest⟩ := Option.bind_eq_some_iff.mp ran
  obtain ⟨s₂,forwards,rest⟩ := Option.bind_eq_some_iff.mp rest
  obtain ⟨s₃,second,rest⟩ := Option.bind_eq_some_iff.mp rest
  obtain ⟨s₄,forwards',queues⟩ := Option.map_eq_some_iff.mp rest
  obtain ⟨two,left⟩ := Prod.mk.inj queues
  have leads := follow_leads first
  have later := follow_leads second
  have through : Leads System.step SparesUnwritten (System.new (some [])) s₂ :=
    .step leads (by trivial) forwards
  obtain ⟨frame,head,registered,_⟩ := forwarded_frame_registered leads forwards
  obtain ⟨frame',head',registered',waits⟩ := forwarded_frame_registered (through.trans later) forwards'
  rw [two] at head
  rw [left] at head'
  obtain ⟨rfl,_⟩ := List.cons.inj head
  obtain ⟨rfl,_⟩ := List.cons.inj head'
  exact ⟨s₁,s₂,s₃,s₄,leads,forwards,registered,later,forwards',left,registered',waits⟩

/-- The connection is lost while the frame waits. The entry is cleared and the client
    is told that the engine is unavailable; the next connection writes the frame to
    the engine. -/
theorem failed_order_forwarded :
    ∃ s s' : System .four .four, Leads System.step (fun _ _ => True) (System.new (some [])) s ∧
      s.step (.traffic .forward) = some s' ∧ s.channel = [⟨.newOrder ⟨1,.Buy,100,5,0⟩,0⟩] ∧
      s.app.inflight.lookup 1 = none ∧ s.requests = [⟨.newOrder ⟨1,.Buy,100,5,0⟩,.unavailable,none⟩] ∧
      s'.toEngine = [⟨.newOrder ⟨1,.Buy,100,5,0⟩,0⟩] := by
  have ran : ((follow System.step (fun _ _ => True) (System.new (some []) : System .four .four)
      (queueOrder ++ [.link (.cut 0 0),.link .readerEnds,.link .disconnect,.link .failAll,.traffic (.giveUp 0),
        .traffic (.drop 0),.link (.connect true),.link .serve])).map
      (fun s => (s.channel,s.app.inflight.lookup 1,s.requests,(s.step (.traffic .forward)).map System.toEngine))) =
      some ([⟨.newOrder ⟨1,.Buy,100,5,0⟩,0⟩],none,[⟨.newOrder ⟨1,.Buy,100,5,0⟩,.unavailable,none⟩],
        some [⟨.newOrder ⟨1,.Buy,100,5,0⟩,0⟩]) := by
    decide +kernel
  obtain ⟨s,followed,result⟩ := Option.map_eq_some_iff.mp ran
  simp only [Prod.mk.injEq] at result
  obtain ⟨channel,inflight,requests,forwarded⟩ := result
  obtain ⟨s',forwarded,written⟩ := Option.map_eq_some_iff.mp forwarded
  exact ⟨s,s',follow_leads followed,forwarded,channel,inflight,requests,written⟩

end HyperMatch.Orphans
