import HyperMatch.Reservations

/-!
What a replay leaves behind in the gateway. While `restoring` is set, no event is
recorded; but the flag is cleared when the loop of `replay_journal` ends, whether or not
the engine has answered every record by then.
-/
namespace HyperMatch.Suppression
open HyperMatch.Wire HyperMatch.Matching HyperMatch.Streams HyperMatch.GatewayBook HyperMatch.Runs
open HyperMatch.Reservations (write_app Runs)
open HyperMatch.OrderBook (PoolCapacity)

variable {maxOrders maxPriceLevels : PoolCapacity}

/-! ### Clients and records -/

/-- Which requests re-submit a record. -/
def kinds (requests : List Request) : List Bool := requests.map (fun r => decide (r.phase = .replay))

def Replayed (s : System maxOrders maxPriceLevels) (n : Nat) : Prop := (kinds s.requests)[n]? = some true
def Client (s : System maxOrders maxPriceLevels) (n : Nat) : Prop := (kinds s.requests)[n]? = some false

section
variable {s s' : System maxOrders maxPriceLevels} {n : Nat}

theorem Client.not_replayed (client : Client s n) : ¬ Replayed s n := by
  intro replayed
  rw [Client] at client
  rw [Replayed,client] at replayed
  cases replayed

theorem client_of {request : Request} (found : s.requests[n]? = some request) (own : request.phase ≠ .replay) :
    Client s n := by
  simp [Client,kinds,found,own]

theorem kinds_modify (requests : List Request) (n : Nat) {change : Request → Request}
    (keeps : ∀ r, requests[n]? = some r → ((change r).phase = .replay ↔ r.phase = .replay)) :
    kinds (requests.modify n change) = kinds requests := by
  refine List.ext_getElem? ?_
  intro m
  rw [kinds,kinds,List.getElem?_map,List.getElem?_map,List.getElem?_modify]
  cases found : requests[m]? with
  | none => rfl
  | some r =>
    by_cases same : n = m
    · subst same
      simp [keeps r found]
    · simp [same]

theorem kinds_move {request : Request} {phase : Phase} (found : s.requests[n]? = some request)
    (own : request.phase ≠ .replay) (other : phase ≠ .replay) : kinds (s.move n phase).requests = kinds s.requests := by
  refine kinds_modify s.requests n ?_
  intro r here
  rw [found,Option.some.injEq] at here
  subst here
  simp [own,other]

theorem kinds_deliver (s : System maxOrders maxPriceLevels) (sent : Option (Nat × EngineReply)) :
    kinds (s.deliver sent).requests = kinds s.requests := by
  cases sent with
  | none => rfl
  | some reply => exact kinds_modify _ _ (fun r _ => by rw [deliver_phase])

theorem deliver_eq (s : System maxOrders maxPriceLevels) (sent : Option (Nat × EngineReply)) :
    s.deliver sent = { s with requests := (s.deliver sent).requests } := by
  cases sent with
  | none => rfl
  | some reply => rfl

theorem kinds_append (requests : List Request) (r : Request) : kinds requests <+: kinds (requests ++ [r]) := by
  simp [kinds]

theorem Client.grows (client : Client s n) (grows : kinds s.requests <+: kinds s'.requests) : Client s' n := by
  obtain ⟨more,whole⟩ := grows
  rw [Client,← whole,List.getElem?_append_left (List.getElem?_eq_some_iff.mp client).1]
  exact client

theorem Replayed.grows (replayed : Replayed s n) (grows : kinds s.requests <+: kinds s'.requests) : Replayed s' n := by
  obtain ⟨more,whole⟩ := grows
  rw [Replayed,← whole,List.getElem?_append_left (List.getElem?_eq_some_iff.mp replayed).1]
  exact replayed

/-! ### Where the frames come from -/

/-- What a step of the traffic does to the frames: a client's goes into the channel, from
    there to the engine, and its events come back. -/
structure Carries (s s' : System maxOrders maxPriceLevels) : Prop where
  kinds : kinds s.requests <+: kinds s'.requests
  manager : s'.manager = s.manager
  restoring : s'.app.restoring = s.app.restoring
  channel : ∀ frame ∈ s'.channel, frame ∈ s.channel ∨ Client s frame.owner
  toEngine : ∀ frame ∈ s'.toEngine, frame ∈ s.toEngine ∨ frame ∈ s.channel
  toGateway : ∀ event ∈ s'.toGateway, event ∈ s.toGateway ∨ event.1 ∈ s.toEngine

theorem carries_beside {app : AppState} {requests : List Request} (grows : Suppression.kinds s.requests <+: Suppression.kinds requests)
    (restoring : app.restoring = s.app.restoring) : Carries s { s with app := app, requests := requests } where
  kinds := grows
  manager := rfl
  restoring := restoring
  channel := fun _ inside => .inl inside
  toEngine := fun _ inside => .inl inside
  toGateway := fun _ inside => .inl inside

theorem carries_move {request : Request} {phase : Phase} (app : AppState) (found : s.requests[n]? = some request)
    (own : request.phase ≠ .replay) (other : phase ≠ .replay) (restoring : app.restoring = s.app.restoring) :
    Carries s ({ s with app := app }.move n phase) :=
  carries_beside ⟨[],by rw [List.append_nil]; exact (kinds_move found own other).symm⟩ restoring

theorem traffic_carries {event : Traffic} (ran : s.traffic event = some s') : Carries s s' := by
  cases event with
  | postOrder body =>
    rcases System.postOrder_cases ran with rfl | ⟨m,gateway,_,_,_,_,rfl⟩
    · exact carries_beside (List.prefix_refl _) rfl
    · exact carries_beside (kinds_append _ _) rfl
  | postCancel orderId =>
    rw [System.postCancel_cases ran]
    exact carries_beside (kinds_append _ _) rfl
  | check n =>
    obtain ⟨command,mailbox,found,rfl⟩ := System.check_cases ran
    refine carries_move s.app found (by simp) ?_ rfl
    split
    · simp
    · simp
  | register n =>
    obtain ⟨command,mailbox,found,rfl | ⟨app,prepared,rfl⟩⟩ := System.register_cases ran
    · exact carries_move s.app found (by simp) (by simp) rfl
    · obtain ⟨_,entry,_,_,_,rfl⟩ := prepare_some prepared
      exact carries_move _ found (by simp) (by simp) rfl
  | send n =>
    obtain ⟨command,mailbox,found,rfl⟩ := System.send_cases ran
    obtain ⟨kinds,manager,restoring,_,toEngine,toGateway⟩ : Carries s (s.move n .waiting) :=
      carries_move s.app found (by simp) (by simp) rfl
    refine ⟨kinds,manager,restoring,?_,toEngine,toGateway⟩
    intro frame inside
    rcases List.mem_append.mp inside with before | new
    · exact .inl before
    · rw [List.mem_singleton.mp new]
      exact .inr (client_of found (by simp))
  | receive n =>
    obtain ⟨command,reply,found,rfl⟩ := System.receive_cases ran
    exact carries_move s.app found (by simp) (by simp) rfl
  | giveUp n =>
    obtain ⟨command,found,rfl⟩ := System.giveUp_cases ran
    exact carries_move s.app found (by simp) (by simp) rfl
  | drop n =>
    obtain ⟨command,mailbox,found,rfl⟩ := System.drop_cases ran
    exact carries_move _ found (by simp) (by simp) rfl
  | forward =>
    obtain ⟨frame,rest,_,queued,rfl⟩ := System.forward_cases ran
    rw [System.write]
    have kept : ∀ f ∈ rest, f ∈ s.channel := fun f later => queued ▸ List.mem_cons_of_mem _ later
    split
    · refine ⟨List.prefix_refl _,rfl,rfl,fun f later => .inl (kept f later),?_,fun _ inside => .inl inside⟩
      intro f inside
      rcases List.mem_append.mp inside with before | new
      · exact .inl before
      · rw [List.mem_singleton.mp new,queued]
        exact .inr List.mem_cons_self
    · exact ⟨List.prefix_refl _,rfl,rfl,fun f later => .inl (kept f later),fun _ inside => .inl inside,
        fun _ inside => .inl inside⟩
  | process =>
    obtain ⟨frame,rest,events,engine,written,_,rfl⟩ := System.process_cases ran
    refine ⟨List.prefix_refl _,rfl,rfl,fun _ inside => .inl inside,?_,?_⟩
    · intro f later
      rw [written]
      exact .inl (List.mem_cons_of_mem _ later)
    · intro event inside
      rcases List.mem_append.mp inside with before | new
      · exact .inl before
      · obtain ⟨msg,_,rfl⟩ := List.mem_map.mp new
        rw [written]
        exact .inr List.mem_cons_self
  | handle now =>
    obtain ⟨frame,msg,rest,next,rfl⟩ := System.handle_cases ran
    rw [deliver_eq]
    refine ⟨⟨[],?_⟩,rfl,(handle_gates s.app now msg).restoring,fun _ inside => .inl inside,fun _ inside => .inl inside,?_⟩
    · rw [List.append_nil,kinds_deliver]
    · intro event later
      rw [next]
      exact .inl (List.mem_cons_of_mem _ later)

/-! ### Restoring -/

/-- The manager is inside the loop of `replay_journal`. -/
def Restores : Manager → Prop
  | .replaying _ => True
  | .awaiting _ _ => True
  | .failing => True
  | _ => False

/-- A command that may be on its way: one of a client or, while the flag is set, of a record. -/
def Covered (s : System maxOrders maxPriceLevels) (n : Nat) : Prop :=
  Client s n ∨ Replayed s n ∧ s.app.restoring = true

/-- Without the flag, only commands of clients are on their way. -/
structure Suppressed (s : System maxOrders maxPriceLevels) : Prop where
  restores : Restores s.manager → s.app.restoring = true
  channel : ∀ frame ∈ s.channel, Client s frame.owner
  toEngine : ∀ frame ∈ s.toEngine, Covered s frame.owner
  toGateway : ∀ event ∈ s.toGateway, Covered s event.1.owner

theorem Covered.grows (covered : Covered s n) (grows : kinds s.requests <+: kinds s'.requests)
    (restoring : s.app.restoring = true → s'.app.restoring = true) : Covered s' n := by
  rcases covered with client | ⟨replayed,on⟩
  · exact .inl (client.grows grows)
  · exact .inr ⟨replayed.grows grows,restoring on⟩

theorem suppressed_new (journal : Option (List JournalRecord)) :
    Suppressed (System.new journal : System maxOrders maxPriceLevels) := by
  refine ⟨fun restores => restores.elim,?_,?_,?_⟩
  · intro frame inside
    cases inside
  · intro frame inside
    cases inside
  · intro event inside
    cases inside

theorem Suppressed.traffic (suppressed : Suppressed s) {event : Traffic} (ran : s.traffic event = some s') :
    Suppressed s' := by
  have carries := traffic_carries ran
  have on : s.app.restoring = true → s'.app.restoring = true := fun on => carries.restoring.trans on
  refine ⟨?_,?_,?_,?_⟩
  · rw [carries.manager,carries.restoring]
    exact suppressed.restores
  · intro frame inside
    rcases carries.channel frame inside with before | client
    · exact (suppressed.channel frame before).grows carries.kinds
    · exact client.grows carries.kinds
  · intro frame inside
    rcases carries.toEngine frame inside with before | queued
    · exact (suppressed.toEngine frame before).grows carries.kinds on
    · exact .inl ((suppressed.channel frame queued).grows carries.kinds)
  · intro event inside
    rcases carries.toGateway event inside with before | written
    · exact (suppressed.toGateway event before).grows carries.kinds on
    · exact (suppressed.toEngine event.1 written).grows carries.kinds on

/-- A step that adds no frame and does not clear the flag. -/
theorem Suppressed.aside (suppressed : Suppressed s) (grows : kinds s.requests <+: kinds s'.requests)
    (on : s.app.restoring = true → s'.app.restoring = true) (restores : Restores s'.manager → s'.app.restoring = true)
    (channel : ∀ frame ∈ s'.channel, frame ∈ s.channel) (toEngine : ∀ frame ∈ s'.toEngine, frame ∈ s.toEngine)
    (toGateway : ∀ event ∈ s'.toGateway, event ∈ s.toGateway) : Suppressed s' := by
  refine ⟨restores,?_,?_,?_⟩
  · intro frame inside
    exact (suppressed.channel frame (channel frame inside)).grows grows
  · intro frame inside
    exact (suppressed.toEngine frame (toEngine frame inside)).grows grows on
  · intro event inside
    exact (suppressed.toGateway event (toGateway event inside)).grows grows on

/-- When the restore ends, no command of a record is on its way any more, and no event of one. -/
def Settled (s : System maxOrders maxPriceLevels) (event : Event) : Prop :=
  event = .link .endRestore →
    (∀ frame ∈ s.toEngine, ¬ Replayed s frame.owner) ∧ ∀ event ∈ s.toGateway, ¬ Replayed s event.1.owner

theorem Suppressed.ended {manager : Manager} (suppressed : Suppressed s) (settled : Settled s (.link .endRestore))
    (left : ¬ Restores manager) : Suppressed { s with app := s.app.endRestore, manager := manager } := by
  have clear : ∀ n, Covered s n → ¬ Replayed s n → Covered { s with app := s.app.endRestore, manager := manager } n := by
    rintro n (client | ⟨replayed,_⟩) fresh
    · exact .inl client
    · exact absurd replayed fresh
  refine ⟨fun restores => absurd restores left,suppressed.channel,?_,?_⟩
  · intro frame inside
    exact clear _ (suppressed.toEngine frame inside) ((settled rfl).1 frame inside)
  · intro event inside
    exact clear _ (suppressed.toGateway event inside) ((settled rfl).2 event inside)

theorem prepareReplay_gates {app app' : AppState} {responder : Nat} {record : JournalRecord} {command : Option Command}
    (prepared : app.prepareReplay responder record = (app',command)) :
    app'.restoring = app.restoring ∧ app'.journal = app.journal := by
  cases command with
  | none =>
    obtain ⟨gateway,rfl⟩ := prepareReplay_none prepared
    exact ⟨rfl,rfl⟩
  | some command =>
    obtain ⟨_,_,gateway,entry,_,_,_,_,rfl⟩ := prepareReplay_some prepared
    exact ⟨rfl,rfl⟩

theorem Suppressed.replayNext (suppressed : Suppressed s) (ran : s.link .replayNext = some s') : Suppressed s' := by
  obtain ⟨record,rest,app,replaying,⟨prepared,rfl⟩ | ⟨command,prepared,rfl⟩⟩ := System.replayNext_cases ran
  · have on := suppressed.restores (by rw [replaying]; trivial)
    have same := (prepareReplay_gates prepared).1.trans on
    exact suppressed.aside (List.prefix_refl _) (fun _ => same) (fun _ => same) (fun _ => id) (fun _ => id) (fun _ => id)
  · have on := suppressed.restores (by rw [replaying]; trivial)
    have same := (prepareReplay_gates prepared).1.trans on
    let begun : System maxOrders maxPriceLevels := { s with
      app := app
      requests := s.requests ++ [⟨command,.replay,none⟩]
      manager := .awaiting s.requests.length rest }
    have before : Suppressed begun :=
      suppressed.aside (kinds_append _ _) (fun _ => same) (fun _ => same) (fun _ => id) (fun _ => id) (fun _ => id)
    change Suppressed (begun.write ⟨command,s.requests.length⟩)
    rw [System.write]
    split
    · refine ⟨before.restores,before.channel,?_,before.toGateway⟩
      intro frame inside
      rcases List.mem_append.mp inside with old | new
      · exact before.toEngine frame old
      · rw [List.mem_singleton.mp new]
        refine .inr ⟨?_,same⟩
        simp [Replayed,kinds,begun]
    · exact before

theorem Suppressed.link (suppressed : Suppressed s) {event : Link} (settled : Settled s (.link event))
    (ran : s.link event = some s') : Suppressed s' := by
  have same := List.prefix_refl (kinds s.requests)
  cases event with
  | connect readable =>
    obtain ⟨_,⟨_,rfl⟩ | ⟨records,_,rfl⟩⟩ := System.connect_cases ran
    · exact suppressed.aside same id (fun restores => restores.elim) (fun _ => id) (fun _ => id) (fun _ => id)
    · exact suppressed.aside same (fun _ => rfl) (fun _ => rfl) (fun _ => id) (fun _ => id) (fun _ => id)
  | connectFails =>
    obtain ⟨_,rfl⟩ := System.connectFails_cases ran
    exact suppressed.aside same id suppressed.restores (fun _ => id) (fun _ => id) (fun _ => id)
  | replayNext => exact suppressed.replayNext ran
  | replayNextFails =>
    obtain ⟨record,rest,app,command,replaying,_,prepared,rfl⟩ := System.replayNextFails_cases ran
    have on := suppressed.restores (by rw [replaying]; trivial)
    have still := (prepareReplay_gates prepared).1.trans on
    exact suppressed.aside same (fun _ => still) (fun _ => still) (fun _ => id) (fun _ => id) (fun _ => id)
  | replayAwaited =>
    obtain ⟨_,_,awaiting,rfl⟩ := System.replayAwaited_cases ran
    have on := suppressed.restores (by rw [awaiting]; trivial)
    exact suppressed.aside same id (fun _ => on) (fun _ => id) (fun _ => id) (fun _ => id)
  | endRestore =>
    obtain ⟨_,rfl⟩ | ⟨_,rfl⟩ := System.endRestore_cases ran
    · exact suppressed.ended settled id
    · exact suppressed.ended settled id
  | abandon =>
    obtain ⟨_,rfl⟩ := System.abandon_cases ran
    exact suppressed.aside same id (fun restores => restores.elim) (fun _ => id) (fun _ => id) (by simp)
  | serve =>
    obtain ⟨_,rfl⟩ := System.serve_cases ran
    exact suppressed.aside same id (fun restores => restores.elim) (fun _ => id) (fun _ => id) (fun _ => id)
  | forwardFails =>
    obtain ⟨frame,rest,_,queued,_,rfl⟩ := System.forwardFails_cases ran
    refine suppressed.aside same id (fun restores => restores.elim) ?_ (fun _ => id) (fun _ => id)
    intro f later
    rw [queued]
    exact List.mem_cons_of_mem _ later
  | readerEnds =>
    obtain ⟨_,_,_,rfl⟩ := System.readerEnds_cases ran
    exact suppressed.aside same id (fun restores => restores.elim) (fun _ => id) (fun _ => id) (fun _ => id)
  | disconnect =>
    obtain ⟨_,rfl⟩ := System.disconnect_cases ran
    exact suppressed.aside same id (fun restores => restores.elim) (fun _ => id) (fun _ => id) (fun _ => id)
  | failAll =>
    obtain ⟨_,rfl⟩ := System.failAll_cases ran
    exact suppressed.aside same id (fun restores => restores.elim) (fun _ => id) (fun _ => id) (by simp)
  | cut frames events =>
    obtain ⟨_,rfl⟩ := System.cut_cases ran
    exact suppressed.aside same id suppressed.restores (fun _ => id) (by simp) (fun _ => List.mem_of_mem_take)
  | processStray =>
    obtain ⟨_,_,_,_,_,_,rfl⟩ := System.processStray_cases ran
    exact suppressed.aside same id suppressed.restores (fun _ => id) (fun _ => id) (fun _ => id)
  | restartEngine =>
    obtain ⟨_,rfl⟩ := System.restartEngine_cases ran
    exact suppressed.aside same id suppressed.restores (fun _ => id) (fun _ => id) (fun _ => id)

theorem Suppressed.step (suppressed : Suppressed s) {event : Event} (settled : Settled s event)
    (ran : s.step event = some s') : Suppressed s' := by
  cases event with
  | traffic event => exact suppressed.traffic ran
  | link event => exact suppressed.link settled ran

/-! ### Events while the flag is set -/

/-- What a gateway has recorded of its traffic. -/
structure SameRecords (app app' : AppState) : Prop where
  journal : app'.journal = app.journal
  metrics : app'.metrics = app.metrics
  trades : app'.trades = app.trades

theorem accumulate_records (app : AppState) (t : Trade) :
    SameRecords app (app.accumulate t) ∧ (app.accumulate t).restoring = app.restoring := by
  rw [AppState.accumulate]
  split
  · exact ⟨⟨rfl,rfl,rfl⟩,rfl⟩
  · exact ⟨⟨rfl,rfl,rfl⟩,rfl⟩

/-- Nothing is recorded while the gateway restores. -/
theorem handle_restoring {app : AppState} (on : app.restoring = true) (now : UInt64) (msg : BinaryMessage) :
    SameRecords app (app.handleEngineEvent now msg).1 := by
  cases msg with
  | trade t =>
    obtain ⟨⟨journal,metrics,trades⟩,restoring⟩ := accumulate_records app t
    have still : (app.accumulate t).restoring = true := restoring.trans on
    simp only [AppState.handleEngineEvent,AppState.handleTrade,still,if_true]
    exact ⟨journal,metrics,trades⟩
  | ack a =>
    obtain ⟨orderId,kind⟩ := a
    cases kind with
    | Accepted =>
      rw [AppState.handleEngineEvent,AppState.completeAccept]
      split
      · exact ⟨rfl,rfl,rfl⟩
      · dsimp only
        split
        · simp only [AppState.dropInflight,on,if_true]
          exact ⟨rfl,rfl,rfl⟩
        · simp only [AppState.dropInflight,on,if_true]
          exact ⟨rfl,rfl,rfl⟩
    | Cancelled =>
      rw [AppState.handleEngineEvent,AppState.completeCancel]
      split
      · exact ⟨rfl,rfl,rfl⟩
      · simp only [AppState.dropInflight,on,if_true]
        exact ⟨rfl,rfl,rfl⟩
  | reject r =>
    rw [AppState.handleEngineEvent,AppState.completeReject]
    split
    · exact ⟨rfl,rfl,rfl⟩
    · simp only [AppState.dropInflight,on,true_or,if_true]
      exact ⟨rfl,rfl,rfl⟩
  | newOrder m => exact ⟨rfl,rfl,rfl⟩
  | cancelOrder c => exact ⟨rfl,rfl,rfl⟩

/-- An event of a record is not recorded. -/
theorem Suppressed.handle (suppressed : Suppressed s) {frame : Frame} {msg : BinaryMessage}
    {rest : List (Frame × BinaryMessage)} (next : s.toGateway = (frame,msg) :: rest) (replayed : Replayed s frame.owner)
    {now : UInt64} (ran : s.traffic (.handle now) = some s') : SameRecords s.app s'.app := by
  have on : s.app.restoring = true := by
    rcases suppressed.toGateway (frame,msg) (by rw [next]; exact List.mem_cons_self) with client | ⟨_,on⟩
    · exact absurd replayed client.not_replayed
    · exact on
  obtain ⟨frame',msg',rest',next',rfl⟩ := System.handle_cases ran
  rw [next] at next'
  cases next'
  rw [deliver_eq]
  exact handle_restoring on now msg

/-! ### Reconnects without commands -/

/-- No handler is before its send. -/
def AllSent (requests : List Request) : Prop := ∀ (n : Nat) (r : Request), requests[n]? = some r → 3 ≤ rank r.phase

/-- No client command is under way: whatever is, belongs to a record. -/
structure Idle (s : System maxOrders maxPriceLevels) : Prop where
  sent : AllSent s.requests
  channel : s.channel = []
  toEngine : ∀ frame ∈ s.toEngine, Replayed s frame.owner
  toGateway : ∀ event ∈ s.toGateway, Replayed s event.1.owner

/-- The event is no new command of a client. -/
def Uncommanded : Event → Prop
  | .traffic (.postOrder _) => False
  | .traffic (.postCancel _) => False
  | _ => True

theorem idle_new (journal : Option (List JournalRecord)) : Idle (System.new journal : System maxOrders maxPriceLevels) := by
  refine ⟨?_,rfl,?_,?_⟩
  · intro n r found
    cases found
  · intro frame inside
    cases inside
  · intro event inside
    cases inside

theorem Idle.aside (idle : Idle s) (sent : AllSent s'.requests)
    (grows : kinds s.requests <+: kinds s'.requests) (channel : s'.channel = [])
    (toEngine : ∀ frame ∈ s'.toEngine, frame ∈ s.toEngine ∨ Replayed s' frame.owner)
    (toGateway : ∀ event ∈ s'.toGateway, event ∈ s.toGateway ∨ event.1 ∈ s.toEngine) : Idle s' := by
  refine ⟨sent,channel,?_,?_⟩
  · intro frame inside
    rcases toEngine frame inside with before | replayed
    · exact (idle.toEngine frame before).grows grows
    · exact replayed
  · intro event inside
    rcases toGateway event inside with before | written
    · exact (idle.toGateway event before).grows grows
    · exact (idle.toEngine event.1 written).grows grows

theorem AllSent.modify {requests : List Request} (sent : AllSent requests) (n : Nat) {change : Request → Request}
    (kept : ∀ r, 3 ≤ rank r.phase → 3 ≤ rank (change r).phase) : AllSent (requests.modify n change) := by
  intro m r found
  rw [List.getElem?_modify] at found
  obtain ⟨before,here,rfl⟩ := Option.map_eq_some_iff.mp found
  split
  · exact kept before (sent m before here)
  · exact sent m before here

theorem allSent_deliver (t : System maxOrders maxPriceLevels) (sent : AllSent t.requests) (reply : Option (Nat × EngineReply)) :
    AllSent (t.deliver reply).requests := by
  cases reply with
  | none => exact sent
  | some reply => exact sent.modify _ (fun r late => by rwa [deliver_phase])

theorem Idle.traffic (idle : Idle s) (suppressed : Suppressed s) {event : Traffic} (uncommanded : Uncommanded (.traffic event))
    (ran : s.traffic event = some s') : Idle s' ∧ s'.app.journal = s.app.journal := by
  have carries := traffic_carries ran
  have channelled : ∀ frame ∈ s'.toEngine, frame ∈ s.toEngine ∨ Replayed s' frame.owner := by
    intro frame inside
    rcases carries.toEngine frame inside with before | queued
    · exact .inl before
    · rw [idle.channel] at queued
      cases queued
  cases event with
  | postOrder body => exact uncommanded.elim
  | postCancel orderId => exact uncommanded.elim
  | check n =>
    obtain ⟨command,mailbox,found,_⟩ := System.check_cases ran
    exact absurd (idle.sent n _ found) (by simp [rank])
  | register n =>
    obtain ⟨command,mailbox,found,_⟩ := System.register_cases ran
    exact absurd (idle.sent n _ found) (by simp [rank])
  | send n =>
    obtain ⟨command,mailbox,found,_⟩ := System.send_cases ran
    exact absurd (idle.sent n _ found) (by simp [rank])
  | receive n =>
    obtain ⟨command,reply,found,rfl⟩ := System.receive_cases ran
    exact ⟨idle.aside (idle.sent.modify n (fun _ _ => Nat.le_refl 3)) carries.kinds idle.channel channelled carries.toGateway,rfl⟩
  | giveUp n =>
    obtain ⟨command,found,rfl⟩ := System.giveUp_cases ran
    exact ⟨idle.aside (idle.sent.modify n (fun _ _ => Nat.le_refl 3)) carries.kinds idle.channel channelled carries.toGateway,rfl⟩
  | drop n =>
    obtain ⟨command,mailbox,found,rfl⟩ := System.drop_cases ran
    exact ⟨idle.aside (idle.sent.modify n (fun _ _ => Nat.le_refl 3)) carries.kinds idle.channel channelled carries.toGateway,rfl⟩
  | forward =>
    obtain ⟨frame,rest,_,queued,_⟩ := System.forward_cases ran
    rw [idle.channel] at queued
    cases queued
  | process =>
    obtain ⟨frame,rest,events,engine,written,_,rfl⟩ := System.process_cases ran
    exact ⟨idle.aside idle.sent carries.kinds idle.channel channelled carries.toGateway,rfl⟩
  | handle now =>
    obtain ⟨frame,msg,rest,next,_⟩ := System.handle_cases ran
    have replayed := idle.toGateway (frame,msg) (by rw [next]; exact List.mem_cons_self)
    have same := suppressed.handle next replayed ran
    obtain ⟨frame',msg',rest',_,rfl⟩ := System.handle_cases ran
    refine ⟨idle.aside ?_ carries.kinds ?_ channelled carries.toGateway,same.journal⟩
    · refine allSent_deliver _ ?_ _
      exact idle.sent
    · rw [deliver_eq]
      exact idle.channel

theorem allSent_append {requests : List Request} (sent : AllSent requests) {r : Request} (late : 3 ≤ rank r.phase) :
    AllSent (requests ++ [r]) := by
  intro n other found
  rcases List.mem_append.mp (List.mem_of_getElem? found) with before | new
  · obtain ⟨m,here⟩ := List.getElem?_of_mem before
    exact sent m other here
  · rw [List.mem_singleton.mp new]
    exact late

theorem Idle.replayNext (idle : Idle s) (ran : s.link .replayNext = some s') : Idle s' := by
  obtain ⟨record,rest,app,_,⟨_,rfl⟩ | ⟨command,_,rfl⟩⟩ := System.replayNext_cases ran
  · exact idle.aside idle.sent (List.prefix_refl _) idle.channel (fun _ => .inl) (fun _ => .inl)
  · have sent : AllSent (s.requests ++ [⟨command,.replay,none⟩]) := allSent_append idle.sent (Nat.le_refl 3)
    rw [System.write]
    split
    · refine idle.aside sent (kinds_append _ _) idle.channel ?_ (fun _ => .inl)
      intro frame inside
      rcases List.mem_append.mp inside with before | new
      · exact .inl before
      · rw [List.mem_singleton.mp new]
        apply Or.inr
        simp [Replayed,kinds]
    · exact idle.aside sent (kinds_append _ _) idle.channel (fun _ => .inl) (fun _ => .inl)

theorem Idle.link (idle : Idle s) {event : Link} (ran : s.link event = some s') :
    Idle s' ∧ s'.app.journal = s.app.journal := by
  have same := List.prefix_refl (kinds s.requests)
  have unchanged : ∀ (app : AppState) (manager : Manager), Idle { s with app := app, manager := manager } :=
    fun _ _ => idle.aside idle.sent same idle.channel (fun _ => .inl) (fun _ => .inl)
  cases event with
  | connect readable =>
    obtain ⟨_,⟨_,rfl⟩ | ⟨records,_,rfl⟩⟩ := System.connect_cases ran
    · exact ⟨idle.aside idle.sent same idle.channel (fun _ => .inl) (fun _ => .inl),rfl⟩
    · exact ⟨idle.aside idle.sent same idle.channel (fun _ => .inl) (fun _ => .inl),rfl⟩
  | connectFails =>
    obtain ⟨_,rfl⟩ := System.connectFails_cases ran
    exact ⟨unchanged _ _,rfl⟩
  | replayNext =>
    refine ⟨idle.replayNext ran,?_⟩
    obtain ⟨record,rest,app,_,⟨prepared,rfl⟩ | ⟨command,prepared,rfl⟩⟩ := System.replayNext_cases ran
    · exact (prepareReplay_gates prepared).2
    · rw [write_app]
      exact (prepareReplay_gates prepared).2
  | replayNextFails =>
    obtain ⟨record,rest,app,command,_,_,prepared,rfl⟩ := System.replayNextFails_cases ran
    exact ⟨unchanged _ _,(prepareReplay_gates prepared).2⟩
  | replayAwaited =>
    obtain ⟨_,_,_,rfl⟩ := System.replayAwaited_cases ran
    exact ⟨unchanged _ _,rfl⟩
  | endRestore =>
    obtain ⟨_,rfl⟩ | ⟨_,rfl⟩ := System.endRestore_cases ran
    · exact ⟨unchanged _ _,rfl⟩
    · exact ⟨unchanged _ _,rfl⟩
  | abandon =>
    obtain ⟨_,rfl⟩ := System.abandon_cases ran
    exact ⟨idle.aside idle.sent same idle.channel (fun _ => .inl) (by simp),rfl⟩
  | serve =>
    obtain ⟨_,rfl⟩ := System.serve_cases ran
    exact ⟨unchanged _ _,rfl⟩
  | forwardFails =>
    obtain ⟨frame,rest,_,queued,_,rfl⟩ := System.forwardFails_cases ran
    rw [idle.channel] at queued
    cases queued
  | readerEnds =>
    obtain ⟨_,_,_,rfl⟩ := System.readerEnds_cases ran
    exact ⟨unchanged _ _,rfl⟩
  | disconnect =>
    obtain ⟨_,rfl⟩ := System.disconnect_cases ran
    exact ⟨unchanged _ _,rfl⟩
  | failAll =>
    obtain ⟨_,rfl⟩ := System.failAll_cases ran
    exact ⟨idle.aside idle.sent same idle.channel (fun _ => .inl) (by simp),rfl⟩
  | cut frames events =>
    obtain ⟨_,rfl⟩ := System.cut_cases ran
    exact ⟨idle.aside idle.sent same idle.channel (by simp) (fun _ inside => .inl (List.mem_of_mem_take inside)),rfl⟩
  | processStray =>
    obtain ⟨_,_,_,_,_,_,rfl⟩ := System.processStray_cases ran
    exact ⟨idle.aside idle.sent same idle.channel (fun _ => .inl) (fun _ => .inl),rfl⟩
  | restartEngine =>
    obtain ⟨_,rfl⟩ := System.restartEngine_cases ran
    exact ⟨idle.aside idle.sent same idle.channel (fun _ => .inl) (fun _ => .inl),rfl⟩

theorem Idle.step (idle : Idle s) (suppressed : Suppressed s) {event : Event} (uncommanded : Uncommanded event)
    (ran : s.step event = some s') : Idle s' ∧ s'.app.journal = s.app.journal := by
  cases event with
  | traffic event => exact idle.traffic suppressed uncommanded ran
  | link event => exact idle.link ran

/-- In every run in which the restore ends only when no command of a record is on its way,
    no event of a record is recorded anywhere; and from a state without client commands
    any reconnects leave the journal as it is, until a client sends a new one. -/
theorem replay_never_recorded {journal : Option (List JournalRecord)}
    (reached : Leads System.step Settled (System.new journal) s) :
    (∀ frame msg rest now s', s.toGateway = (frame,msg) :: rest → Replayed s frame.owner →
      s.step (.traffic (.handle now)) = some s' →
        s'.app.journal = s.app.journal ∧ s'.app.metrics = s.app.metrics ∧ s'.app.trades = s.app.trades) ∧
      (Idle s → ∀ s', Leads System.step (fun t event => Settled t event ∧ Uncommanded event) s s' →
        s'.app.journal = s.app.journal) := by
  have suppressed : Suppressed s := reached.keeps (suppressed_new journal) (fun t event t' before may taken => before.step may taken)
  constructor
  · intro frame msg rest now s' next replayed ran
    obtain ⟨journal,metrics,trades⟩ := suppressed.handle next replayed ran
    exact ⟨journal,metrics,trades⟩
  · intro idle s' leads
    have kept : Suppressed s' ∧ Idle s' ∧ s'.app.journal = s.app.journal := by
      refine leads.keeps (P := fun t => Suppressed t ∧ Idle t ∧ t.app.journal = s.app.journal) ⟨suppressed,idle,rfl⟩ ?_
      rintro t event t' ⟨before,still,same⟩ ⟨settled,uncommanded⟩ taken
      obtain ⟨after,unwritten⟩ := still.step before uncommanded taken
      exact ⟨before.step settled taken,after,unwritten.trans same⟩
    exact kept.2.2

instance (s : System maxOrders maxPriceLevels) (n : Nat) : Decidable (Replayed s n) := inferInstanceAs (Decidable (_ = _))

instance (s : System maxOrders maxPriceLevels) : DecidablePred (Settled s) := fun event =>
  inferInstanceAs (Decidable (event = .link .endRestore →
    (∀ frame ∈ s.toEngine, ¬ Replayed s frame.owner) ∧ ∀ event ∈ s.toGateway, ¬ Replayed s event.1.owner))

instance : DecidablePred Uncommanded
  | .traffic (.postOrder _) | .traffic (.postCancel _) => .isFalse id
  | .traffic (.check _) | .traffic (.register _) | .traffic (.send _) | .traffic (.receive _) | .traffic (.giveUp _)
  | .traffic (.drop _) | .traffic .forward | .traffic .process | .traffic (.handle _) | .link _ => .isTrue trivial

/-- One record of a journal. -/
def record : JournalRecord := .New 5 .Buy 100 5

/-- A connection on which the record is replayed and answered, with the gateway opened at the end. -/
def restore : List Event :=
  [.link (.connect true),.link .replayNext,.traffic .process,.traffic (.handle 0),.link .replayAwaited,.link .endRestore,
    .link .serve]

theorem replay_never_recorded_reconnected :
    ∃ s s' t : System .four .four, Leads System.step Settled (System.new (some [record])) s ∧
      s.step (.traffic (.handle 0)) = some s' ∧ s'.app.journal = s.app.journal ∧ s'.app.trades = s.app.trades ∧
      Leads System.step (fun t event => Settled t event ∧ Uncommanded event) (System.new (some [record])) t ∧
      t.manager = .live ∧ t.app.journal = some [record] := by
  have once : ((follow System.step Settled (System.new (some [record]) : System .four .four) (restore.take 3)).map (fun s =>
      (s.toGateway,decide (Replayed s 0),(s.step (.traffic (.handle 0))).isSome))) =
      some ([(⟨.newOrder ⟨5,.Buy,100,5,0⟩,0⟩,.ack ⟨5,.Accepted⟩)],true,true) := by
    decide +kernel
  have twice : ((follow System.step (fun t event => Settled t event ∧ Uncommanded event)
      (System.new (some [record]) : System .four .four)
      (restore ++ [.link (.cut 0 0),.link .readerEnds,.link .disconnect,.link .failAll] ++ restore)).map
      (fun t => decide (t.manager = .live))) = some true := by
    decide +kernel
  obtain ⟨s,followed,shown⟩ := Option.map_eq_some_iff.mp once
  obtain ⟨t,reconnected,live⟩ := Option.map_eq_some_iff.mp twice
  rw [Prod.mk.injEq,Prod.mk.injEq] at shown
  obtain ⟨next,replayed,handled⟩ := shown
  obtain ⟨s',ran⟩ := Option.isSome_iff_exists.mp handled
  have leads := follow_leads followed
  have again := follow_leads reconnected
  obtain ⟨journal,_,trades⟩ := (replay_never_recorded leads).1 _ _ _ 0 s' next (of_decide_eq_true replayed) ran
  have unwritten := (replay_never_recorded .start).2 (idle_new (some [record])) t again
  exact ⟨s,s',t,leads,ran,journal,trades,again,of_decide_eq_true live,unwritten⟩

/-- The answer to a record comes after the wait for it has ended: no client has sent
    anything, and the journal holds the record twice. -/
theorem late_answer_journaled :
    ∃ s s' : System .four .four, Leads System.step (fun _ event => Uncommanded event) (System.new (some [record])) s ∧
      (∃ msg, s.toGateway = [(⟨.newOrder ⟨5,.Buy,100,5,0⟩,0⟩,msg)]) ∧ Replayed s 0 ∧
      s.step (.traffic (.handle 0)) = some s' ∧ s.app.journal = some [record] ∧ s'.app.journal = some [record,record] ∧
      s'.app.metrics ≠ s.app.metrics := by
  have late : ((follow System.step (fun _ event => Uncommanded event) (System.new (some [record]) : System .four .four)
      [.link (.connect true),.link .replayNext,.link .replayAwaited,.link .endRestore,.link .serve,.traffic .process]).bind
      (fun s => (s.step (.traffic (.handle 0))).map (fun s' =>
        (decide (s.toGateway = [(⟨.newOrder ⟨5,.Buy,100,5,0⟩,0⟩,.ack ⟨5,.Accepted⟩)]),decide (Replayed s 0),
          decide (s.app.journal = some [record] ∧ s'.app.journal = some [record,record]),
          decide (s'.app.metrics ≠ s.app.metrics))))) = some (true,true,true,true) := by
    decide +kernel
  obtain ⟨s,followed,handled⟩ := Option.bind_eq_some_iff.mp late
  obtain ⟨s',ran,shown⟩ := Option.map_eq_some_iff.mp handled
  simp only [Prod.mk.injEq,decide_eq_true_eq] at shown
  obtain ⟨next,replayed,⟨before,after⟩,counted⟩ := shown
  exact ⟨s,s',follow_leads followed,⟨_,next⟩,replayed,ran,before,after,counted⟩

end

end HyperMatch.Suppression
