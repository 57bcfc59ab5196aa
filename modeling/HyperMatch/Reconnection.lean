import HyperMatch.Replaying

/-!
A lost connection and the replay after it. The gateway takes a reconnected engine for
an empty one and sends it the journal; the engine keeps its book when a connection
closes. If the book is empty at the reconnect, and the history of the engine is in the
order of its stamps, the replay puts every order back into its place, in the engine and
in the projection.
-/
namespace HyperMatch.Reconnection
open HyperMatch.Wire HyperMatch.Matching HyperMatch.MatchingEngine HyperMatch.BookLayout HyperMatch.Streams
open HyperMatch.Correlation HyperMatch.Mirror HyperMatch.GatewayBook HyperMatch.Replays HyperMatch.Runs
open HyperMatch.OrderBook (PoolCapacity)

variable {maxOrders maxPriceLevels : PoolCapacity}

/-! ### Runs -/

section
variable {s s' : System maxOrders maxPriceLevels} {market : Market} {records : List JournalRecord}

/-- A market without orders that some engine shows. -/
def Started (maxOrders maxPriceLevels : PoolCapacity) (market : Market) : Prop :=
  (∀ side, market.exchange.walks side = []) ∧ ∃ engine : MatchingEngine maxOrders maxPriceLevels, Shows engine market

/-- While the connection is down nothing goes to the engine; while it is up the replay
    goes on, or is over. -/
structure Rebuilding (records : List JournalRecord) (s : System maxOrders maxPriceLevels) : Prop where
  sound : Sound s.engine
  silent : s.linked = false → s.toEngine = []
  down : s.manager = .down → s.toGateway = []
  replay : s.linked = true → ∃ market, Started maxOrders maxPriceLevels market ∧ Replaying market records s

theorem rebuilding_unlinked (sound : Sound s.engine) (linked : s.linked = false) (toEngine : s.toEngine = [])
    (down : s.manager = .down → s.toGateway = []) : Rebuilding records s := by
  refine ⟨sound,fun _ => toEngine,down,?_⟩
  intro up
  rw [linked] at up
  cases up

theorem Staged.not_down (staged : Staged s) : s.manager ≠ .down := by
  intro down
  rw [Staged,down] at staged
  cases staged

/-- A replay makes a rebuilding. -/
theorem rebuilding_replay (started : Started maxOrders maxPriceLevels market) (linked : s.linked = true)
    (replaying : Replaying market records s) : Rebuilding records s := by
  refine ⟨replaying.shown.sound,?_,fun down => absurd down replaying.staged.not_down,fun _ => ⟨market,started,replaying⟩⟩
  intro unlinked
  rw [linked] at unlinked
  cases unlinked

/-- The manager is at the replay while the connection is up. -/
theorem Rebuilding.unlinked (rebuilding : Rebuilding records s) (away : ¬ Staged s) : s.linked = false := by
  cases linked : s.linked with
  | false => rfl
  | true =>
    obtain ⟨market,_,replaying⟩ := rebuilding.replay linked
    exact absurd replaying.staged away

/-- The traffic does not touch the link or the manager. -/
theorem traffic_link {event : Traffic} (ran : s.traffic event = some s') :
    s'.linked = s.linked ∧ s'.manager = s.manager ∧ (s.toGateway = [] → s.toEngine = [] → s'.toGateway = []) := by
  rcases traffic_beside ran with ⟨beside,_⟩ | rfl | rfl | ⟨now,rfl⟩
  · refine ⟨beside.linked,beside.manager,?_⟩
    intro empty _
    rw [beside.toGateway]
    exact empty
  · obtain ⟨frame,rest,_,_,rfl⟩ := System.forward_cases ran
    rw [System.write]
    split
    · exact ⟨rfl,rfl,fun empty _ => empty⟩
    · exact ⟨rfl,rfl,fun empty _ => empty⟩
  · obtain ⟨frame,rest,events,engine,written,_,rfl⟩ := System.process_cases ran
    refine ⟨rfl,rfl,?_⟩
    intro _ none
    rw [written] at none
    cases none
  · obtain ⟨frame,msg,rest,next,rfl⟩ := System.handle_cases ran
    have none : s.toGateway ≠ [] := by
      rw [next]
      simp
    rw [System.deliver_eq]
    exact ⟨rfl,rfl,fun empty => absurd empty none⟩

/-- Without a link the traffic does not reach the engine. -/
theorem traffic_unlinked {event : Traffic} (ran : s.traffic event = some s') (linked : s.linked = false)
    (empty : s.toEngine = []) : s'.engine = s.engine ∧ s'.toEngine = [] := by
  rcases traffic_beside ran with ⟨beside,_⟩ | rfl | rfl | ⟨now,rfl⟩
  · exact ⟨beside.engine,beside.toEngine.trans empty⟩
  · obtain ⟨frame,rest,_,_,rfl⟩ := System.forward_cases ran
    rw [System.write,if_neg (by simp [linked])]
    exact ⟨rfl,empty⟩
  · obtain ⟨frame,rest,events,engine,written,_,rfl⟩ := System.process_cases ran
    rw [empty] at written
    cases written
  · obtain ⟨frame,msg,rest,_,rfl⟩ := System.handle_cases ran
    rw [System.deliver_eq]
    exact ⟨rfl,empty⟩

theorem Rebuilding.traffic (rebuilding : Rebuilding records s) {event : Traffic}
    (may : Reconnects records s (.traffic event)) (ran : s.traffic event = some s') : Rebuilding records s' := by
  obtain ⟨link,manager,handled⟩ := traffic_link ran
  cases linked : s.linked with
  | true =>
    obtain ⟨market,started,replaying⟩ := rebuilding.replay linked
    exact rebuilding_replay started (link.trans linked) (replaying.traffic may ran)
  | false =>
    have empty := rebuilding.silent linked
    obtain ⟨engine,toEngine⟩ := traffic_unlinked ran linked empty
    refine rebuilding_unlinked (by rw [engine]; exact rebuilding.sound) (link.trans linked) toEngine ?_
    intro down
    exact handled (rebuilding.down (manager.symm.trans down)) empty

/-- Nothing has been sent at the beginning. -/
theorem replaying_started (shown : Shows s.engine market) (strays : s.strays = []) (processed : s.processed = [])
    (applied : s.applied = []) (toEngine : s.toEngine = []) (toGateway : s.toGateway = []) (book : s.app.book = {})
    (manager : (records = [] ∧ s.manager = .restored) ∨ s.manager = .replaying records) : Replaying market records s := by
  have none : sentCommands s = [] := by rw [sentCommands,processed,toEngine]; rfl
  have rest : AtRest s := by
    refine ⟨toEngine,toGateway,?_,?_⟩
    · rw [applied,processed]
      rfl
    · rw [Folded,book,applied]
      rfl
  constructor
  · exact strays
  · rw [processed]
    trivial
  · rw [processed]
    exact shown
  · rw [processed]
    intro p inside
    cases inside
  · rw [none]
    rcases manager with ⟨rfl,ended⟩ | begins
    · rw [ended]
      rfl
    · rw [begins]
      rfl
  · rw [none]
    exact List.Pairwise.nil
  · rw [none]
    intro q inside
    cases inside
  · rw [Staged]
    rcases manager with ⟨_,ended⟩ | begins
    · rw [ended]
      exact rest
    · rw [begins]
      exact rest

/-- A reconnect to an engine without orders begins a replay of the journal, or ends it
    at once if there are no records. -/
theorem Rebuilding.connect (rebuilding : Rebuilding records s) {readable : Bool}
    (may : Reconnects records s (.link (.connect readable))) (ran : s.link (.connect readable) = some s') :
    Rebuilding records s' := by
  obtain ⟨⟨rfl,journal⟩,bids,asks,strays⟩ := may
  obtain ⟨market,shown⟩ := shows_of_sound rebuilding.sound
  have started : Started maxOrders maxPriceLevels market := by
    refine ⟨?_,s.engine,shown⟩
    intro side
    rw [← shown.walks]
    cases side with
    | Buy => exact bids
    | Sell => exact asks
  obtain ⟨down,connected⟩ := System.connect_cases ran
  have unlinked := rebuilding.unlinked (fun staged => staged.not_down down)
  have toEngine := rebuilding.silent unlinked
  have toGateway := rebuilding.down down
  rcases connected with ⟨skipped,rfl⟩ | ⟨records',journal',rfl⟩
  · have blank : records = [] := by
      rcases skipped with missing | ⟨⟨⟩⟩ | nothing
      · rw [journal] at missing
        cases missing
      · rw [journal] at nothing
        exact Option.some.inj nothing
    exact rebuilding_replay started rfl
      (replaying_started shown strays rfl rfl toEngine toGateway rfl (.inl ⟨blank,rfl⟩))
  · cases journal.symm.trans journal'
    exact rebuilding_replay started rfl (replaying_started shown strays rfl rfl toEngine toGateway rfl (.inr rfl))

theorem Rebuilding.link (rebuilding : Rebuilding records s) {event : Link} (may : Reconnects records s (.link event))
    (ran : s.link event = some s') : Rebuilding records s' := by
  cases event with
  | connect readable => exact rebuilding.connect may ran
  | connectFails =>
    obtain ⟨down,rfl⟩ := System.connectFails_cases ran
    have unlinked := rebuilding.unlinked (by rw [Staged,down]; exact id)
    exact rebuilding_unlinked rebuilding.sound unlinked (rebuilding.silent unlinked) rebuilding.down
  | replayNext =>
    cases linked : s.linked with
    | true =>
      obtain ⟨market,started,replaying⟩ := rebuilding.replay linked
      refine rebuilding_replay started ?_ (replaying.replayNext linked may ran)
      obtain ⟨record,rest,app,_,⟨_,rfl⟩ | ⟨command,_,rfl⟩⟩ := System.replayNext_cases ran
      · exact linked
      · rw [System.write,if_pos linked]
        exact linked
    | false =>
      have toEngine := rebuilding.silent linked
      obtain ⟨record,rest,app,_,⟨_,rfl⟩ | ⟨command,_,rfl⟩⟩ := System.replayNext_cases ran
      · exact rebuilding_unlinked rebuilding.sound linked toEngine (fun down => by cases down)
      · rw [System.write,if_neg (by simp [linked])]
        exact rebuilding_unlinked rebuilding.sound linked toEngine (fun down => by cases down)
  | replayNextFails =>
    obtain ⟨record,rest,app,command,_,unlinked,_,rfl⟩ := System.replayNextFails_cases ran
    exact rebuilding_unlinked rebuilding.sound unlinked (rebuilding.silent unlinked) (fun down => by cases down)
  | replayAwaited =>
    cases linked : s.linked with
    | true =>
      obtain ⟨market,started,replaying⟩ := rebuilding.replay linked
      refine rebuilding_replay started ?_ (replaying.replayAwaited linked may ran)
      obtain ⟨ticket,rest,_,rfl⟩ := System.replayAwaited_cases ran
      exact linked
    | false =>
      obtain ⟨ticket,rest,_,rfl⟩ := System.replayAwaited_cases ran
      exact rebuilding_unlinked rebuilding.sound linked (rebuilding.silent linked) (fun down => by cases down)
  | endRestore =>
    cases linked : s.linked with
    | true =>
      obtain ⟨market,started,replaying⟩ := rebuilding.replay linked
      refine rebuilding_replay started ?_ (replaying.endRestore ran)
      rcases System.endRestore_cases ran with ⟨_,rfl⟩ | ⟨_,rfl⟩
      · exact linked
      · exact linked
    | false =>
      rcases System.endRestore_cases ran with ⟨_,rfl⟩ | ⟨_,rfl⟩
      · exact rebuilding_unlinked rebuilding.sound linked (rebuilding.silent linked) (fun down => by cases down)
      · exact rebuilding_unlinked rebuilding.sound linked (rebuilding.silent linked) (fun down => by cases down)
  | abandon =>
    obtain ⟨broken,rfl⟩ := System.abandon_cases ran
    have unlinked := rebuilding.unlinked (by rw [Staged,broken]; exact id)
    exact rebuilding_unlinked rebuilding.sound unlinked (rebuilding.silent unlinked) (fun _ => rfl)
  | serve => cases may.1
  | forwardFails =>
    obtain ⟨frame,rest,_,_,unlinked,rfl⟩ := System.forwardFails_cases ran
    exact rebuilding_unlinked rebuilding.sound unlinked (rebuilding.silent unlinked) (fun down => by cases down)
  | readerEnds =>
    obtain ⟨_,_,unlinked,rfl⟩ := System.readerEnds_cases ran
    exact rebuilding_unlinked rebuilding.sound unlinked (rebuilding.silent unlinked) (fun down => by cases down)
  | disconnect =>
    obtain ⟨closing,rfl⟩ := System.disconnect_cases ran
    have unlinked := rebuilding.unlinked (by rw [Staged,closing]; exact id)
    exact rebuilding_unlinked rebuilding.sound unlinked (rebuilding.silent unlinked) (fun down => by cases down)
  | failAll =>
    obtain ⟨closed,rfl⟩ := System.failAll_cases ran
    have unlinked := rebuilding.unlinked (by rw [Staged,closed]; exact id)
    exact rebuilding_unlinked rebuilding.sound unlinked (rebuilding.silent unlinked) (fun _ => rfl)
  | cut frames events =>
    obtain ⟨linked,rfl⟩ := System.cut_cases ran
    refine rebuilding_unlinked rebuilding.sound rfl rfl ?_
    intro down
    change s.toGateway.take events = []
    rw [rebuilding.down down]
    exact List.take_nil
  | processStray =>
    obtain ⟨frame,rest,events,engine,stray,answered,rfl⟩ := System.processStray_cases ran
    have unlinked : s.linked = false := by
      cases linked : s.linked with
      | false => rfl
      | true =>
        obtain ⟨market,_,replaying⟩ := rebuilding.replay linked
        rw [replaying.strays] at stray
        cases stray
    obtain ⟨market,shown⟩ := shows_of_sound rebuilding.sound
    obtain ⟨engine',ran',shown'⟩ := answer_shows shown frame.command
    cases answered.symm.trans ran'
    exact rebuilding_unlinked shown'.sound unlinked (rebuilding.silent unlinked) rebuilding.down
  | restartEngine =>
    obtain ⟨unlinked,rfl⟩ := System.restartEngine_cases ran
    exact rebuilding_unlinked sound_new unlinked (rebuilding.silent unlinked) rebuilding.down

theorem Rebuilding.leads (rebuilding : Rebuilding records s) (leads : Leads System.step (Reconnects records) s s') :
    Rebuilding records s' := by
  refine leads.keeps rebuilding ?_
  intro s event s' rebuilding may ran
  cases event with
  | traffic event => exact rebuilding.traffic may ran
  | link event => exact rebuilding.link may ran

/-- A connection is lost when all events are handled. -/
theorem rebuilding_cut (handled : s.toGateway = []) (sound : Sound s.engine) {frames events : Nat}
    (cut : s.link (.cut frames events) = some s') : Rebuilding records s' := by
  obtain ⟨_,rfl⟩ := System.cut_cases cut
  refine rebuilding_unlinked sound rfl rfl ?_
  intro _
  change s.toGateway.take events = []
  rw [handled]
  exact List.take_nil

/-! ### What a replay rebuilds -/

/-- A replay that is over has sent the whole journal. -/
theorem Rebuilding.finished (rebuilding : Rebuilding records s) (linked : s.linked = true) (restored : s.manager = .restored) :
    ∃ market, Started maxOrders maxPriceLevels market ∧ Replaying market records s ∧ AtRest s ∧
      (commandsOf s.processed).map asRecord = records ∧ ((commandsOf s.processed).filterMap stamp).Pairwise (· < ·) := by
  obtain ⟨market,started,replaying⟩ := rebuilding.replay linked
  have staged := replaying.staged
  rw [Staged,restored] at staged
  have rest : AtRest s := staged
  have sent : sentCommands s = commandsOf s.processed := by
    rw [sentCommands,rest.toEngine]
    exact List.append_nil _
  have all := replaying.sent
  have increasing := replaying.increasing
  rw [sent,restored] at all
  rw [sent] at increasing
  exact ⟨market,started,replaying,rest,(List.append_nil _).symm.trans all,increasing⟩

/-- The market after a history and the market after the replay of its records. -/
theorem replay_restores {engine : MatchingEngine maxOrders maxPriceLevels} {commands replayed : List Command}
    {outcomes : List Outcome} (ran : run .new commands = some (outcomes,engine))
    (increasing : (commands.filterMap stamp).Pairwise (· < ·)) (started : Started maxOrders maxPriceLevels market)
    (increasing' : (replayed.filterMap stamp).Pairwise (· < ·))
    (recorded : replayed.map asRecord = (acceptedOf commands outcomes).map asRecord) :
    Alike (Market.answers (Market.step maxOrders maxPriceLevels) Market.empty commands).2
        (Market.answers (Market.step maxOrders maxPriceLevels) market replayed).2 ∧
      (AllRoom maxOrders maxPriceLevels Market.empty commands → AllRoom maxOrders maxPriceLevels market replayed) := by
  obtain ⟨rfl,_⟩ := shows_of_run ran
  have stamped : Stamped [] market := by
    intro side e inside
    rw [started.1 side] at inside
    cases inside
  have alike : Alike Market.empty market := by
    funext side
    change (market.exchange.walks side).map unstamped = [].map unstamped
    rw [started.1 side]
  exact replay_alike stamped_empty stamped alike increasing increasing' recorded

/-- The orders of a side, first to last, without their stamps. -/
def standing (engine : MatchingEngine maxOrders maxPriceLevels) (side : Side) : List (UInt64 × Side × UInt64 × UInt32) :=
  (resting engine.book side).map (fun e => (e.orderId,e.side,e.priceTicks,e.remainingQty))

theorem standing_alike {engine engine' : MatchingEngine maxOrders maxPriceLevels} {market' : Market}
    (shown : Shows engine market) (shown' : Shows engine' market') (alike : Alike market market') (side : Side) :
    standing engine' side = standing engine side := by
  have walks := congrArg (fun walks : Side → List Entry =>
    (walks side).map (fun e => (e.orderId,e.side,e.priceTicks,e.remainingQty))) alike
  simp only [Market.unstamped,Exchange.unstamped,List.map_map] at walks
  rw [standing,standing,shown.walks,shown'.walks]
  exact walks

/-- The engine after the replay has the orders of its history in their places. -/
theorem Rebuilding.engine (rebuilding : Rebuilding records s') (linked : s'.linked = true)
    (restored : s'.manager = .restored) {commands : List Command} (recorded : Recorded commands records s)
    (increasing : (commands.filterMap stamp).Pairwise (· < ·)) (side : Side) :
    standing s'.engine side = standing s.engine side := by
  obtain ⟨outcomes,ran,_,accepted⟩ := recorded
  obtain ⟨market,started,replaying,_,sent,increasing'⟩ := rebuilding.finished linked restored
  obtain ⟨alike,_⟩ := replay_restores ran increasing started increasing' (sent.trans accepted)
  have shown := replaying.shown
  rw [marketAfter_eq] at shown
  exact standing_alike (shows_of_run ran).2 shown alike side

end

/-- The steps of the manager from a lost connection to the next one. -/
def reconnecting : List Event :=
  [.link .readerEnds,.link .disconnect,.link .failAll,.link (.connect true)]

/-- The steps of the replay of one record without trades. -/
def replayOne : List Event := [.link .replayNext,.traffic .process,.traffic (.handle 0),.link .replayAwaited]

/-- An order of a handler, up to its reply. -/
def placed : List Traffic := .postOrder (order "buy" 100 5 5) :: submit 0 ++ [.forward,.process,.handle 0,.receive 0]

theorem recorded_opened : Recorded [] [] Correlation.opened := ⟨[],rfl,rfl,rfl⟩

/-- No request is in flight or queued, and nothing is on its way. -/
structure Quiet (s : System maxOrders maxPriceLevels) : Prop where
  inflight : s.app.inflight = ∅
  channel : s.channel = []
  toEngine : s.toEngine = []
  toGateway : s.toGateway = []
  strays : s.strays = []

instance (s : System maxOrders maxPriceLevels) : Decidable (Quiet s) :=
  decidable_of_iff (s.app.inflight = ∅ ∧ s.channel = [] ∧ s.toEngine = [] ∧ s.toGateway = [] ∧ s.strays = [])
    ⟨fun ⟨inflight,channel,toEngine,toGateway,strays⟩ => ⟨inflight,channel,toEngine,toGateway,strays⟩,
      fun ⟨inflight,channel,toEngine,toGateway,strays⟩ => ⟨inflight,channel,toEngine,toGateway,strays⟩⟩

end HyperMatch.Reconnection
