import HyperMatch.Reconnection

/-!
A restart of the engine. The stamp of an order is given before its frame is sent, the
journal goes by the order in which the engine accepts, and the replay gives new stamps
in that order. The places of the orders come back if the handlers send their orders in
the order of their stamps; two handlers that change places in between are enough to
turn a queue around.
-/
namespace HyperMatch.Restart
open HyperMatch.Wire HyperMatch.Matching HyperMatch.MatchingEngine HyperMatch.BookLayout HyperMatch.Streams
open HyperMatch.Correlation HyperMatch.Journaling HyperMatch.Replays HyperMatch.Reconnection HyperMatch.Runs
open HyperMatch.OrderBook (PoolCapacity)

variable {maxOrders maxPriceLevels : PoolCapacity}

/-- No handler times out, so none drops its entry. -/
def Patient : Traffic → Prop
  | .giveUp _ => False
  | .drop _ => False
  | _ => True

/-- The stamps of the orders that were sent, oldest first. -/
def stampsOf (s : System maxOrders maxPriceLevels) : List UInt64 :=
  (framesOf s).filterMap (fun frame => stamp frame.command)

/-- An order is sent after all orders with earlier stamps. -/
def InOrder (earlier : List UInt64) (s : System maxOrders maxPriceLevels) : Traffic → Prop
  | .send n => ∀ request ∈ s.requests[n]?, ∀ q ∈ stamp request.command, ∀ p ∈ earlier ++ stampsOf s, p < q
  | _ => True

instance : DecidablePred Patient
  | .giveUp _ | .drop _ => .isFalse id
  | .postOrder _ | .postCancel _ | .check _ | .register _ | .send _ | .receive _ | .forward | .process
  | .handle _ => .isTrue trivial

instance (earlier : List UInt64) (s : System maxOrders maxPriceLevels) : DecidablePred (InOrder earlier s)
  -- named, as the search would run through all stamps
  | .send n =>
    have (q : UInt64) : Decidable (∀ p ∈ earlier ++ stampsOf s, p < q) := List.decidableBAll _ _
    have (request : Request) : Decidable (∀ q ∈ stamp request.command, ∀ p ∈ earlier ++ stampsOf s, p < q) :=
      Option.decidableForallMem _
    inferInstanceAs (Decidable (∀ request ∈ s.requests[n]?, ∀ q ∈ stamp request.command,
      ∀ p ∈ earlier ++ stampsOf s, p < q))
  | .postOrder _ | .postCancel _ | .check _ | .register _ | .receive _ | .giveUp _ | .drop _ | .forward | .process
  | .handle _ => .isTrue trivial

section
variable {s s' : System maxOrders maxPriceLevels} {market : Market}

/-- What a step of the traffic adds to the frames that were sent. -/
theorem framesOf_step (traced : Traced market s) {event : Traffic} (ran : s.traffic event = some s') :
    framesOf s' = framesOf s ∨ ∃ n command mailbox, event = .send n ∧
      s.requests[n]? = some ⟨command,.registered,mailbox⟩ ∧ framesOf s' = framesOf s ++ [⟨command,n⟩] := by
  rcases System.frames_cases ran with
    ⟨_,processed,toEngine,channel | ⟨n,command,mailbox,rfl,found,channel⟩⟩ | rfl | rfl
  · left
    rw [framesOf,processed,toEngine,channel,framesOf]
  · refine .inr ⟨n,command,mailbox,rfl,found,?_⟩
    rw [framesOf,processed,toEngine,channel,framesOf,List.append_assoc _ s.channel]
  · obtain ⟨frame,rest,_,queued,rfl⟩ := System.forward_cases ran
    rw [System.write,if_pos traced.linked]
    left
    simp [framesOf,queued]
  · obtain ⟨frame,rest,events,engine,written,_,rfl⟩ := System.process_cases ran
    left
    simp [framesOf,written]

/-- The stamps stay in order if every order is sent in order. -/
theorem stampsOf_step {earlier : List UInt64} (traced : Traced market s)
    (increasing : (earlier ++ stampsOf s).Pairwise (· < ·)) {event : Traffic} (may : InOrder earlier s event)
    (ran : s.traffic event = some s') : (earlier ++ stampsOf s').Pairwise (· < ·) := by
  rcases framesOf_step traced ran with same | ⟨n,command,mailbox,rfl,found,more⟩
  · rw [stampsOf,same]
    exact increasing
  · have last := may _ found
    rw [stampsOf,more,List.filterMap_append,← List.append_assoc]
    cases given : stamp command with
    | none =>
      simpa [given,stampsOf] using increasing
    | some q =>
      have one : [Frame.mk command n].filterMap (fun frame => stamp frame.command) = [q] := by simp [given]
      rw [one,List.pairwise_append]
      refine ⟨increasing,List.pairwise_singleton _ _,?_⟩
      intro p old q' new
      rw [List.mem_singleton.mp new]
      exact last q given p old
end

/-- The handlers submit orders and cancellations, none times out, and each order is
    sent after those with earlier stamps. The engine is restarted and the journal is
    replayed. Then the engine has the same orders, and at every price in the same order. -/
theorem restart_keeps_priority {start s lost s' : System maxOrders maxPriceLevels} {commands : List Command}
    {records : List JournalRecord} {frames events : Nat} (opened : Opened start) (recorded : Recorded commands records start)
    (increasing : (commands.filterMap stamp).Pairwise (· < ·))
    (leads : Leads System.traffic (fun s event => Patient event ∧ InOrder (commands.filterMap stamp) s event) start s)
    (handled : s.toGateway = []) (cut : s.link (.cut frames events) = some lost)
    (reconnects : Leads System.step (Reconnects (records ++ s.processed.flatMap acknowledged)) lost s')
    (linked : s'.linked = true) (restored : s'.manager = .restored) (side : Side) :
    standing s'.engine side = standing s.engine side := by
  have patient : Leads System.traffic DropsNothing start s := by
    refine leads.weaken ?_
    rintro s event ⟨patient,_⟩
    cases event with
    | drop n => cases patient
    | _ => trivial
  have whole := recorded_traffic opened recorded patient handled
  obtain ⟨market,shown⟩ := Opened.shows opened
  have ordered : Traced market s ∧ (commands.filterMap stamp ++ stampsOf s).Pairwise (· < ·) := by
    refine leads.keeps (P := fun s => Traced market s ∧ (commands.filterMap stamp ++ stampsOf s).Pairwise (· < ·))
      ⟨opened.traced shown,?_⟩ ?_
    · have none : stampsOf start = [] := by
        rw [stampsOf,framesOf,opened.processed,opened.toEngine,opened.channel]
        rfl
      rw [none,List.append_nil]
      exact increasing
    · rintro s event s' ⟨traced,increasing⟩ ⟨_,may⟩ ran
      exact ⟨traced.step ran,stampsOf_step traced increasing may ran⟩
  have stamps : ((commands ++ commandsOf s.processed).filterMap stamp).Pairwise (· < ·) := by
    refine ordered.2.sublist ?_
    have split : stampsOf s = (commandsOf s.processed).filterMap stamp ++
        (s.toEngine ++ s.channel).filterMap (fun frame => stamp frame.command) := by
      rw [stampsOf,framesOf,List.append_assoc,List.filterMap_append,commandsOf,List.filterMap_map,List.filterMap_map]
      rfl
    rw [List.filterMap_append,split]
    exact (List.sublist_append_left _ _).append_left _
  have sound : Sound s.engine := by
    obtain ⟨outcomes,ran,_⟩ := whole
    exact (shows_of_run ran).2.sound
  have rebuilding := (rebuilding_cut handled sound cut).leads reconnects
  exact rebuilding.engine linked restored whole stamps side

/-- Two bids of one price arrive and their handlers submit them in some order. -/
def twoBids (first second : Nat) : List Traffic :=
  .postOrder (order "buy" 100 5 1) :: .postOrder (order "buy" 100 6 2) :: submit first ++ submit second ++
    [.forward,.forward,.process,.process,.handle 0,.handle 0,.receive first,.receive second]

/-- The bids are sent in the order of their stamps. -/
theorem restart_keeps_priority_two_bids :
    ∃ s lost s' : System .four .four, s.link (.cut 0 0) = some lost ∧
      Leads System.step (Reconnects [.New 1 .Buy 100 5,.New 2 .Buy 100 6]) lost s' ∧ s'.manager = .restored ∧
      standing s.engine .Buy = [(1,.Buy,100,5),(2,.Buy,100,6)] ∧
      standing s'.engine .Buy = [(1,.Buy,100,5),(2,.Buy,100,6)] := by
  have ran : ((follow System.traffic (fun s event => Patient event ∧ InOrder [] s event) Correlation.opened
      (twoBids 0 1)).bind (fun s => (s.link (.cut 0 0)).bind (fun lost =>
        (follow System.step (Reconnects [.New 1 .Buy 100 5,.New 2 .Buy 100 6]) lost
          (.link .restartEngine :: reconnecting ++ replayOne ++ replayOne ++ [.link .endRestore])).map (fun s' =>
            decide (s.toGateway = [] ∧ s.processed.flatMap acknowledged = [.New 1 .Buy 100 5,.New 2 .Buy 100 6] ∧
              standing s.engine .Buy = [(1,.Buy,100,5),(2,.Buy,100,6)] ∧ s'.linked = true ∧
              s'.manager = .restored))))) = some true := by
    decide +kernel
  obtain ⟨s,placed,ran⟩ := Option.bind_eq_some_iff.mp ran
  obtain ⟨lost,cut,ran⟩ := Option.bind_eq_some_iff.mp ran
  obtain ⟨s',followed,result⟩ := Option.map_eq_some_iff.mp ran
  obtain ⟨handled,records,stands,linked,restored⟩ := of_decide_eq_true result
  have leads := follow_leads followed
  have again := restart_keeps_priority opened_opened recorded_opened List.Pairwise.nil (follow_leads placed)
    handled cut (by rw [records]; exact leads) linked restored .Buy
  exact ⟨s,lost,s',cut,leads,restored,stands,again.trans stands⟩

/-- The handlers of two bids change places between stamp and sending: the first bid has
    priority over the second, and after the restart it stands behind it. -/
theorem priority_turned_around :
    ∃ s lost s' : System .four .four, Opened Correlation.opened ∧ Recorded [] [] Correlation.opened ∧
      Leads System.traffic (fun _ event => Patient event) Correlation.opened s ∧ Quiet s ∧
      s.app.journal = some (s.processed.flatMap acknowledged) ∧ s.link (.cut 0 0) = some lost ∧
      Leads System.step (Reconnects (s.processed.flatMap acknowledged)) lost s' ∧ s'.linked = true ∧
      s'.manager = .restored ∧ standing s.engine .Buy = [(1,.Buy,100,5),(2,.Buy,100,6)] ∧
      standing s'.engine .Buy = [(2,.Buy,100,6),(1,.Buy,100,5)] := by
  have ran : ((follow System.traffic (fun _ event => Patient event) Correlation.opened (twoBids 1 0)).bind (fun s =>
      (s.link (.cut 0 0)).bind (fun lost => (follow System.step (Reconnects (s.processed.flatMap acknowledged)) lost
        (.link .restartEngine :: reconnecting ++ replayOne ++ replayOne ++ [.link .endRestore])).map (fun s' =>
          decide (Quiet s ∧ s.app.journal = some (s.processed.flatMap acknowledged) ∧ s'.linked = true ∧ s'.manager = .restored ∧
            standing s.engine .Buy = [(1,.Buy,100,5),(2,.Buy,100,6)] ∧
            standing s'.engine .Buy = [(2,.Buy,100,6),(1,.Buy,100,5)]))))) = some true := by
    decide +kernel
  obtain ⟨s,placed,ran⟩ := Option.bind_eq_some_iff.mp ran
  obtain ⟨lost,cut,ran⟩ := Option.bind_eq_some_iff.mp ran
  obtain ⟨s',followed,result⟩ := Option.map_eq_some_iff.mp ran
  obtain ⟨quiet,journal,linked,restored,before,after⟩ := of_decide_eq_true result
  exact ⟨s,lost,s',opened_opened,recorded_opened,follow_leads placed,quiet,journal,cut,follow_leads followed,
    linked,restored,before,after⟩

end HyperMatch.Restart
