import HyperMatch.Correlation

/-!
What the journal holds. A record is written from the entry that a terminator finds, so
the journal is the history of the accepted commands as long as no handler that gives
up takes an entry away; an entry that is gone when the acknowledgement comes leaves no
record.
-/
namespace HyperMatch.Journaling
open HyperMatch.Wire HyperMatch.Matching HyperMatch.MatchingEngine HyperMatch.Streams HyperMatch.Correlation HyperMatch.Runs
open HyperMatch.OrderBook (PoolCapacity)

variable {maxOrders maxPriceLevels : PoolCapacity}

/-- The record of a command that the engine acknowledged. -/
def acknowledged (p : Frame × List BinaryMessage) : List JournalRecord :=
  match p.1.command with
  | .newOrder m =>
    if .ack ⟨m.orderId,.Accepted⟩ ∈ p.2 then [.New m.orderId m.side m.priceTicks m.quantity] else []
  | .cancelOrder c => if .ack ⟨c.orderId,.Cancelled⟩ ∈ p.2 then [.Cancel c.orderId] else []

/-- A handler that drops its entry finds it gone. -/
def DropsNothing (s : System maxOrders maxPriceLevels) : Traffic → Prop
  | .drop n => ∀ request ∈ s.requests[n]?, s.app.inflight.lookup request.command.orderId = none
  | _ => True

instance (s : System maxOrders maxPriceLevels) : DecidablePred (DropsNothing s)
  | .drop n => inferInstanceAs (Decidable (∀ request ∈ s.requests[n]?,
      s.app.inflight.lookup request.command.orderId = none))
  | .postOrder _ | .postCancel _ | .check _ | .register _ | .send _ | .receive _ | .giveUp _ | .forward | .process
  | .handle _ => .isTrue trivial

/-! ### Records -/

/-- The record of an event. -/
def recordOf (p : Frame × BinaryMessage) : List JournalRecord := acknowledged (p.1,[p.2])

theorem recordOf_trade (frame : Frame) (t : Trade) : recordOf (frame,.trade t) = [] := by
  rw [recordOf,acknowledged]
  split
  · simp
  · simp

/-- What a terminator writes from the entry of its own command. -/
theorem recordsOf_own {entry : InFlight} {frame : Frame} {msg : BinaryMessage} (registers : Registers entry frame.command)
    (terminator : Terminator frame.command msg) : AppState.recordsOf entry msg = recordOf (frame,msg) := by
  obtain ⟨command,owner⟩ := frame
  cases command with
  | newOrder m =>
    obtain ⟨side,price,quantity,_⟩ := registers
    rcases terminator with rfl | ⟨reason,rfl⟩
    · simp [AppState.recordsOf,recordOf,acknowledged,side,price,quantity]
    · simp [AppState.recordsOf,recordOf,acknowledged]
  | cancelOrder c =>
    rcases terminator with rfl | ⟨reason,rfl⟩
    · simp [AppState.recordsOf,recordOf,acknowledged]
    · simp [AppState.recordsOf,recordOf,acknowledged]

/-- A command has the record of its last event. -/
theorem recordOf_emitted {p : Frame × List BinaryMessage} (answered : Answered p.1.command p.2) :
    (emitted p).flatMap recordOf = acknowledged p := by
  obtain ⟨⟨command,owner⟩,events⟩ := p
  obtain ⟨trades,terminator,rfl,_⟩ := answered
  have none : ((trades.map BinaryMessage.trade).map (fun msg => ((⟨command,owner⟩ : Frame),msg))).flatMap recordOf = [] := by
    rw [List.flatMap_eq_nil_iff]
    intro q inside
    obtain ⟨msg,inTrades,rfl⟩ := List.mem_map.mp inside
    obtain ⟨t,_,rfl⟩ := List.mem_map.mp inTrades
    exact recordOf_trade _ t
  rw [emitted,List.map_append,List.flatMap_append,none]
  cases command with
  | newOrder m => simp [recordOf,acknowledged]
  | cancelOrder c => simp [recordOf,acknowledged]

/-! ### Entries -/

/-- Every outstanding command has its own entry. -/
def Covered (s : System maxOrders maxPriceLevels) : Prop :=
  ∀ frame ∈ outstanding s, ∃ entry, s.app.inflight.lookup frame.command.orderId = some entry ∧ entry.responder = frame.owner

section
variable {s s' : System maxOrders maxPriceLevels} {market : Market}

theorem Covered.step (covered : Covered s) (traced : Traced market s) {event : Traffic} (may : DropsNothing s event)
    (ran : s.traffic event = some s') : Covered s' := by
  cases traced.moves ran with
  | aside still inflight same =>
    intro frame inside
    rw [inflight]
    exact covered frame ((same frame).mp inside)
  | registers found free fills responder still inflight more =>
    rename_i n command mailbox entry
    intro frame inside
    rw [inflight]
    rcases (more frame).mp inside with old | rfl
    · obtain ⟨entry',looked,owner⟩ := covered frame old
      have differs : frame.command.orderId ≠ command.orderId := by
        intro same
        rw [same,free] at looked
        cases looked
      exact ⟨entry',by rw [Finmap.lookup_insert_of_ne _ differs]; exact looked,owner⟩
    · exact ⟨entry,Finmap.lookup_insert _,responder⟩
  | drops found still inflight same =>
    rename_i n command mailbox
    intro frame inside
    obtain ⟨entry,looked,owner⟩ := covered frame ((same frame).mp inside)
    have differs : frame.command.orderId ≠ command.orderId := by
      intro same
      rw [same,may _ found] at looked
      cases looked
    exact ⟨entry,by rw [inflight,Finmap.lookup_erase_ne differs]; exact looked,owner⟩
  | trades next own applied toGateway processed requests inflight journal book restoring same =>
    intro frame inside
    rw [inflight]
    obtain ⟨entry,looked,owner⟩ := covered frame ((same frame).mp inside)
    obtain ⟨entry',looked',owner'⟩ := accumulate_covers _ looked
    exact ⟨entry',looked',owner'.trans owner⟩
  | misses next terminator missing applied app processed requests less =>
    intro frame inside
    rw [app]
    exact covered frame ((less frame).mp inside).1
  | settles next terminator found applied processed requests inflight journal book restoring less =>
    rename_i frame msg rest entry
    intro other inside
    obtain ⟨old,differs⟩ := (less other).mp inside
    obtain ⟨entry',looked,owner⟩ := covered other old
    have apart : other.command.orderId ≠ frame.command.orderId := by
      intro same
      obtain ⟨_,looked',owner'⟩ := covered frame (next_outstanding next)
      rw [same] at looked
      cases looked.symm.trans looked'
      exact differs (owner.symm.trans owner')
    exact ⟨entry',by rw [inflight,Finmap.lookup_erase_ne apart]; exact looked,owner⟩

/-! ### The journal along a run -/

/-- The journal is the old one and the records of the events that were handled. -/
structure Journaled (records : List JournalRecord) (s : System maxOrders maxPriceLevels) : Prop where
  covered : Covered s
  restoring : s.app.restoring = false
  journal : s.app.journal = some (records ++ s.applied.flatMap recordOf)

theorem Journaled.step {records : List JournalRecord} (journaled : Journaled records s) (traced : Traced market s)
    {event : Traffic} (may : DropsNothing s event) (ran : s.traffic event = some s') : Journaled records s' := by
  have covered := journaled.covered.step traced may ran
  have quiet (still : Still s s') : Journaled records s' := by
    refine ⟨covered,still.restoring.trans journaled.restoring,?_⟩
    rw [still.journal,still.applied]
    exact journaled.journal
  cases traced.moves ran with
  | aside still inflight same => exact quiet still
  | registers found free fills responder still inflight more => exact quiet still
  | drops found still inflight same => exact quiet still
  | trades next own applied toGateway processed requests inflight journal book restoring same =>
    refine ⟨covered,restoring.trans journaled.restoring,?_⟩
    rw [journal,applied,journaled.journal,List.flatMap_append]
    simp [recordOf_trade]
  | misses next terminator missing applied app processed requests less =>
    obtain ⟨entry,looked,_⟩ := journaled.covered _ (next_outstanding next)
    rw [missing] at looked
    cases looked
  | settles next terminator found applied processed requests inflight journal book restoring less =>
    rename_i frame msg rest entry
    refine ⟨covered,restoring.trans journaled.restoring,?_⟩
    obtain ⟨own,looked,owner⟩ := journaled.covered _ (next_outstanding next)
    cases looked.symm.trans found
    -- The entry was registered by the handler whose frame this is.
    have registers := (entry_own traced found (next_sent traced next) owner).2
    rw [journal,applied,journaled.restoring,journaled.journal,recordsOf_own registers terminator,List.flatMap_append]
    simp

theorem Opened.journaled {start : System maxOrders maxPriceLevels} {records : List JournalRecord} (opened : Opened start)
    (shown : Shows start.engine market) (journal : start.app.journal = some records)
    (leads : Leads System.traffic DropsNothing start s) : Traced market s ∧ Journaled records s := by
  have initial : Journaled records start := by
    refine ⟨?_,opened.restoring,?_⟩
    · intro frame inside
      rw [mem_outstanding,opened.toGateway,opened.toEngine,opened.channel,opened.requests] at inside
      simp [unsent] at inside
    · rw [journal,opened.applied]
      simp
  refine leads.keeps (P := fun s => Traced market s ∧ Journaled records s) ⟨opened.traced shown,initial⟩ ?_
  rintro s event s' ⟨traced,journaled⟩ may ran
  exact ⟨traced.step ran,journaled.step traced may ran⟩

/-- The journal once all events are handled. -/
theorem Journaled.history {records : List JournalRecord} (journaled : Journaled records s) (traced : Traced market s)
    (handled : s.toGateway = []) : s.app.journal = some (records ++ s.processed.flatMap acknowledged) := by
  have applied : s.applied = s.processed.flatMap emitted := by
    rw [← traced.stream,handled,List.append_nil]
  rw [journaled.journal,applied,List.flatMap_assoc]
  congr 2
  exact List.flatMap_congr (fun p inside => recordOf_emitted (traced.answered p inside))
end

/-- Once all events are handled, the journal is what it was and, in the engine's
    order, the record of every command that the engine acknowledged. -/
theorem journal_is_accepted_history {start s : System maxOrders maxPriceLevels} {records : List JournalRecord}
    (opened : Opened start) (journal : start.app.journal = some records)
    (leads : Leads System.traffic DropsNothing start s) (handled : s.toGateway = []) :
    s.app.journal = some (records ++ s.processed.flatMap acknowledged) := by
  obtain ⟨market,shown⟩ := Opened.shows opened
  obtain ⟨traced,journaled⟩ := Opened.journaled opened shown journal leads
  exact journaled.history traced handled

/-- Three commands, and a cancellation of an order that never was, whose handler gives up:
    its entry is gone when it drops it. -/
theorem journal_is_accepted_history_three_handlers :
    ∃ s : System .four .four, Leads System.traffic DropsNothing Correlation.opened s ∧ s.toGateway = [] ∧ s.processed.length = 4 ∧
      s.app.journal = some (s.processed.flatMap acknowledged) ∧
      s.processed.flatMap acknowledged = [.New 5 .Buy 100 5,.New 6 .Sell 90 3,.Cancel 5] := by
  have ran : ((follow System.traffic DropsNothing Correlation.opened
      (threeHandlers ++ .postCancel 9 :: submit 3 ++ [.forward,.process,.giveUp 3,.handle 0,.drop 3])).map
        (fun s => (s.toGateway,s.processed.length,s.app.journal))) =
      some ([],4,some [.New 5 .Buy 100 5,.New 6 .Sell 90 3,.Cancel 5]) := by
    decide +kernel
  obtain ⟨s,followed,result⟩ := Option.map_eq_some_iff.mp ran
  obtain ⟨handled,rest⟩ := Prod.mk.inj result
  obtain ⟨four,journal⟩ := Prod.mk.inj rest
  have leads := follow_leads followed
  have history := journal_is_accepted_history opened_opened rfl leads handled
  exact ⟨s,leads,handled,four,history,Option.some.inj (history.symm.trans journal)⟩

/-- The handler times out and drops its entry; the acknowledgement of its order comes
    after that and is not recorded. -/
theorem accepted_order_not_recorded :
    ∃ s : System .four .four, Opened Correlation.opened ∧ Leads System.traffic (fun _ _ => True) Correlation.opened s ∧
      s.toGateway = [] ∧ s.app.journal = some [] ∧ s.processed.flatMap acknowledged = [.New 5 .Buy 100 5] := by
  have ran : ((follow System.traffic (fun _ _ => True) Correlation.opened
      (.postOrder (order "buy" 100 5 5) :: submit 0 ++ [.forward,.process,.giveUp 0,.drop 0,.handle 0])).map
        (fun s => (s.toGateway,s.app.journal,s.processed.flatMap acknowledged))) =
      some ([],some [],[.New 5 .Buy 100 5]) := by
    decide +kernel
  obtain ⟨s,followed,result⟩ := Option.map_eq_some_iff.mp ran
  obtain ⟨handled,rest⟩ := Prod.mk.inj result
  obtain ⟨journal,history⟩ := Prod.mk.inj rest
  exact ⟨s,opened_opened,follow_leads followed,handled,journal,history⟩

end HyperMatch.Journaling
