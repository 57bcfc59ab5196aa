import HyperMatch.Replays

/-!
The history of an engine and the journal of the gateway. As long as no handler takes an
entry away, the traffic adds to the journal what it adds to the accepted part of the
history, so the journal stays its record (`recorded_traffic`).
-/
namespace HyperMatch.Replays
open HyperMatch.Wire HyperMatch.Matching HyperMatch.MatchingEngine HyperMatch.Streams HyperMatch.Journaling HyperMatch.Runs
open HyperMatch.OrderBook (PoolCapacity)

variable {maxOrders maxPriceLevels : PoolCapacity}

/-- The engine was started empty and has processed these commands since; the journal
    holds those that it accepted. -/
def Recorded (commands : List Command) (records : List JournalRecord) (s : System maxOrders maxPriceLevels) : Prop :=
  ∃ outcomes, run .new commands = some (outcomes,s.engine) ∧ s.app.journal = some records ∧
    records = (acceptedOf commands outcomes).map asRecord

/-! ### Runs of the engine -/

section
variable {engine middle last : MatchingEngine maxOrders maxPriceLevels}

theorem run_append {first second : List Command} {outcomes later : List Outcome}
    (ran : run engine first = some (outcomes,middle)) (ran' : run middle second = some (later,last)) :
    run engine (first ++ second) = some (outcomes ++ later,last) := by
  induction first generalizing engine outcomes with
  | nil =>
    cases ran
    exact ran'
  | cons command rest ih =>
    simp only [run,Option.bind_eq_bind,Option.bind_eq_some_iff,Option.pure_def,Option.some.injEq,Prod.exists,
      Prod.mk.injEq] at ran
    obtain ⟨outcome,next,stepped,others,_,ran,rfl,rfl⟩ := ran
    simp [run,stepped,ih ran]

theorem run_length {commands : List Command} {outcomes : List Outcome}
    (ran : run engine commands = some (outcomes,last)) : outcomes.length = commands.length := by
  induction commands generalizing engine outcomes with
  | nil =>
    cases ran
    rfl
  | cons command rest ih =>
    simp only [run,Option.bind_eq_bind,Option.bind_eq_some_iff,Option.pure_def,Option.some.injEq,Prod.exists,
      Prod.mk.injEq] at ran
    obtain ⟨outcome,next,_,others,_,ran,rfl,rfl⟩ := ran
    rw [List.length_cons,List.length_cons,ih ran]

/-- An answer is one step of the engine. -/
theorem answer_step {command : Command} {events : List BinaryMessage}
    (answered : Processing.answer engine command.message = some (events,last)) :
    ∃ outcome, step engine command = some (outcome,last) := by
  cases command with
  | newOrder m =>
    simp only [Command.message,Processing.answer,Option.bind_eq_bind,Option.bind_eq_some_iff,Option.pure_def,
      Option.some.injEq,Prod.exists,Prod.mk.injEq] at answered
    obtain ⟨outcome,engine',stepped,_,rfl⟩ := answered
    exact ⟨outcome,stepped⟩
  | cancelOrder c =>
    simp only [Command.message,Processing.answer,Option.bind_eq_bind,Option.bind_eq_some_iff,Option.pure_def,
      Option.some.injEq,Prod.exists,Prod.mk.injEq] at answered
    obtain ⟨outcome,engine',stepped,_,rfl⟩ := answered
    exact ⟨outcome,stepped⟩
end

theorem acceptedOf_append {commands later : List Command} {outcomes more : List Outcome}
    (lengths : outcomes.length = commands.length) :
    acceptedOf (commands ++ later) (outcomes ++ more) = acceptedOf commands outcomes ++ acceptedOf later more := by
  rw [acceptedOf,List.zip_append lengths.symm,List.filter_append,List.map_append]
  rfl

/-! ### Records -/

/-- A command is acknowledged if it is accepted. -/
theorem acknowledged_step (market : Market) (frame : Frame) :
    acknowledged (frame,eventsOf frame.command (market.step maxOrders maxPriceLevels frame.command).1) =
      if (market.step maxOrders maxPriceLevels frame.command).1.accepted then [asRecord frame.command] else [] := by
  obtain ⟨command,owner⟩ := frame
  cases command with
  | newOrder m =>
    cases checked : validateNewOrder m with
    | some reason =>
      have told : market.step maxOrders maxPriceLevels (.newOrder m) =
          ({ accepted := false, rejects := [⟨m.orderId,reason⟩] },market) := by
        simp only [Market.step,Market.newOrder,checked]
      simp [told,acknowledged,eventsOf]
    | none =>
      have told : (market.step maxOrders maxPriceLevels (.newOrder m)).1 =
          { accepted := true, trades := (market.exchange.newOrder maxOrders maxPriceLevels m).1 } := by
        simp only [Market.step,Market.newOrder,checked]
      simp [told,acknowledged,eventsOf,asRecord]
  | cancelOrder c =>
    cases taken : market.exchange.cancel c.orderId with
    | mk entry after =>
      cases entry with
      | some e =>
        have told : (market.step maxOrders maxPriceLevels (.cancelOrder c)).1 =
            { accepted := true, acks := [⟨c.orderId,.Cancelled⟩] } := by
          simp only [Market.step,Market.cancelOrder,taken]
        simp [told,acknowledged,eventsOf,asRecord]
      | none =>
        have told : (market.step maxOrders maxPriceLevels (.cancelOrder c)).1.accepted = false ∧
            (market.step maxOrders maxPriceLevels (.cancelOrder c)).1.acks = [] := by
          simp only [Market.step,Market.cancelOrder,taken]
          trivial
        simp [told,acknowledged,eventsOf]

/-- The acknowledged commands of a conversation are its accepted ones. -/
theorem acknowledged_spoken {market : Market} {log : List (Frame × List BinaryMessage)}
    (spoken : Spoken maxOrders maxPriceLevels market log) :
    log.flatMap acknowledged = (acceptedOf (commandsOf log)
      (Market.answers (Market.step maxOrders maxPriceLevels) market (commandsOf log)).1).map asRecord := by
  induction log generalizing market with
  | nil => rfl
  | cons p rest ih =>
    obtain ⟨frame,events⟩ := p
    obtain ⟨told,later⟩ := spoken
    have answer : events = eventsOf frame.command (market.step maxOrders maxPriceLevels frame.command).1 := told
    have commands : commandsOf ((frame,events) :: rest) = frame.command :: commandsOf rest := rfl
    rw [List.flatMap_cons,ih later,commands,Market.answers,acceptedOf_cons,answer,acknowledged_step]
    split_ifs
    · rfl
    · rfl

/-! ### The traffic -/

section
variable {start s s' : System maxOrders maxPriceLevels}

/-- The engine has run what was processed. -/
def Ran (start s : System maxOrders maxPriceLevels) : Prop :=
  ∃ outcomes, run start.engine (commandsOf s.processed) = some (outcomes,s.engine)

theorem Ran.step (before : Ran start s) {event : Traffic} (ran : s.traffic event = some s') : Ran start s' := by
  obtain ⟨outcomes,done⟩ := before
  rcases GatewayBook.processed_step ran with ⟨same,engine⟩ | ⟨frame,rest,events,_,_,more,answered⟩
  · rw [Ran,same,engine]
    exact ⟨outcomes,done⟩
  · obtain ⟨outcome,stepped⟩ := answer_step answered
    have one : run s.engine [frame.command] = some ([outcome],s'.engine) := by simp [run,stepped]
    rw [Ran,more,commandsOf,List.map_append]
    exact ⟨_,run_append done one⟩

/-- The journal stays the record of the history. -/
theorem recorded_traffic {commands : List Command} {records : List JournalRecord} (opened : Opened start)
    (recorded : Recorded commands records start) (leads : Leads System.traffic DropsNothing start s)
    (handled : s.toGateway = []) :
    Recorded (commands ++ commandsOf s.processed) (records ++ s.processed.flatMap acknowledged) s := by
  obtain ⟨outcomes,ran,journal,accepted⟩ := recorded
  obtain ⟨rfl,shown⟩ := shows_of_run ran
  obtain ⟨traced,journaled⟩ := Opened.journaled opened shown journal leads
  have onward : Ran start s := by
    refine leads.keeps ?_ (fun _ _ _ before _ ran => before.step ran)
    rw [Ran,opened.processed]
    exact ⟨[],rfl⟩
  obtain ⟨later,ran'⟩ := onward
  refine ⟨_,run_append ran ran',journaled.history traced handled,?_⟩
  obtain ⟨engine,ran'',_⟩ := run_shows shown (commandsOf s.processed)
  cases ran'.symm.trans ran''
  rw [acceptedOf_append (run_length ran),List.map_append,← accepted,acknowledged_spoken traced.spoken]
end

end HyperMatch.Replays
