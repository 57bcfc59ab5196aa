import HyperMatch.Histories
import HyperMatch.Wiring

/-!
A request and its answer through all layers: the handlers, both codecs, the bytes of the
connection in whatever pieces, the framer, the rings, the engine, and the reader. What
makes the answers right can be seen in the bytes: no handler may register an identifier
that a message under way still carries.
-/
namespace HyperMatch.EndToEnd
open HyperMatch.Wire HyperMatch.Matching HyperMatch.OrderBook HyperMatch.MatchingEngine HyperMatch.Runs HyperMatch.Processing
open HyperMatch.Streams HyperMatch.Correlation HyperMatch.Replays
open HyperMatch.FrameBuffer HyperMatch.DataPath HyperMatch.Terminators HyperMatch.Answers HyperMatch.Wiring
open HyperMatch.WireFormat (bytesOf)

/-- The identifier of the command that a message is, or is an event of. -/
def commandOf : BinaryMessage → UInt64
  | .newOrder m => m.orderId
  | .cancelOrder c => c.orderId
  | .trade t => t.incomingId
  | .ack a => a.orderId
  | .reject r => r.orderId

section
variable {capacities : Capacities}

/-- The identifiers of the commands that are under way, as the bytes tell them. -/
def underway (fd : SocketHandle) (w : Wired capacities) : List UInt64 :=
  ((readBytes [] (w.toReader ++ w.toClient)).1 ++ completed (unfinishedOf w.pipeline.registry fd) w.toServer ++
      (readBytes [] w.channel.flatten).1).map commandOf ++
    (w.requests.filter (fun r => r.phase = .registered)).map (fun r => r.command.orderId)

/-- A handler registers only an identifier that nothing under way carries. -/
def Alone (fd : SocketHandle) (w : Wired capacities) : Motion → Prop
  | .register n => ∀ request ∈ w.requests[n]?, w.app.inflight.lookup request.command.orderId = none →
      request.command.orderId ∉ underway fd w
  | _ => True

variable {fd : SocketHandle} {w w' : Wired capacities} {s : System capacities.orders capacities.levels} {market : Market}

theorem commandOf_message (command : Command) : commandOf command.message = command.orderId := by
  cases command <;> rfl

theorem commandOf_terminator {command : Command} {msg : BinaryMessage} (terminator : Terminator command msg) :
    commandOf msg = command.orderId := by
  cases command with
  | newOrder m =>
    rcases terminator with rfl | ⟨reason,rfl⟩
    · rfl
    · rfl
  | cancelOrder c =>
    rcases terminator with rfl | ⟨reason,rfl⟩
    · rfl
    · rfl

/-- An event carries the identifier of the command that it answers. -/
theorem commandOf_event (traced : Traced market s) {frame : Frame} {msg : BinaryMessage} (sent : (frame,msg) ∈ s.toGateway) :
    commandOf msg = frame.command.orderId := by
  have inside : (frame,msg) ∈ s.processed.flatMap emitted := by
    rw [← traced.stream]
    exact List.mem_append_right _ sent
  obtain ⟨p,processed,made⟩ := List.mem_flatMap.mp inside
  obtain ⟨event,inEvents,same⟩ := List.mem_map.mp made
  cases same
  obtain ⟨trades,terminator,events,own,last⟩ := traced.answered p processed
  rw [events,List.mem_append,List.mem_singleton] at inEvents
  rcases inEvents with inTrades | rfl
  · obtain ⟨t,known,rfl⟩ := List.mem_map.mp inTrades
    exact own t known
  · exact commandOf_terminator last

/-- What is outstanding is under way. -/
theorem mem_underway (carries : Carries fd w s) (traced : Traced market s) {frame : Frame} (out : frame ∈ outstanding s) :
    frame.command.orderId ∈ underway fd w := by
  obtain ⟨unfinished,begun,reads⟩ := carries.upstream
  have down := readBytes_messages (s.toGateway.map Prod.snd) (by
    intro msg inside
    obtain ⟨p,sent,rfl⟩ := List.mem_map.mp inside
    exact carries.emitted p sent)
  have queued := readBytes_messages (s.channel.map (fun frame => frame.command.message)) (by
    intro msg inside
    obtain ⟨frame,waiting,rfl⟩ := List.mem_map.mp inside
    exact carries.queued frame waiting)
  rw [List.flatMap_map] at queued
  have flat : w.channel.flatten = s.channel.flatMap (fun frame => bytesOf frame.command.message) := by
    rw [carries.channel,List.flatMap_def]
  rw [underway,carries.downstream,down,begun,flat,queued]
  simp only [completed,reads]
  simp only [List.mem_append,List.mem_map]
  rw [← commandOf_message]
  rcases mem_outstanding.mp out with ⟨msg,sent⟩ | written | waiting | unsent
  · rw [commandOf_message,← commandOf_event traced sent]
    exact .inl ⟨msg,.inl (.inl ⟨(frame,msg),sent,rfl⟩),rfl⟩
  · exact .inl ⟨_,.inl (.inr ⟨frame,written,rfl⟩),rfl⟩
  · exact .inl ⟨_,.inr ⟨frame,waiting,rfl⟩,rfl⟩
  · obtain ⟨mailbox,found⟩ := mem_unsent.mp unsent
    rw [carries.requests] at found
    refine .inr ⟨_,List.mem_filter.mpr ⟨List.mem_of_getElem? found,by simp⟩,?_⟩
    rw [commandOf_message]

theorem Alone.registersAlone (carries : Carries fd w s) (traced : Traced market s) {n : Nat} (alone : Alone fd w (.register n)) :
    RegistersAlone s (.register n) := by
  intro request found free frame out same
  rw [carries.requests] at found
  rw [carries.app] at free
  exact alone request found free (same ▸ mem_underway carries traced out)

/-- Reads fit the rings, and identifiers are registered alone. -/
def Regular (fd : SocketHandle) (w : Wired capacities) (motion : Motion) : Prop := w.Roomy fd motion ∧ Alone fd w motion

/-- A run over bytes goes on as one over whole frames, with its guard. -/
theorem frames_follow {start s : System capacities.orders capacities.levels} (opened : Opened start)
    (led : Leads System.traffic RegistersAlone start s) (carries : Carries fd w s)
    (leads : Leads (Wired.step fd) (Regular fd) w w') :
    ∃ s', Leads System.traffic RegistersAlone s s' ∧ Carries fd w' s' := by
  obtain ⟨market,shown⟩ := Opened.shows opened
  induction leads with
  | start => exact ⟨s,.start,carries⟩
  | @step w₁ w₂ motion _ may ran ih =>
    obtain ⟨s₁,before,carries⟩ := ih
    have traced := Opened.leads opened shown (led.trans before)
    have stepped : ∃ s', Leads System.traffic RegistersAlone s₁ s' ∧ Carries fd w₂ s' := by
      refine carries.step ?_ (fun _ => trivial) may.1 ran
      intro event made
      cases motion with
      | register n =>
        cases made
        exact may.2.registersAlone carries traced
      | arrive count => cases made
      | _ =>
        cases made
        trivial
    obtain ⟨s₂,after,carries'⟩ := stepped
    exact ⟨s₂,before.trans after,carries'⟩

/-- An order of the frames that explains a state: the engine has run just these, each of
    another request, and whoever is answered is told what the engine did with its frame at
    its place. -/
structure Explains (start w : Wired capacities) (log : List Frame) : Prop where
  once : (log.map Frame.owner).Nodup
  sent : ∀ frame ∈ log, ∃ r, w.requests[frame.owner]? = some r ∧ r.command = frame.command
  ran : ∃ outcomes, run start.pipeline.processor.engine (log.map Frame.command) = some (outcomes,w.pipeline.processor.engine)
  tells : ∀ n command reply, w.requests[n]? = some ⟨command,.answered,some reply⟩ → ∀ latencyUs,
    ∃ before trades after outcomes engine last, log = before ++ ⟨command,n⟩ :: after ∧
      run start.pipeline.processor.engine (before.map Frame.command) = some (outcomes,engine) ∧
      answer engine command.message = some (trades.map .trade ++ [reply.terminator],last) ∧
      TellsOf engine latencyUs trades (respond reply latencyUs command) command

/-- All that holds of the run over whole frames. -/
structure Followed (market : Market) (start s : System capacities.orders capacities.levels) : Prop where
  traced : Traced market s
  correlated : Correlated s
  ranged : Answers.Ranged s.requests
  ran : Ran start s

theorem followed {start s : System capacities.orders capacities.levels} (opened : Opened start)
    (shown : Shows start.engine market) (leads : Leads System.traffic RegistersAlone start s) : Followed market start s := by
  refine leads.keeps (P := Followed market start) ⟨opened.traced shown,Opened.correlated opened,?_,?_⟩ ?_
  · intro n r found
    rw [opened.requests] at found
    cases found
  · rw [Ran,opened.processed]
    exact ⟨[],rfl⟩
  · intro s event s' before may ran
    exact ⟨before.traced.step ran,before.correlated.step before.traced may ran,before.ranged.step ran,before.ran.step ran⟩

theorem Followed.explains {start : Wired capacities} (shown : Shows start.frames.engine market)
    (followed : Followed market start.frames s) (carries : Carries fd w s) :
    Explains start w (s.processed.map Prod.fst) := by
  have inside : ∀ frame ∈ s.processed.map Prod.fst, frame ∈ framesOf s := by
    intro frame inside
    rw [framesOf]
    exact List.mem_append_left _ (List.mem_append_left _ inside)
  have commands : (s.processed.map Prod.fst).map Frame.command = commandsOf s.processed := by
    rw [List.map_map]
    rfl
  refine ⟨?_,?_,?_,?_⟩
  · have distinct := followed.traced.distinct
    rw [framesOf,List.append_assoc,List.map_append] at distinct
    exact (List.nodup_append.mp distinct).1
  · intro frame member
    obtain ⟨r,found,same,_⟩ := followed.traced.sent frame (inside frame member)
    exact ⟨r,carries.requests ▸ found,same⟩
  · obtain ⟨outcomes,ran⟩ := followed.ran
    rw [commands,← carries.engine]
    exact ⟨outcomes,ran⟩
  · intro n command reply answered latencyUs
    rw [← carries.requests] at answered
    obtain ⟨before,trades,after,outcomes,engine,split,ran,⟨last,replied⟩,tells,_⟩ :=
      reply_tells shown followed.traced followed.correlated followed.ranged answered latencyUs
    refine ⟨before.map Prod.fst,trades,after.map Prod.fst,outcomes,engine,last,?_,?_,replied,tells⟩
    · rw [split]
      simp
    · rw [List.map_map]
      exact ran

theorem processed_grows {s s' : System capacities.orders capacities.levels} {allowed : System capacities.orders capacities.levels → Traffic → Prop}
    (leads : Leads System.traffic allowed s s') : ∃ more, s'.processed = s.processed ++ more := by
  refine leads.keeps (P := fun s' => ∃ more, s'.processed = s.processed ++ more) ⟨[],by simp⟩ ?_
  rintro s₁ event s₂ ⟨more,grown⟩ _ ran
  rcases GatewayBook.processed_step ran with ⟨same,_⟩ | ⟨frame,_,events,_,_,added,_⟩
  · exact ⟨more,same.trans grown⟩
  · exact ⟨more ++ [(frame,events)],by rw [added,grown,List.append_assoc]⟩

/-- The two programs over their connection answer as if every request took effect at one
    moment: the frames that the engine has run have one order that explains all answers
    given so far, and whatever happens later only extends it, so that a request that comes
    after an answer stands behind it. -/
theorem answers_linearize {start : Wired capacities} (connected : start.Connected fd) (restored : start.app.restoring = false)
    (idle : start.app.inflight = ∅) (leads : Leads (Wired.step fd) (Regular fd) start w) :
    ∃ log, Explains start w log ∧
      ∀ w', Leads (Wired.step fd) (Regular fd) w w' → ∃ more, Explains start w' (log ++ more) := by
  have opened : Opened start.frames :=
    ⟨rfl,rfl,connected.serving.running.orderly.sound,restored,idle,connected.requests,rfl,rfl,rfl,rfl,rfl⟩
  obtain ⟨market,shown⟩ := Opened.shows opened
  obtain ⟨s,first,carries⟩ := frames_follow opened .start connected.carries leads
  refine ⟨s.processed.map Prod.fst,(followed opened shown first).explains shown carries,?_⟩
  intro w' later
  obtain ⟨s',second,carries'⟩ := frames_follow opened first carries later
  obtain ⟨more,grown⟩ := processed_grows second
  refine ⟨more.map Prod.fst,?_⟩
  rw [← List.map_append,← grown]
  exact (followed opened shown (first.trans second)).explains shown carries'

instance (fd : SocketHandle) (w : Wired capacities) : DecidablePred (Alone fd w)
  | .register n => inferInstanceAs (Decidable (∀ request ∈ w.requests[n]?,
      w.app.inflight.lookup request.command.orderId = none → request.command.orderId ∉ underway fd w))
  | .postOrder _ | .postCancel _ | .check _ | .send _ | .receive _ | .giveUp _ | .drop _ | .forward | .deliver _
  | .arrive _ | .handle _ => .isTrue trivial

instance (fd : SocketHandle) (w : Wired capacities) (motion : Motion) : Decidable (Regular fd w motion) :=
  inferInstanceAs (Decidable (_ ∧ _))
end

/-- An ask that takes three of the bid, in pieces of other sizes. -/
def thenTaken : List Motion :=
  [.postOrder (order "sell" 90 3 6),.check 1,.register 1,.send 1,.forward,.deliver 29,.deliver 1,.arrive 40,.handle 0,
    .arrive 7,.handle 0,.receive 1]

theorem answers_linearize_bid_and_ask :
    ∃ w w', Leads (Wired.step 7) (Regular 7) joined w ∧ Leads (Wired.step 7) (Regular 7) w w' ∧
      w.requests[0]? = some ⟨.newOrder ⟨5,.Buy,100,5,0⟩,.answered,some ⟨.ack ⟨5,.Accepted⟩,[]⟩⟩ ∧
      w'.requests[1]? = some ⟨.newOrder ⟨6,.Sell,90,3,1⟩,.answered,some ⟨.ack ⟨6,.Accepted⟩,[⟨1,100,3,5⟩]⟩⟩ ∧
      ∃ log more, Explains joined w log ∧ Explains joined w' (log ++ more) := by
  have ran : (follow (Wired.step 7) (Regular 7) joined cutUp).bind (fun w =>
      (follow (Wired.step 7) (Regular 7) w thenTaken).map (fun w' => (w.requests[0]?,w'.requests[1]?))) =
        some (some ⟨.newOrder ⟨5,.Buy,100,5,0⟩,.answered,some ⟨.ack ⟨5,.Accepted⟩,[]⟩⟩,
          some ⟨.newOrder ⟨6,.Sell,90,3,1⟩,.answered,some ⟨.ack ⟨6,.Accepted⟩,[⟨1,100,3,5⟩]⟩⟩) := by
    decide +kernel
  obtain ⟨w,first,rest⟩ := Option.bind_eq_some_iff.mp ran
  obtain ⟨w',second,found⟩ := Option.map_eq_some_iff.mp rest
  obtain ⟨bid,ask⟩ := Prod.mk.inj found
  have leads := follow_leads first
  have later := follow_leads second
  obtain ⟨log,explains,grows⟩ := answers_linearize joined_connected rfl rfl leads
  obtain ⟨more,explains'⟩ := grows w' later
  exact ⟨w,w',leads,later,bid,ask,log,more,explains,explains'⟩

end HyperMatch.EndToEnd
