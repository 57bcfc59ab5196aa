import HyperMatch.Wiring

/-!
No handler waits in vain. On a connection that stays up, the manager, the engine's server
and the reader alone bring every waiting handler a reply, whatever the handlers did
before. Two things can spoil it: a handler that gives up and takes away the entry of
another with the same identifier, and a ring of the server that is full. A handler
without a reply has its entry, and its frame is still under way (`Awaited`).
-/
namespace HyperMatch.Draining
open HyperMatch.Wire HyperMatch.Matching HyperMatch.MatchingEngine HyperMatch.Streams HyperMatch.Correlation HyperMatch.Runs
open HyperMatch.FrameBuffer HyperMatch.DataPath HyperMatch.WirePath HyperMatch.Wiring
open HyperMatch.OrderBook (PoolCapacity)
open HyperMatch.WireFormat (bytesOf)

variable {maxOrders maxPriceLevels : PoolCapacity}

/-- A handler that drops an entry drops its own. -/
def DropsOwn (s : System maxOrders maxPriceLevels) : Traffic → Prop
  | .drop n => ∀ request ∈ s.requests[n]?, ∀ entry ∈ s.app.inflight.lookup request.command.orderId, entry.responder = n
  | _ => True

instance (s : System maxOrders maxPriceLevels) : DecidablePred (DropsOwn s)
  | .drop n => inferInstanceAs (Decidable (∀ request ∈ s.requests[n]?,
      ∀ entry ∈ s.app.inflight.lookup request.command.orderId, entry.responder = n))
  | .postOrder _ | .postCancel _ | .check _ | .register _ | .send _ | .receive _ | .giveUp _ | .forward | .process
  | .handle _ => .isTrue trivial

/-! ### Handlers without a reply -/

def Awaiting (requests : List Request) (n : Nat) (command : Command) : Prop :=
  ∃ phase, requests[n]? = some ⟨command,phase,none⟩ ∧ (phase = .registered ∨ phase = .waiting)

def Awaited (s : System maxOrders maxPriceLevels) : Prop :=
  ∀ n command, Awaiting s.requests n command →
    (∃ entry, s.app.inflight.lookup command.orderId = some entry ∧ entry.responder = n) ∧ ⟨command,n⟩ ∈ outstanding s

section
variable {s s' : System maxOrders maxPriceLevels} {market : Market} {n m : Nat} {command : Command}

/-- The other handlers stay where they are. -/
theorem awaiting_move {request : Request} {phase : Phase} (found : s.requests[n]? = some request)
    (awaiting : Awaiting (s.move n phase).requests m command) :
    (m ≠ n ∧ Awaiting s.requests m command) ∨
      (m = n ∧ request.command = command ∧ request.mailbox = none ∧ (phase = .registered ∨ phase = .waiting)) := by
  obtain ⟨reached,here,either⟩ := awaiting
  by_cases same : m = n
  · subst same
    rw [move_self found,Option.some.injEq] at here
    obtain ⟨given,phase',mailbox⟩ := request
    cases here
    exact .inr ⟨rfl,rfl,rfl,either⟩
  · rw [move_other same] at here
    exact .inl ⟨same,reached,here,either⟩

theorem awaiting_append {requests : List Request} {new : Command}
    (awaiting : Awaiting (requests ++ [⟨new,.arrived,none⟩]) m command) : Awaiting requests m command := by
  obtain ⟨phase,here,either⟩ := awaiting
  rcases Nat.lt_or_ge m requests.length with old | late
  · rw [List.getElem?_append_left old] at here
    exact ⟨phase,here,either⟩
  · rw [List.getElem?_append_right late,List.getElem?_singleton] at here
    split_ifs at here
    cases here
    simp at either

/-- Who gets the reply is not without one. -/
theorem awaiting_deliver {requests : List Request} {reply : EngineReply}
    (awaiting : Awaiting (requests.modify n (Request.deliver reply)) m command) : m ≠ n ∧ Awaiting requests m command := by
  obtain ⟨phase,here,either⟩ := awaiting
  rw [List.getElem?_modify] at here
  obtain ⟨old,looked,made⟩ := Option.map_eq_some_iff.mp here
  by_cases same : n = m
  · subst same
    rw [if_pos rfl] at made
    have still := deliver_phase reply old
    rw [made] at still
    rcases either with rfl | rfl
    · rw [Request.deliver,← still] at made
      cases made
    · rw [Request.deliver,← still] at made
      cases made
  · rw [if_neg same] at made
    subst made
    exact ⟨Ne.symm same,phase,looked,either⟩

/-- A step that leaves the entries alone and takes no frame away. -/
theorem Awaited.aside (awaited : Awaited s) (inflight : s'.app.inflight = s.app.inflight)
    (kept : ∀ frame ∈ outstanding s, frame ∈ outstanding s')
    (before : ∀ n command, Awaiting s'.requests n command → Awaiting s.requests n command) : Awaited s' := by
  intro n command awaiting
  obtain ⟨entry,sent⟩ := awaited n command (before n command awaiting)
  exact ⟨by rw [inflight]; exact entry,kept _ sent⟩

/-- The entry of a handler stays under a change at another identifier. -/
theorem Awaited.registers (awaited : Awaited s) {entry : InFlight} {mailbox : Option EngineReply}
    (found : s.requests[n]? = some ⟨command,.checked,mailbox⟩)
    (free : s.app.inflight.lookup command.orderId = none) (responder : entry.responder = n)
    (inflight : s'.app.inflight = s.app.inflight.insert command.orderId entry)
    (more : ∀ frame, frame ∈ outstanding s' ↔ frame ∈ outstanding s ∨ frame = ⟨command,n⟩)
    (requests : s'.requests = (s.move n .registered).requests) : Awaited s' := by
  intro m other awaiting
  rw [requests] at awaiting
  rcases awaiting_move found awaiting with ⟨_,before⟩ | ⟨rfl,rfl,_⟩
  · obtain ⟨⟨held,looked,own⟩,sent⟩ := awaited m other before
    have differs : other.orderId ≠ command.orderId := by
      intro same
      rw [same,free] at looked
      cases looked
    exact ⟨⟨held,by rw [inflight,Finmap.lookup_insert_of_ne _ differs]; exact looked,own⟩,(more _).mpr (.inl sent)⟩
  · exact ⟨⟨entry,by rw [inflight]; exact Finmap.lookup_insert _,responder⟩,(more _).mpr (.inr rfl)⟩

theorem Awaited.drops (awaited : Awaited s) {mailbox : Option EngineReply}
    (found : s.requests[n]? = some ⟨command,.failed,mailbox⟩) (may : DropsOwn s (.drop n))
    (inflight : s'.app.inflight = s.app.inflight.erase command.orderId)
    (same : ∀ frame, frame ∈ outstanding s' ↔ frame ∈ outstanding s)
    (requests : s'.requests = (s.move n .unavailable).requests) : Awaited s' := by
  intro m other awaiting
  rw [requests] at awaiting
  rcases awaiting_move found awaiting with ⟨apart,before⟩ | ⟨_,_,_,either⟩
  · obtain ⟨⟨entry,looked,own⟩,sent⟩ := awaited m other before
    have differs : other.orderId ≠ command.orderId := by
      intro equal
      rw [equal] at looked
      exact apart (own.symm.trans (may _ found entry looked))
    exact ⟨⟨entry,by rw [inflight,Finmap.lookup_erase_ne differs]; exact looked,own⟩,(same _).mpr sent⟩
  · simp at either

theorem awaiting_handle {now : UInt64} (ran : s.traffic (.handle now) = some s') (awaiting : Awaiting s'.requests m command) :
    Awaiting s.requests m command := by
  obtain ⟨frame,msg,rest,_,rfl⟩ := System.handle_cases ran
  cases sent : (s.app.handleEngineEvent now msg).2 with
  | none =>
    rw [sent] at awaiting
    exact awaiting
  | some reply =>
    rw [sent] at awaiting
    exact (awaiting_deliver awaiting).2

/-- The frame that is answered next has the command of its owner. -/
theorem next_command (traced : Traced market s) {frame : Frame} {msg : BinaryMessage} {rest : List (Frame × BinaryMessage)}
    (next : s.toGateway = (frame,msg) :: rest) (awaiting : Awaiting s.requests m command) (owner : m = frame.owner) :
    command = frame.command := by
  obtain ⟨r,found,same,_⟩ := traced.sent frame (next_sent traced next)
  obtain ⟨phase,here,_⟩ := awaiting
  rw [owner] at here
  cases found.symm.trans here
  exact same

/-- An event: the terminator of a frame finds the entry of whoever waits under its identifier. -/
theorem Awaited.handle (awaited : Awaited s) (traced : Traced market s) {now : UInt64}
    (ran : s.traffic (.handle now) = some s') : Awaited s' := by
  cases traced.moves ran with
  | aside still inflight same =>
    exact awaited.aside inflight (fun frame => (same frame).mpr) (fun _ _ => awaiting_handle ran)
  | trades next own applied toGateway processed requests inflight journal book restoring same =>
    intro m other awaiting
    rw [requests] at awaiting
    obtain ⟨⟨entry,looked,responder⟩,sent⟩ := awaited m other awaiting
    obtain ⟨entry',looked',responder'⟩ := accumulate_covers _ looked
    exact ⟨⟨entry',by rw [inflight]; exact looked',responder'.trans responder⟩,(same _).mpr sent⟩
  | misses next terminator missing applied app processed requests less =>
    rename_i frame msg rest
    intro m other awaiting
    rw [requests] at awaiting
    obtain ⟨⟨entry,looked,responder⟩,sent⟩ := awaited m other awaiting
    refine ⟨⟨entry,by rw [app]; exact looked,responder⟩,(less _).mpr ⟨sent,?_⟩⟩
    intro owner
    rw [next_command traced next awaiting owner,missing] at looked
    cases looked
  | settles next terminator found applied processed requests inflight journal book restoring less =>
    rename_i frame msg rest entry
    intro m other awaiting
    rw [requests] at awaiting
    obtain ⟨apart,before⟩ := awaiting_deliver awaiting
    obtain ⟨⟨held,looked,responder⟩,sent⟩ := awaited m other before
    have differs : other.orderId ≠ frame.command.orderId := by
      intro equal
      rw [equal] at looked
      cases looked.symm.trans found
      exact apart responder.symm
    refine ⟨⟨held,by rw [inflight,Finmap.lookup_erase_ne differs]; exact looked,responder⟩,(less _).mpr ⟨sent,?_⟩⟩
    intro owner
    exact differs (by rw [next_command traced next before owner])

/-- A step that registers nobody and handles no event. -/
theorem awaiting_before {event : Traffic} (ran : s.traffic event = some s') (registers : ∀ n, event ≠ .register n)
    (awaiting : Awaiting s'.requests m command) : Awaiting s.requests m command := by
  cases event with
  | postOrder body =>
    rcases System.postOrder_cases ran with rfl | ⟨order,gateway,_,_,_,_,rfl⟩
    · exact awaiting
    · exact awaiting_append awaiting
  | postCancel orderId =>
    rw [System.postCancel_cases ran] at awaiting
    exact awaiting_append awaiting
  | check n =>
    obtain ⟨given,mailbox,found,rfl⟩ := System.check_cases ran
    rcases awaiting_move found awaiting with ⟨_,before⟩ | ⟨_,_,_,either⟩
    · exact before
    · split_ifs at either
      · simp at either
      · simp at either
  | register n => exact absurd rfl (registers n)
  | send n =>
    obtain ⟨given,mailbox,found,rfl⟩ := System.send_cases ran
    rcases awaiting_move found awaiting with ⟨_,before⟩ | ⟨rfl,rfl,rfl,_⟩
    · exact before
    · exact ⟨.registered,found,.inl rfl⟩
  | receive n =>
    obtain ⟨given,reply,found,rfl⟩ := System.receive_cases ran
    rcases awaiting_move found awaiting with ⟨_,before⟩ | ⟨_,_,_,either⟩
    · exact before
    · simp at either
  | giveUp n =>
    obtain ⟨given,found,rfl⟩ := System.giveUp_cases ran
    rcases awaiting_move found awaiting with ⟨_,before⟩ | ⟨_,_,_,either⟩
    · exact before
    · simp at either
  | drop n =>
    obtain ⟨given,mailbox,found,rfl⟩ := System.drop_cases ran
    rcases awaiting_move found awaiting with ⟨_,before⟩ | ⟨_,_,_,either⟩
    · exact before
    · simp at either
  | forward =>
    obtain ⟨frame,rest,_,_,rfl⟩ := System.forward_cases ran
    rw [System.write] at awaiting
    split_ifs at awaiting
    · exact awaiting
    · exact awaiting
  | process =>
    obtain ⟨_,_,_,_,_,_,rfl⟩ := System.process_cases ran
    exact awaiting
  | handle now => exact awaiting_handle ran awaiting

theorem Awaited.step (awaited : Awaited s) (traced : Traced market s) {event : Traffic} (may : DropsOwn s event)
    (ran : s.traffic event = some s') : Awaited s' := by
  cases event with
  | handle now => exact awaited.handle traced ran
  | register n =>
    cases traced.moves ran with
    | aside still inflight same =>
      obtain ⟨given,mailbox,found,rfl | ⟨app,prepared,rfl⟩⟩ := System.register_cases ran
      · refine awaited.aside inflight (fun frame => (same frame).mpr) ?_
        intro m other awaiting
        rcases awaiting_move found awaiting with ⟨_,before⟩ | ⟨_,_,_,either⟩
        · exact before
        · simp at either
      · -- a registration does add an entry
        obtain ⟨free,entry,_,_,_,rfl⟩ := prepare_some prepared
        have added : s.app.inflight.lookup given.orderId = some entry := by
          rw [← inflight]
          exact Finmap.lookup_insert _
        rw [free] at added
        cases added
    | registers found free fills responder still inflight more =>
      rename_i given mailbox entry
      refine awaited.registers found free responder inflight more ?_
      obtain ⟨_,_,_,rfl | ⟨app,_,rfl⟩⟩ := System.register_cases ran
      · have same : s.app.inflight = s.app.inflight.insert given.orderId entry := inflight
        have added : s.app.inflight.lookup given.orderId = some entry := by
          rw [same]
          exact Finmap.lookup_insert _
        rw [free] at added
        cases added
      · rfl
  | drop n =>
    cases traced.moves ran with
    | aside still inflight same =>
      exact awaited.aside inflight (fun frame => (same frame).mpr) (fun _ _ => awaiting_before ran (by simp))
    | drops found still inflight same =>
      refine awaited.drops found may inflight same ?_
      obtain ⟨_,_,_,rfl⟩ := System.drop_cases ran
      rfl
  | _ =>
    cases traced.moves ran with
    | aside still inflight same =>
      exact awaited.aside inflight (fun frame => (same frame).mpr) (fun _ _ => awaiting_before ran (by simp))

theorem Opened.awaited (opened : Opened s) : Awaited s := by
  rintro n command ⟨phase,found,_⟩
  rw [opened.requests] at found
  cases found

/-- Once nothing is under way, who waits has a reply. -/
theorem Awaited.none_left (awaited : Awaited s) (channel : s.channel = []) (toEngine : s.toEngine = [])
    (toGateway : s.toGateway = []) (found : s.requests[n]? = some ⟨command,.waiting,none⟩) : False := by
  obtain ⟨_,sent⟩ := awaited n command ⟨.waiting,found,.inr rfl⟩
  rw [mem_outstanding,channel,toEngine,toGateway] at sent
  simp only [List.not_mem_nil,exists_false,false_or] at sent
  obtain ⟨mailbox,registered⟩ := mem_unsent.mp sent
  cases found.symm.trans registered

/-- Handlers only get replies. -/
def OnlyMail (requests requests' : List Request) : Prop :=
  ∀ (n : Nat) (command : Command) (mailbox : Option EngineReply), requests[n]? = some ⟨command,.waiting,mailbox⟩ →
    ∃ mailbox', requests'[n]? = some ⟨command,.waiting,mailbox'⟩

theorem onlyMail_refl (requests : List Request) : OnlyMail requests requests := fun _ _ mailbox found => ⟨mailbox,found⟩

theorem onlyMail_deliver (requests : List Request) (n : Nat) (reply : EngineReply) :
    OnlyMail requests (requests.modify n (Request.deliver reply)) := by
  intro m command mailbox found
  rw [List.getElem?_modify,found]
  by_cases same : n = m
  · exact ⟨some reply,by simp [same,Request.deliver]⟩
  · exact ⟨mailbox,by simp [same]⟩

theorem OnlyMail.trans {first second third : List Request} (before : OnlyMail first second) (after : OnlyMail second third) :
    OnlyMail first third := by
  intro n command mailbox found
  obtain ⟨held,found'⟩ := before n command mailbox found
  exact after n command held found'

end

/-! ### Over bytes -/

section
variable {capacities : Capacities} {fd : SocketHandle} {w w' : Wired capacities}
  {s : System capacities.orders capacities.levels} {market : Market}

/-- No ring refuses anything, and whoever drops an entry drops its own. -/
def Steady (fd : SocketHandle) (w : Wired capacities) (motion : Motion) : Prop :=
  w.Roomy fd motion ∧ ∀ event ∈ motion.event, DropsOwn w.frames event

instance (fd : SocketHandle) (w : Wired capacities) (motion : Motion) : Decidable (Steady fd w motion) :=
  inferInstanceAs (Decidable (_ ∧ ∀ event ∈ motion.event, _))

/-- The manager forwards a frame, the server reads something, something arrives, or the
    reader takes a message. -/
def Moves (w : Wired capacities) : Motion → Prop
  | .forward => True
  | .deliver count => 0 < count ∧ w.toServer ≠ []
  | .arrive count => 0 < count ∧ w.toClient ≠ []
  | .handle _ => True
  | _ => False

/-- These steps as long as no ring refuses anything. -/
def Drains (fd : SocketHandle) (w : Wired capacities) (motion : Motion) : Prop := Moves w motion ∧ w.Roomy fd motion

/-- The run over whole frames behind a run over bytes. -/
structure Tracks (fd : SocketHandle) (market : Market) (w : Wired capacities) (s : System capacities.orders capacities.levels) :
    Prop where
  carries : Carries fd w s
  traced : Traced market s
  awaited : Awaited s

theorem Tracks.step (tracks : Tracks fd market w s) {motion : Motion} (steady : Steady fd w motion)
    (ran : w.step fd motion = some w') : ∃ s', Tracks fd market w' s' := by
  have own : ∀ event ∈ motion.event, DropsOwn s event := by
    intro event made
    have here := steady.2 event made
    cases event with
    | drop n =>
      intro request found entry looked
      rw [tracks.carries.requests] at found
      rw [tracks.carries.app] at looked
      exact here request found entry looked
    | _ => trivial
  obtain ⟨s',leads,carries⟩ := tracks.carries.step own (fun _ => trivial) steady.1 ran
  have kept := leads.keeps (P := fun t => Traced market t ∧ Awaited t) ⟨tracks.traced,tracks.awaited⟩
    (fun _ _ _ before may ran => ⟨before.1.step ran,before.2.step before.1 may ran⟩)
  exact ⟨s',carries,kept.1,kept.2⟩

theorem Tracks.leads (tracks : Tracks fd market w s) (leads : Leads (Wired.step fd) (Steady fd) w w') :
    ∃ s', Tracks fd market w' s' := by
  refine leads.keeps (P := fun v => ∃ t, Tracks fd market v t) ⟨s,tracks⟩ ?_
  rintro before motion after ⟨t,tracked⟩ steady ran
  exact tracked.step steady ran

theorem Drains.steady {motion : Motion} (drains : Drains fd w motion) : Steady fd w motion := by
  refine ⟨drains.2,?_⟩
  intro event made
  cases motion with
  | drop n => exact drains.1.elim
  | arrive count => cases made
  | _ =>
    cases made
    trivial

/-! ### The end of the draining -/

theorem onlyMail_post (w : Wired capacities) (sent : Option (Nat × EngineReply)) :
    OnlyMail w.requests (w.post sent).requests := by
  cases sent with
  | none => exact onlyMail_refl _
  | some sent => exact onlyMail_deliver _ _ _

theorem onlyMail_moves {motion : Motion} (moves : Moves w motion) (ran : w.step fd motion = some w') :
    OnlyMail w.requests w'.requests := by
  rw [Wired.step] at ran
  split_ifs at ran
  cases motion with
  | forward =>
    rw [Wired.act] at ran
    split at ran
    · cases ran
    · cases ran
      exact onlyMail_refl _
  | deliver count =>
    simp only [Wired.act,Option.bind_eq_bind,Option.bind_eq_some_iff] at ran
    obtain ⟨_,_,same⟩ := ran
    cases same
    exact onlyMail_refl _
  | arrive count =>
    cases ran
    exact onlyMail_refl _
  | handle now =>
    rw [Wired.act] at ran
    split at ran
    · rename_i msg rest _
      rw [← Option.some.inj ran]
      exact onlyMail_post { w with app := (w.app.handleEngineEvent now msg).1, toReader := rest }
        (w.app.handleEngineEvent now msg).2
    · cases ran
    · cases ran
      exact onlyMail_refl _
  | _ => exact moves.elim

/-- Whether the connection is open, and how much is under way, in the order in which a
    frame and its events pass. -/
def underway (w : Wired capacities) : Nat × Nat × Nat × Nat × Nat :=
  ((!w.closed).toNat,w.channel.length,w.toServer.length,w.toClient.length,w.toReader.length)

/-- One of the queues is shorter and no earlier one is longer. -/
def Shorter : Nat × Nat × Nat × Nat → Nat × Nat × Nat × Nat → Prop :=
  Prod.Lex (· < ·) (Prod.Lex (· < ·) (Prod.Lex (· < ·) (· < ·)))
def Less : Nat × Nat × Nat × Nat × Nat → Nat × Nat × Nat × Nat × Nat → Prop := Prod.Lex (· < ·) Shorter

theorem less_wf : WellFounded Less := by
  have lt : WellFounded (fun a b : Nat => a < b) := Nat.lt_wfRel.wf
  exact lt.prod_lex (lt.prod_lex (lt.prod_lex (lt.prod_lex lt)))

/-- A step closes the connection, or it makes a queue shorter. -/
theorem less_of_shorter (before : w.closed = false) (shorter : w'.closed = false → Shorter (underway w').2 (underway w).2) :
    Less (underway w') (underway w) := by
  cases after : w'.closed with
  | true =>
    refine Prod.Lex.left _ _ ?_
    rw [before,after]
    exact Nat.zero_lt_one
  | false =>
    have same : (underway w').1 = (underway w).1 := by rw [underway,underway,before,after]
    rw [← Prod.mk.eta (p := underway w'),← Prod.mk.eta (p := underway w),same]
    exact Prod.Lex.right _ (shorter after)

theorem less_moves {motion : Motion} (moves : Moves w motion) (ran : w.step fd motion = some w') :
    Less (underway w') (underway w) := by
  rw [Wired.step] at ran
  split_ifs at ran with isOpen
  rw [Bool.not_eq_true] at isOpen
  refine less_of_shorter isOpen ?_
  intro stillOpen
  cases motion with
  | forward =>
    rw [Wired.act] at ran
    split at ran
    · cases ran
    · rename_i frame rest queued
      cases ran
      refine Prod.Lex.left _ _ ?_
      rw [queued]
      exact Nat.lt_succ_self _
  | deliver count =>
    simp only [Wired.act,Option.bind_eq_bind,Option.bind_eq_some_iff] at ran
    obtain ⟨_,_,same⟩ := ran
    cases same
    refine Prod.Lex.right _ (Prod.Lex.left _ _ ?_)
    have some := List.length_pos_of_ne_nil moves.2
    rw [List.length_drop]
    exact Nat.sub_lt some moves.1
  | arrive count =>
    cases ran
    refine Prod.Lex.right _ (Prod.Lex.right _ (Prod.Lex.left _ _ ?_))
    have some := List.length_pos_of_ne_nil moves.2
    rw [List.length_drop]
    exact Nat.sub_lt some moves.1
  | handle now =>
    rw [Wired.act] at ran
    split at ran
    · rename_i msg rest taken
      cases ran
      exact Prod.Lex.right _ (Prod.Lex.right _ (Prod.Lex.right _ (readRound_shorter taken)))
    · cases ran
    · cases ran
      cases stillOpen
  | _ => exact moves.elim

/-- The manager, the server and the reader cannot go on alone forever. -/
theorem moves_end (fd : SocketHandle) (w : Wired capacities) : Acc (Follows (Wired.step fd) Moves) w := by
  have shrinks : Subrelation (Follows (Wired.step fd) Moves) (InvImage Less (underway : Wired capacities → _)) := by
    rintro after before ⟨motion,moves,ran⟩
    exact less_moves moves ran
  exact (shrinks.wf (InvImage.wf underway less_wf)).apply w

/-- When they can do nothing more, nothing is under way. -/
theorem Tracks.final (tracks : Tracks fd market w s) (final : Final (Wired.step fd) Moves w) :
    w.channel = [] ∧ w.toServer = [] ∧ w.toClient = [] ∧ w.toReader = [] := by
  have stays : ∀ motion w', Moves w motion → w.act fd motion = some w' → False := by
    intro motion w' moves ran
    refine final w' ⟨motion,moves,?_⟩
    rw [Wired.step,tracks.carries.isOpen]
    exact ran
  have arrived : w.toClient = [] := by
    by_contra sent
    exact stays (.arrive 1) _ ⟨Nat.zero_lt_one,sent⟩ rfl
  refine ⟨?_,?_,arrived,?_⟩
  · cases waiting : w.channel with
    | nil => rfl
    | cons frame rest => exact (stays .forward _ trivial (by rw [Wired.act,waiting])).elim
  · by_contra written
    obtain ⟨_,_,_,_,submitted,_⟩ := submitClientBytes_spec tracks.carries.serving fd (w.toServer.take 1)
    exact stays (.deliver 1) _ ⟨Nat.zero_lt_one,written⟩ (by
      simp only [Wired.act,submitted,Option.bind_eq_bind,Option.bind_some]
      rfl)
  · have carried := tracks.carries.downstream
    rw [arrived,List.append_nil] at carried
    cases emitted : s.toGateway with
    | nil => rw [carried,emitted]; rfl
    | cons event rest =>
      have ranged := tracks.carries.emitted event (emitted ▸ List.mem_cons_self)
      rw [emitted,List.map_cons,List.flatMap_cons] at carried
      obtain ⟨w',ran⟩ : ∃ w', w.act fd (.handle 0) = some w' := by
        rw [Wired.act,carried,readRound_whole ranged]
        exact ⟨_,rfl⟩
      exact (stays (.handle 0) w' trivial ran).elim

/-- Then no frame is under way either. -/
theorem Tracks.none_left (tracks : Tracks fd market w s) (channel : w.channel = []) (toServer : w.toServer = [])
    (toClient : w.toClient = []) (toReader : w.toReader = []) {n : Nat} {command : Command}
    (found : w.requests[n]? = some ⟨command,.waiting,none⟩) : False := by
  have carries := tracks.carries
  have queued : s.channel = [] := List.map_eq_nil_iff.mp (carries.channel.symm.trans channel)
  obtain ⟨unfinished,_,reads⟩ := carries.upstream
  rw [toServer,readBytes] at reads
  have written : s.toEngine = [] := List.map_eq_nil_iff.mp (Prod.mk.inj reads).1.symm
  have sent : s.toGateway = [] := by
    have carried := carries.downstream
    rw [toReader,toClient] at carried
    cases emitted : s.toGateway with
    | nil => rfl
    | cons event rest =>
      rw [emitted,List.map_cons,List.flatMap_cons,WireFormat.bytesOf_eq] at carried
      cases carried
  rw [← carries.requests] at found
  exact tracks.awaited.none_left queued written sent found

/-- No handler waits in vain, as long as no ring of the server refuses anything and whoever
    drops an entry drops its own. On every such run of one connection, in whatever pieces
    the bytes arrive: the manager, the server and the reader alone come to an end in
    whatever order they act, and if no ring has refused anything when they can do nothing
    more, nothing is under way and every handler that waited has a reply. -/
theorem waiting_gets_reply {start : Wired capacities} (connected : start.Connected fd) (restored : start.app.restoring = false)
    (idle : start.app.inflight = ∅) (leads : Leads (Wired.step fd) (Steady fd) start w) :
    Acc (Follows (Wired.step fd) Moves) w ∧
      ∀ w', Leads (Wired.step fd) (Drains fd) w w' → Final (Wired.step fd) Moves w' →
        w'.channel = [] ∧ w'.toServer = [] ∧ w'.toClient = [] ∧ w'.toReader = [] ∧
          ∀ (n : Nat) (command : Command) (mailbox : Option EngineReply), w.requests[n]? = some ⟨command,.waiting,mailbox⟩ →
            ∃ reply, w'.requests[n]? = some ⟨command,.waiting,some reply⟩ := by
  have opened : Opened start.frames :=
    ⟨rfl,rfl,connected.serving.running.orderly.sound,restored,idle,connected.requests,rfl,rfl,rfl,rfl,rfl⟩
  obtain ⟨market,shown⟩ := Opened.shows opened
  have tracked : Tracks fd market start start.frames := ⟨connected.carries,opened.traced shown,Opened.awaited opened⟩
  refine ⟨moves_end fd w,?_⟩
  intro w' drained final
  obtain ⟨s',tracks⟩ := tracked.leads (leads.trans (drained.weaken (fun _ _ drains => drains.steady)))
  obtain ⟨channel,toServer,toClient,toReader⟩ := tracks.final final
  refine ⟨channel,toServer,toClient,toReader,?_⟩
  intro n command mailbox found
  have mail : OnlyMail w.requests w'.requests := by
    refine drained.keeps (P := fun v => OnlyMail w.requests v.requests) (onlyMail_refl _) ?_
    intro before motion after mail drains ran
    exact mail.trans (onlyMail_moves drains.1 ran)
  obtain ⟨held,found'⟩ := mail n command mailbox found
  cases held with
  | none => exact (tracks.none_left channel toServer toClient toReader found').elim
  | some reply => exact ⟨reply,found'⟩

/-- When nothing is under way, they can do nothing more. -/
theorem final_of_quiet (channel : w.channel = []) (toServer : w.toServer = []) (toClient : w.toClient = [])
    (toReader : w.toReader = []) : Final (Wired.step fd) Moves w := by
  rintro w' ⟨motion,moves,ran⟩
  rw [Wired.step] at ran
  split_ifs at ran
  cases motion with
  | forward =>
    rw [Wired.act,channel] at ran
    cases ran
  | deliver count => exact moves.2 toServer
  | arrive count => exact moves.2 toClient
  | handle now =>
    rw [Wired.act,toReader] at ran
    cases ran
  | _ => exact moves.elim

instance (w : Wired capacities) : DecidablePred (Moves w)
  | .forward | .handle _ => .isTrue trivial
  | .deliver _ | .arrive _ => inferInstanceAs (Decidable (_ ∧ _ ≠ []))
  | .postOrder _ | .postCancel _ | .check _ | .register _ | .send _ | .receive _ | .giveUp _ | .drop _ => .isFalse id

instance (fd : SocketHandle) (w : Wired capacities) (motion : Motion) : Decidable (Drains fd w motion) :=
  inferInstanceAs (Decidable (_ ∧ _))
end

/-- Two orders are sent; the first handler gives up and drops its entry when the server has
    read a part of its frame. -/
def oneGaveUp : List Motion :=
  [.postOrder (order "buy" 100 5 5),.check 0,.register 0,.send 0,.postOrder (order "sell" 90 3 6),.check 1,.register 1,
    .send 1,.forward,.deliver 7,.giveUp 0,.drop 0]
/-- The rest of both frames, and the events in pieces. -/
def thenDrained : List Motion :=
  [.forward,.deliver 40,.deliver 60,.arrive 5,.arrive 100,.handle 0,.handle 0,.handle 0]

theorem waiting_gets_reply_one_gave_up :
    ∃ w w', Leads (Wired.step 7) (Steady 7) joined w ∧ w.requests[1]? = some ⟨.newOrder ⟨6,.Sell,90,3,1⟩,.waiting,none⟩ ∧
      Leads (Wired.step 7) (Drains 7) w w' ∧ Final (Wired.step 7) Moves w' ∧
      ∃ reply, w'.requests[1]? = some ⟨.newOrder ⟨6,.Sell,90,3,1⟩,.waiting,some reply⟩ := by
  have ran : (follow (Wired.step 7) (Steady 7) joined oneGaveUp).bind (fun w =>
      (follow (Wired.step 7) (Drains 7) w thenDrained).map (fun w' =>
        (w.requests[1]?,w'.channel,w'.toServer,w'.toClient,w'.toReader))) =
      some (some ⟨.newOrder ⟨6,.Sell,90,3,1⟩,.waiting,none⟩,[],[],[],[]) := by
    decide +kernel
  obtain ⟨w,first,rest⟩ := Option.bind_eq_some_iff.mp ran
  obtain ⟨w',second,found⟩ := Option.map_eq_some_iff.mp rest
  simp only [Prod.mk.injEq] at found
  obtain ⟨waits,channel,toServer,toClient,toReader⟩ := found
  have leads := follow_leads first
  have drained := follow_leads second
  have final : Final (Wired.step 7) Moves w' := final_of_quiet channel toServer toClient toReader
  obtain ⟨-,every⟩ := waiting_gets_reply joined_connected rfl rfl leads
  obtain ⟨-,-,-,-,replies⟩ := every w' drained final
  exact ⟨w,w',leads,waits,drained,final,replies 1 _ none waits⟩

end HyperMatch.Draining
