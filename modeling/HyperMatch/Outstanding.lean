import HyperMatch.Streams

/-!
What a step of the traffic does to the requests that have not been answered. A frame
is outstanding from the registration of its handler to the handling of its terminator;
only a registration adds one and only a terminator takes one away (`Traced.moves`).
-/
namespace HyperMatch.Streams
open HyperMatch.Wire HyperMatch.Matching HyperMatch.MatchingEngine
open HyperMatch.OrderBook (PoolCapacity)

variable {maxOrders maxPriceLevels : PoolCapacity}

/-- The frames of the handlers that have registered and not yet sent. -/
def unsent (requests : List Request) : List Frame :=
  requests.zipIdx.filterMap (fun p => if p.1.phase = .registered then some ⟨p.1.command,p.2⟩ else none)

/-- The frames whose terminator has not been handled. -/
def outstanding (s : System maxOrders maxPriceLevels) : List Frame :=
  s.toGateway.map Prod.fst ++ s.toEngine ++ s.channel ++ unsent s.requests

theorem mem_unsent {requests : List Request} {frame : Frame} :
    frame ∈ unsent requests ↔ ∃ mailbox, requests[frame.owner]? = some ⟨frame.command,.registered,mailbox⟩ := by
  rw [unsent,List.mem_filterMap]
  constructor
  · rintro ⟨⟨⟨command,phase,mailbox⟩,n⟩,inside,made⟩
    rw [List.mk_mem_zipIdx_iff_getElem?] at inside
    simp only at made
    split_ifs at made with registered
    subst registered
    cases made
    exact ⟨mailbox,inside⟩
  · rintro ⟨mailbox,found⟩
    exact ⟨(⟨frame.command,.registered,mailbox⟩,frame.owner),List.mk_mem_zipIdx_iff_getElem?.mpr found,by simp⟩

theorem mem_outstanding {s : System maxOrders maxPriceLevels} {frame : Frame} :
    frame ∈ outstanding s ↔ (∃ msg, (frame,msg) ∈ s.toGateway) ∨ frame ∈ s.toEngine ∨ frame ∈ s.channel ∨
      frame ∈ unsent s.requests := by
  simp only [outstanding,List.mem_append,List.mem_map,Prod.exists,exists_and_right,exists_eq_right,or_assoc]

/-- The replies that the requests hold in the second list, they hold in the first. -/
def SameMail (requests requests' : List Request) : Prop :=
  ∀ (n : Nat) (r' : Request) (reply : EngineReply), requests'[n]? = some r' → r'.mailbox = some reply →
    ∃ r, requests[n]? = some r ∧ r.command = r'.command ∧ r.mailbox = some reply

/-- Nothing moves but handlers and frames; what is outstanding is given. -/
structure Still (s s' : System maxOrders maxPriceLevels) : Prop where
  applied : s'.applied = s.applied
  journal : s'.app.journal = s.app.journal
  book : s'.app.book = s.app.book
  restoring : s'.app.restoring = s.app.restoring
  grows : ∃ more, s'.processed = s.processed ++ more
  behind : ∃ more, s'.toGateway = s.toGateway ++ more
  mail : SameMail s.requests s'.requests

/-- What a step of the traffic does to the entries, to what is outstanding and to what
    was handled. -/
inductive Moves (s : System maxOrders maxPriceLevels) : Traffic → System maxOrders maxPriceLevels → Prop
  | aside {event : Traffic} {s' : System maxOrders maxPriceLevels} (still : Still s s')
      (inflight : s'.app.inflight = s.app.inflight)
      (same : ∀ frame, frame ∈ outstanding s' ↔ frame ∈ outstanding s) : Moves s event s'
  | registers {n : Nat} {s' : System maxOrders maxPriceLevels} {command : Command} {mailbox : Option EngineReply}
      {entry : InFlight} (found : s.requests[n]? = some ⟨command,.checked,mailbox⟩)
      (free : s.app.inflight.lookup command.orderId = none) (fills : entry.fills = []) (responder : entry.responder = n)
      (still : Still s s') (inflight : s'.app.inflight = s.app.inflight.insert command.orderId entry)
      (more : ∀ frame, frame ∈ outstanding s' ↔ frame ∈ outstanding s ∨ frame = ⟨command,n⟩) : Moves s (.register n) s'
  | drops {n : Nat} {s' : System maxOrders maxPriceLevels} {command : Command} {mailbox : Option EngineReply}
      (found : s.requests[n]? = some ⟨command,.failed,mailbox⟩) (still : Still s s')
      (inflight : s'.app.inflight = s.app.inflight.erase command.orderId)
      (same : ∀ frame, frame ∈ outstanding s' ↔ frame ∈ outstanding s) : Moves s (.drop n) s'
  | trades {now : UInt64} {s' : System maxOrders maxPriceLevels} {frame : Frame} {t : Trade}
      {rest : List (Frame × BinaryMessage)} (next : s.toGateway = (frame,.trade t) :: rest)
      (own : t.incomingId = frame.command.orderId) (applied : s'.applied = s.applied ++ [(frame,.trade t)])
      (toGateway : s'.toGateway = rest) (processed : s'.processed = s.processed) (requests : s'.requests = s.requests)
      (inflight : s'.app.inflight = (s.app.accumulate t).inflight) (journal : s'.app.journal = s.app.journal)
      (book : s'.app.book = s.app.book.applyTrade t.restingId t.quantity) (restoring : s'.app.restoring = s.app.restoring)
      (same : ∀ frame, frame ∈ outstanding s' ↔ frame ∈ outstanding s) : Moves s (.handle now) s'
  | misses {now : UInt64} {s' : System maxOrders maxPriceLevels} {frame : Frame} {msg : BinaryMessage}
      {rest : List (Frame × BinaryMessage)} (next : s.toGateway = (frame,msg) :: rest)
      (terminator : Terminator frame.command msg) (missing : s.app.inflight.lookup frame.command.orderId = none)
      (applied : s'.applied = s.applied ++ [(frame,msg)]) (app : s'.app = s.app)
      (processed : s'.processed = s.processed) (requests : s'.requests = s.requests)
      (less : ∀ other, other ∈ outstanding s' ↔ other ∈ outstanding s ∧ other.owner ≠ frame.owner) :
      Moves s (.handle now) s'
  | settles {now : UInt64} {s' : System maxOrders maxPriceLevels} {frame : Frame} {msg : BinaryMessage}
      {rest : List (Frame × BinaryMessage)} {entry : InFlight} (next : s.toGateway = (frame,msg) :: rest)
      (terminator : Terminator frame.command msg) (found : s.app.inflight.lookup frame.command.orderId = some entry)
      (applied : s'.applied = s.applied ++ [(frame,msg)]) (processed : s'.processed = s.processed)
      (requests : s'.requests = s.requests.modify entry.responder (Request.deliver ⟨msg,entry.fills⟩))
      (inflight : s'.app.inflight = s.app.inflight.erase frame.command.orderId)
      (journal : s'.app.journal = if s.app.restoring then s.app.journal
        else s.app.journal.map (· ++ AppState.recordsOf entry msg))
      (book : s'.app.book = AppState.settledBook s.app.book entry msg) (restoring : s'.app.restoring = s.app.restoring)
      (less : ∀ other, other ∈ outstanding s' ↔ other ∈ outstanding s ∧ other.owner ≠ frame.owner) :
      Moves s (.handle now) s'

section
variable {s s' : System maxOrders maxPriceLevels} {market : Market}

theorem sameMail_refl (requests : List Request) : SameMail requests requests :=
  fun _ r _ found mail => ⟨r,found,rfl,mail⟩

theorem sameMail_append (requests : List Request) (command : Command) (phase : Phase) :
    SameMail requests (requests ++ [⟨command,phase,none⟩]) := by
  intro n r' reply found mail
  rcases Nat.lt_or_ge n requests.length with old | new
  · rw [List.getElem?_append_left old] at found
    exact ⟨r',found,rfl,mail⟩
  · rw [List.getElem?_append_right new,List.getElem?_singleton] at found
    split_ifs at found
    cases found
    cases mail

theorem sameMail_move (s : System maxOrders maxPriceLevels) (n : Nat) (phase : Phase) :
    SameMail s.requests (s.move n phase).requests := by
  intro m r' reply found mail
  rw [System.move,List.getElem?_modify] at found
  cases looked : s.requests[m]? with
  | none =>
    rw [looked] at found
    cases found
  | some r =>
    rw [looked] at found
    by_cases same : n = m
    · simp only [same,if_true,Option.map_eq_map,Option.map_some,Option.some.injEq] at found
      subst found
      exact ⟨r,rfl,rfl,mail⟩
    · simp only [same,if_false,Option.map_eq_map,Option.map_some,Option.some.injEq] at found
      subst found
      exact ⟨r,rfl,rfl,mail⟩

/-- The frame of a handler is unsent while it is registered. -/
theorem mem_unsent_own {n : Nat} {command : Command} {phase : Phase} {mailbox : Option EngineReply}
    (found : s.requests[n]? = some ⟨command,phase,mailbox⟩) {frame : Frame} (own : frame.owner = n) :
    frame ∈ unsent s.requests ↔ phase = .registered ∧ frame = ⟨command,n⟩ := by
  obtain ⟨sent,owner⟩ := frame
  cases own
  rw [mem_unsent,found]
  constructor
  · rintro ⟨_,⟨⟩⟩
    exact ⟨rfl,rfl⟩
  · rintro ⟨rfl,equal⟩
    obtain ⟨rfl,_⟩ := Frame.mk.inj equal
    exact ⟨mailbox,rfl⟩

theorem mem_unsent_other {n : Nat} {phase : Phase} {frame : Frame} (other : frame.owner ≠ n) :
    frame ∈ unsent (s.move n phase).requests ↔ frame ∈ unsent s.requests := by
  rw [mem_unsent,mem_unsent,move_other other]

/-- A handler that moves on, not to or from its registration, changes nothing that is
    outstanding. -/
theorem mem_unsent_move {n : Nat} {request : Request} {phase : Phase} (found : s.requests[n]? = some request)
    (before : request.phase ≠ .registered) (after : phase ≠ .registered) (frame : Frame) :
    frame ∈ unsent (s.move n phase).requests ↔ frame ∈ unsent s.requests := by
  by_cases same : frame.owner = n
  · rw [mem_unsent_own (move_self found) same,mem_unsent_own found same]
    simp [before,after]
  · exact mem_unsent_other same

/-- A registration and the sending after it. -/
theorem mem_unsent_registered {n : Nat} {command : Command} {phase : Phase} {mailbox : Option EngineReply}
    (found : s.requests[n]? = some ⟨command,phase,mailbox⟩) (frame : Frame) :
    frame ∈ unsent (s.move n .registered).requests ↔ frame ∈ unsent s.requests ∨ frame = ⟨command,n⟩ := by
  by_cases same : frame.owner = n
  · rw [mem_unsent_own (move_self found) same,mem_unsent_own found same]
    constructor
    · rintro ⟨_,equal⟩
      exact .inr equal
    · rintro (⟨_,equal⟩ | equal)
      · exact ⟨rfl,equal⟩
      · exact ⟨rfl,equal⟩
  · have differs : frame ≠ ⟨command,n⟩ := fun equal => same (congrArg Frame.owner equal)
    rw [mem_unsent_other same]
    simp [differs]

theorem mem_unsent_sent {n : Nat} {command : Command} {mailbox : Option EngineReply}
    (found : s.requests[n]? = some ⟨command,.registered,mailbox⟩) (frame : Frame) :
    frame ∈ unsent s.requests ↔ frame ∈ unsent (s.move n .waiting).requests ∨ frame = ⟨command,n⟩ := by
  by_cases same : frame.owner = n
  · rw [mem_unsent_own found same,mem_unsent_own (move_self found) same]
    simp
  · have differs : frame ≠ ⟨command,n⟩ := fun equal => same (congrArg Frame.owner equal)
    rw [mem_unsent_other same]
    simp [differs]

theorem mem_unsent_append (requests : List Request) (command : Command) {phase : Phase} (other : phase ≠ .registered)
    (frame : Frame) : frame ∈ unsent (requests ++ [⟨command,phase,none⟩]) ↔ frame ∈ unsent requests := by
  rw [mem_unsent,mem_unsent]
  rcases Nat.lt_or_ge frame.owner requests.length with old | new
  · rw [List.getElem?_append_left old]
  · rw [List.getElem?_append_right new,List.getElem?_eq_none new,List.getElem?_singleton]
    constructor
    · rintro ⟨mailbox,equal⟩
      split_ifs at equal
      cases equal
      exact absurd rfl other
    · rintro ⟨mailbox,⟨⟩⟩

theorem deliver_phase (reply : EngineReply) (r : Request) : (r.deliver reply).phase = r.phase := by
  rw [Request.deliver]
  split
  · rfl
  · rfl
  · rfl
  · rfl

theorem deliver_command (reply : EngineReply) (r : Request) : (r.deliver reply).command = r.command := by
  rw [Request.deliver]
  split
  · rfl
  · rfl
  · rfl
  · rfl

theorem mem_unsent_deliver (requests : List Request) (n : Nat) (reply : EngineReply) (frame : Frame) :
    frame ∈ unsent (requests.modify n (Request.deliver reply)) ↔ frame ∈ unsent requests := by
  rw [mem_unsent,mem_unsent,List.getElem?_modify]
  by_cases same : n = frame.owner
  · cases looked : requests[frame.owner]? with
    | none => simp
    | some r =>
      simp only [same,if_true,Option.map_eq_map,Option.map_some,Option.some.injEq]
      constructor
      · rintro ⟨_,equal⟩
        refine ⟨r.mailbox,?_⟩
        have command := deliver_command reply r
        have phase := deliver_phase reply r
        rw [equal] at command phase
        obtain ⟨_,_,_⟩ := r
        cases command
        cases phase
        rfl
      · rintro ⟨_,equal⟩
        refine ⟨(r.deliver reply).mailbox,?_⟩
        rw [equal]
        rfl
  · simp [same]

/-- Handlers that move change nothing else. -/
theorem still_move (s : System maxOrders maxPriceLevels) (n : Nat) (phase : Phase) : Still s (s.move n phase) :=
  ⟨rfl,rfl,rfl,rfl,⟨[],by simp [System.move]⟩,⟨[],by simp [System.move]⟩,sameMail_move s n phase⟩

theorem outstanding_move {n : Nat} {request : Request} {phase : Phase} (found : s.requests[n]? = some request)
    (before : request.phase ≠ .registered) (after : phase ≠ .registered) (frame : Frame) :
    frame ∈ outstanding (s.move n phase) ↔ frame ∈ outstanding s := by
  rw [mem_outstanding,mem_outstanding,mem_unsent_move found before after]
  rfl

/-- The terminator of a frame ends it and no other. -/
theorem Traced.less (traced : Traced market s) {frame : Frame} {msg : BinaryMessage} {rest : List (Frame × BinaryMessage)}
    (next : s.toGateway = (frame,msg) :: rest) {first last : List (Frame × List BinaryMessage)}
    {events : List BinaryMessage} (processed : s.processed = first ++ (frame,events) :: last)
    (remains : rest = last.flatMap emitted) (other : Frame) :
    (∃ msg, (other,msg) ∈ rest) ∨ other ∈ s.toEngine ∨ other ∈ s.channel ∨ other ∈ unsent s.requests ↔
      other ∈ outstanding s ∧ other.owner ≠ frame.owner := by
  have frames : framesOf s = first.map Prod.fst ++ frame :: (last.map Prod.fst ++ s.toEngine ++ s.channel) := by
    rw [framesOf,processed]
    simp
  have distinct := traced.distinct
  rw [frames,List.map_append,List.nodup_append,List.map_cons,List.nodup_cons] at distinct
  obtain ⟨_,⟨alone,_⟩,_⟩ := distinct
  have sent : ∀ later ∈ last.map Prod.fst ++ s.toEngine ++ s.channel, later.owner ≠ frame.owner := by
    intro later inside same
    exact alone (by rw [← same]; exact List.mem_map_of_mem inside)
  rw [mem_outstanding,next]
  constructor
  · rintro (⟨msg',inside⟩ | inside | inside | inside)
    · refine ⟨.inl ⟨msg',List.mem_cons_of_mem _ inside⟩,sent other ?_⟩
      rw [remains] at inside
      obtain ⟨p,inLast,inEmitted⟩ := List.mem_flatMap.mp inside
      obtain ⟨_,_,equal⟩ := List.mem_map.mp inEmitted
      cases equal
      exact List.mem_append_left _ (List.mem_append_left _ (List.mem_map_of_mem inLast))
    · exact ⟨.inr (.inl inside),sent other (List.mem_append_left _ (List.mem_append_right _ inside))⟩
    · exact ⟨.inr (.inr (.inl inside)),sent other (List.mem_append_right _ inside)⟩
    · refine ⟨.inr (.inr (.inr inside)),?_⟩
      -- A frame that was sent belongs to a handler that has got further.
      intro same
      obtain ⟨mailbox,found⟩ := mem_unsent.mp inside
      obtain ⟨r,request,_,phase⟩ := traced.sent frame (by rw [frames]; simp)
      rw [same] at found
      cases found.symm.trans request
      exact absurd phase (Nat.not_succ_le_self 2)
  · rintro ⟨⟨msg',inside⟩ | inside,differs⟩
    · rcases List.mem_cons.mp inside with equal | inside
      · cases equal
        exact absurd rfl differs
      · exact .inl ⟨msg',inside⟩
    · exact .inr inside

theorem Traced.moves_handle (traced : Traced market s) {now : UInt64} (ran : s.traffic (.handle now) = some s') :
    Moves s (.handle now) s' := by
  obtain ⟨frame,msg,rest,next,rfl⟩ := System.handle_cases ran
  obtain ⟨first,last,before,after,processed,_,remains,⟨t,rfl,own,more⟩ | ⟨rfl,terminator,_⟩⟩ := traced.next next
  · obtain ⟨app,handled,gates,journal,inflight,book⟩ := AppState.handle_trade s.app now t
    rw [handled]
    refine .trades next own rfl rfl rfl rfl inflight journal book gates.restoring ?_
    intro other
    have here : ∃ msg, (frame,msg) ∈ rest := by
      obtain ⟨msg,_,rfl⟩ := List.exists_cons_of_ne_nil more
      exact ⟨msg,by rw [remains]; simp⟩
    rw [mem_outstanding,mem_outstanding,next]
    constructor
    · rintro (⟨msg,inside⟩ | inside)
      · exact .inl ⟨msg,List.mem_cons_of_mem _ inside⟩
      · exact .inr inside
    · rintro (⟨msg,inside⟩ | inside)
      · rcases List.mem_cons.mp inside with equal | inside
        · cases equal
          exact .inl here
        · exact .inl ⟨msg,inside⟩
      · exact .inr inside
  · have less := traced.less next processed remains
    cases looked : s.app.inflight.lookup frame.command.orderId with
    | none =>
      rw [AppState.handle_missing terminator.id looked]
      refine .misses next terminator looked rfl rfl rfl rfl ?_
      intro other
      rw [← less,mem_outstanding]
      rfl
    | some entry =>
      obtain ⟨app,handled,gates,inflight,book,journal⟩ := AppState.handle_found terminator.id looked now
      rw [handled]
      refine .settles next terminator looked rfl rfl rfl inflight journal book gates.restoring ?_
      intro other
      rw [← less,mem_outstanding,← mem_unsent_deliver s.requests entry.responder ⟨msg,entry.fills⟩ other]
      rfl

theorem Traced.moves_process (traced : Traced market s) (ran : s.traffic .process = some s') : Moves s .process s' := by
  obtain ⟨frame,rest,events,engine,written,answered,rfl⟩ := System.process_cases ran
  obtain ⟨engine',ran',_⟩ := answer_shows traced.shown frame.command
  obtain ⟨rfl,rfl⟩ := Prod.mk.inj (Option.some.inj (answered.symm.trans ran'))
  obtain ⟨trades,terminator,events,_⟩ := answered_of_shows traced.shown frame.command
  refine .aside ⟨rfl,rfl,rfl,rfl,⟨_,rfl⟩,⟨_,rfl⟩,sameMail_refl _⟩ rfl ?_
  intro other
  rw [mem_outstanding,mem_outstanding,events,written]
  constructor
  · rintro (⟨msg,inside⟩ | inside | inside)
    · rcases List.mem_append.mp inside with old | new
      · exact .inl ⟨msg,old⟩
      · obtain ⟨_,_,equal⟩ := List.mem_map.mp new
        cases equal
        exact .inr (.inl List.mem_cons_self)
    · exact .inr (.inl (List.mem_cons_of_mem _ inside))
    · exact .inr (.inr inside)
  · rintro (⟨msg,old⟩ | inside | inside)
    · exact .inl ⟨msg,List.mem_append_left _ old⟩
    · rcases List.mem_cons.mp inside with rfl | inside
      · exact .inl ⟨terminator,List.mem_append_right _ (List.mem_map.mpr ⟨terminator,by simp,rfl⟩)⟩
      · exact .inr (.inl inside)
    · exact .inr (.inr inside)

/-- One step of the traffic. -/
theorem Traced.moves (traced : Traced market s) {event : Traffic} (ran : s.traffic event = some s') : Moves s event s' := by
  cases event with
  | postOrder body =>
    rcases System.postOrder_cases ran with rfl | ⟨m,gateway,_,_,_,_,rfl⟩
    · exact .aside ⟨rfl,rfl,rfl,rfl,⟨[],by simp⟩,⟨[],by simp⟩,sameMail_refl _⟩ rfl (fun _ => Iff.rfl)
    · refine .aside ⟨rfl,rfl,rfl,rfl,⟨[],by simp⟩,⟨[],by simp⟩,sameMail_append _ _ _⟩ rfl ?_
      intro frame
      rw [mem_outstanding,mem_outstanding,mem_unsent_append _ _ (by decide)]
  | postCancel orderId =>
    rw [System.postCancel_cases ran]
    refine .aside ⟨rfl,rfl,rfl,rfl,⟨[],by simp⟩,⟨[],by simp⟩,sameMail_append _ _ _⟩ rfl ?_
    intro frame
    rw [mem_outstanding,mem_outstanding,mem_unsent_append _ _ (by decide)]
  | check n =>
    obtain ⟨command,mailbox,found,rfl⟩ := System.check_cases ran
    refine .aside (still_move _ _ _) rfl (outstanding_move found (by simp) ?_)
    split_ifs
    · decide
    · decide
  | register n =>
    obtain ⟨command,mailbox,found,rfl | ⟨app,prepared,rfl⟩⟩ := System.register_cases ran
    · exact .aside (still_move _ _ _) rfl (outstanding_move found (by simp) (by decide))
    · obtain ⟨free,entry,_,fills,responder,rfl⟩ := prepare_some prepared
      refine .registers found free fills responder ⟨rfl,rfl,rfl,rfl,⟨[],by simp [System.move]⟩,⟨[],by simp [System.move]⟩,?_⟩ rfl ?_
      · exact sameMail_move s n .registered
      · intro frame
        have unsent := mem_unsent_registered found frame
        rw [mem_outstanding,mem_outstanding]
        simp only [System.move] at unsent ⊢
        grind
  | send n =>
    obtain ⟨command,mailbox,found,rfl⟩ := System.send_cases ran
    refine .aside ⟨rfl,rfl,rfl,rfl,⟨[],by simp [System.move]⟩,⟨[],by simp [System.move]⟩,sameMail_move s n .waiting⟩ rfl ?_
    intro frame
    have unsent := mem_unsent_sent found frame
    rw [mem_outstanding,mem_outstanding]
    simp only [System.move,List.mem_append,List.mem_singleton] at unsent ⊢
    grind
  | receive n =>
    obtain ⟨command,reply,found,rfl⟩ := System.receive_cases ran
    exact .aside (still_move _ _ _) rfl (outstanding_move found (by simp) (by decide))
  | giveUp n =>
    obtain ⟨command,found,rfl⟩ := System.giveUp_cases ran
    exact .aside (still_move _ _ _) rfl (outstanding_move found (by simp) (by decide))
  | drop n =>
    obtain ⟨command,mailbox,found,rfl⟩ := System.drop_cases ran
    refine .drops found ⟨rfl,rfl,rfl,rfl,⟨[],by simp [System.move]⟩,⟨[],by simp [System.move]⟩,sameMail_move s n .unavailable⟩ rfl ?_
    exact outstanding_move found (by simp) (by decide)
  | forward =>
    obtain ⟨frame,rest,_,queued,rfl⟩ := System.forward_cases ran
    have written : ({ s with channel := rest }.write frame) =
        { s with channel := rest, toEngine := s.toEngine ++ [frame] } := by
      simp [System.write,traced.linked]
    rw [written]
    refine .aside ⟨rfl,rfl,rfl,rfl,⟨[],by simp⟩,⟨[],by simp⟩,sameMail_refl _⟩ rfl ?_
    intro other
    rw [mem_outstanding,mem_outstanding,queued]
    simp only [List.mem_append,List.mem_cons]
    grind
  | process => exact traced.moves_process ran
  | handle now => exact traced.moves_handle ran
end

end HyperMatch.Streams
