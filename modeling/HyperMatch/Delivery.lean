import HyperMatch.Outbound
import HyperMatch.Terminators

/-!
What the clients of `cpp/network/include/hme/tcp_server.hpp` receive, in any order of
accepts, reads and writable passes. Connections are numbered as they are accepted. The
bytes that the socket of a connection took are the first of the answers of the engine to
the messages that the connection's own bytes spell, and while it is open the others are in
its queue.
-/
namespace HyperMatch.Delivery
open HyperMatch.Wire HyperMatch.OrderBook HyperMatch.MatchingEngine HyperMatch.FrameBuffer
open HyperMatch.DataPath HyperMatch.Connections HyperMatch.Outbound
open HyperMatch.Routing (Arrival Completion Wires Numbered Lines Action act started arriveAll arriveAll_append
  arriveAll_bytes arrive_numbered act_routes framesOf framesOf_map streamOf madeBy madeBy_later numbered_new started_idle)
open HyperMatch.WireFormat (bytesOf)
open HyperMatch.Processing (small)

/-! ### What the sockets took -/

/-- The last connection on each descriptor, and what the socket of each connection took. -/
structure Tally where
  holder : SocketHandle → Option Nat
  opened : Nat
  took : Nat → List UInt8

def note (tally : Tally) : Happening → Tally
  | .offered fd .Registered =>
    { tally with
      holder := Function.update tally.holder fd (some tally.opened)
      opened := tally.opened + 1 }
  | .sent fd bytes =>
    match tally.holder fd with
    | none => tally
    | some n => { tally with took := Function.update tally.took n (tally.took n ++ bytes) }
  | _ => tally

def tally (log : List Happening) : Tally := log.foldl note ⟨fun _ => none,0,fun _ => []⟩

/-- All bytes that the socket of the connection with this number took. -/
def tookBy (n : Nat) (log : List Happening) : List UInt8 := (tally log).took n

@[simp] theorem tally_append (log : List Happening) (happening : Happening) :
    tally (log ++ [happening]) = note (tally log) happening := by
  simp [tally]

/-! ### What is due to a connection -/

/-- The answers to the messages of one connection. -/
def answersTo (n : Nat) (completions : List Completion) (answers : List (List BinaryMessage)) : List BinaryMessage :=
  ((completions.zip answers).filter (fun r => decide (r.1.connection = n))).flatMap Prod.snd

theorem answersTo_append (n : Nat) {completions later : List Completion} {answers answers' : List (List BinaryMessage)}
    (length : answers.length = completions.length) :
    answersTo n (completions ++ later) (answers ++ answers') = answersTo n completions answers ++ answersTo n later answers' := by
  rw [answersTo,List.zip_append length.symm,List.filter_append,List.flatMap_append]
  rfl

theorem answersTo_map (n k : Nat) (fd : SocketHandle) {msgs : List BinaryMessage} {answers : List (List BinaryMessage)}
    (length : answers.length = msgs.length) :
    answersTo k (msgs.map (fun m => ⟨n,fd,m⟩)) answers = if k = n then answers.flatten else [] := by
  induction msgs generalizing answers with
  | nil =>
    obtain rfl := List.eq_nil_of_length_eq_zero length
    simp [answersTo]
  | cons msg rest ih =>
    obtain ⟨events,later,rfl⟩ := List.exists_cons_of_length_eq_add_one length
    have tail := ih (show later.length = rest.length by simpa using length)
    rw [answersTo] at tail ⊢
    by_cases same : k = n
    · simp only [same,if_true] at tail
      simp [same,tail]
    · simp only [same,if_false] at tail
      have other : ¬ n = k := Ne.symm same
      simp only [List.map_cons,List.zip_cons_cons,List.filter_cons,other,decide_false,if_neg same]
      exact tail

/-- The encoded answers to the messages of one connection. -/
def due (completions : List Completion) (answers : List (List BinaryMessage)) (n : Nat) : List UInt8 :=
  (answersTo n completions answers).flatMap bytesOf

section
variable {capacities : Capacities} {maxConnections : UInt32} {server server' : TcpServer capacities} {fd : SocketHandle}
  {w : Wires} {owed : Nat → List UInt8}

/-- The open connections are the lines; what the socket of a connection took comes first
    of what is due to it, and while the connection is open the rest is queued. -/
structure Balanced (server : TcpServer capacities) (w : Wires) (owed : Nat → List UInt8) : Prop where
  numbered : Numbered w
  lines : Lines server.pipeline w
  opened : (tally server.log).opened = w.opened
  holders : ∀ fd n unfinished, w.lines fd = some (n,unfinished) → (tally server.log).holder fd = some n
  queues : ∀ fd n unfinished, w.lines fd = some (n,unfinished) →
    ∃ queue, server.outbound.lookup fd = some queue ∧ tookBy n server.log ++ queue = owed n
  taken : ∀ n, tookBy n server.log <+: owed n
  unopened : ∀ n, w.opened ≤ n → owed n = []

/-- What is neither an opened connection nor sent leaves the balance as it is. -/
theorem Balanced.quiet (balanced : Balanced server w owed) (pipeline : Lines server'.pipeline w)
    (noted : tally server'.log = tally server.log)
    (queues : ∀ fd n unfinished, w.lines fd = some (n,unfinished) → server'.outbound.lookup fd = server.outbound.lookup fd) :
    Balanced server' w owed where
  numbered := balanced.numbered
  lines := pipeline
  opened := by rw [noted]; exact balanced.opened
  holders := by rw [noted]; exact balanced.holders
  queues := by
    intro fd n unfinished line
    rw [queues fd n unfinished line,tookBy,noted]
    exact balanced.queues fd n unfinished line
  taken := by
    intro n
    rw [tookBy,noted]
    exact balanced.taken n
  unopened := balanced.unopened

/-- A change of one open connection: it goes on with what is left unfinished or is closed,
    its socket takes more, and more is due to it. -/
theorem Balanced.change (balanced : Balanced server w owed) {n : Nat} {unfinished : List UInt8}
    (line : w.lines fd = some (n,unfinished)) {left : Option (List UInt8)}
    (lines : Lines server'.pipeline { w with lines := Function.update w.lines fd (left.map (n,·)) }) {sent more : List UInt8}
    (noted : tally server'.log =
      { tally server.log with took := Function.update (tally server.log).took n (tookBy n server.log ++ sent) })
    (others : ∀ g ≠ fd, server'.outbound.lookup g = server.outbound.lookup g)
    (first : tookBy n server.log ++ sent <+: owed n ++ more)
    (rest : left.isSome = true →
      ∃ queue, server'.outbound.lookup fd = some queue ∧ tookBy n server.log ++ sent ++ queue = owed n ++ more) :
    Balanced server' { w with lines := Function.update w.lines fd (left.map (n,·)) }
      (Function.update owed n (owed n ++ more)) := by
  have numbered : Numbered { w with lines := Function.update w.lines fd (left.map (n,·)) } := by
    refine balanced.numbered.update ?_
    intro m after same
    obtain ⟨_,_,known⟩ := Option.map_eq_some_iff.mp same
    cases known
    exact ⟨unfinished,line⟩
  have took : ∀ m, tookBy m server'.log = Function.update (tally server.log).took n (tookBy n server.log ++ sent) m := by
    intro m
    rw [tookBy,noted]
  -- an open line is the changed one or has another number
  have cases : ∀ g m after, Function.update w.lines fd (left.map (n,·)) g = some (m,after) →
      (g = fd ∧ m = n ∧ left.isSome = true) ∨ (g ≠ fd ∧ m ≠ n ∧ w.lines g = some (m,after)) := by
    intro g m after found
    by_cases here : g = fd
    · rw [here,Function.update_self] at found
      obtain ⟨_,known,same⟩ := Option.map_eq_some_iff.mp found
      cases same
      exact .inl ⟨here,rfl,by rw [known]; rfl⟩
    · rw [Function.update_of_ne here] at found
      refine .inr ⟨here,?_,found⟩
      rintro rfl
      exact here (balanced.numbered.apart g fd m after unfinished found line)
  refine ⟨numbered,lines,?_,?_,?_,?_,?_⟩
  · rw [noted]
    exact balanced.opened
  · intro g m after found
    rw [noted]
    rcases cases g m after found with ⟨rfl,rfl,_⟩ | ⟨_,_,old⟩
    · exact balanced.holders g m unfinished line
    · exact balanced.holders g m after old
  · intro g m after found
    rw [took]
    rcases cases g m after found with ⟨rfl,rfl,still⟩ | ⟨other,apart,old⟩
    · simpa only [Function.update_self] using rest still
    · rw [others g other,Function.update_of_ne apart,Function.update_of_ne apart]
      exact balanced.queues g m after old
  · intro m
    rw [took]
    by_cases same : m = n
    · rw [same,Function.update_self,Function.update_self]
      exact first
    · rw [Function.update_of_ne same,Function.update_of_ne same]
      exact balanced.taken m
  · intro m unseen
    have given := balanced.numbered.given fd n unfinished line
    have apart : m ≠ n := by
      rintro rfl
      exact absurd unseen (Nat.not_le.mpr given)
    rw [Function.update_of_ne apart]
    exact balanced.unopened m unseen

/-- A change where nothing more is sent and nothing more is due. -/
theorem Balanced.close (balanced : Balanced server w owed) {n : Nat} {unfinished : List UInt8}
    (line : w.lines fd = some (n,unfinished)) (lines : Lines server'.pipeline { w with lines := Function.update w.lines fd none })
    (sent : List UInt8)
    (noted : tally server'.log =
      { tally server.log with took := Function.update (tally server.log).took n (tookBy n server.log ++ sent) })
    (others : ∀ g ≠ fd, server'.outbound.lookup g = server.outbound.lookup g)
    (first : tookBy n server.log ++ sent <+: owed n) :
    Balanced server' { w with lines := Function.update w.lines fd none } owed := by
  have first' : tookBy n server.log ++ sent <+: owed n ++ [] := by rwa [List.append_nil]
  have gone : (none : Option (List UInt8)).isSome = true →
      ∃ queue, server'.outbound.lookup fd = some queue ∧ tookBy n server.log ++ sent ++ queue = owed n ++ [] := by
    intro still
    cases still
  have changed := balanced.change line lines noted others first' gone
  rwa [List.append_nil,Function.update_eq_self] at changed

/-- A queue belongs to an open connection and holds the rest of what is due to it. -/
theorem Balanced.line_of_queue (balanced : Balanced server w owed) (consistent : Consistent maxConnections server)
    {queue : List UInt8} (found : server.outbound.lookup fd = some queue) :
    ∃ n unfinished, w.lines fd = some (n,unfinished) ∧ tookBy n server.log ++ queue = owed n := by
  have inside : fd ∈ server.outbound := Finmap.lookup_isSome.mp (by rw [found]; rfl)
  have here := (consistent.queues fd).mp inside
  rw [← unfinishedOf_isSome,balanced.lines fd,Option.isSome_map] at here
  obtain ⟨⟨n,unfinished⟩,line⟩ := Option.isSome_iff_exists.mp here
  obtain ⟨_,known,rest⟩ := balanced.queues fd n unfinished line
  cases found.symm.trans known
  exact ⟨n,unfinished,line,rest⟩

theorem Balanced.line_of_tracked (balanced : Balanced server w owed) (consistent : Consistent maxConnections server)
    (here : fd ∈ tracked server.pipeline.registry) :
    ∃ queue n unfinished, server.outbound.lookup fd = some queue ∧ w.lines fd = some (n,unfinished) ∧
      tookBy n server.log ++ queue = owed n := by
  obtain ⟨queue,found⟩ := Option.isSome_iff_exists.mp (Finmap.lookup_isSome.mpr ((consistent.queues fd).mpr here))
  obtain ⟨n,unfinished,line,rest⟩ := balanced.line_of_queue consistent found
  exact ⟨queue,n,unfinished,found,line,rest⟩

theorem no_queue (consistent : Consistent maxConnections server) (untracked : fd ∉ tracked server.pipeline.registry) :
    server.outbound.lookup fd = none :=
  Finmap.lookup_eq_none.mpr (fun inside => untracked ((consistent.queues fd).mp inside))

theorem unregistered (untracked : fd ∉ tracked server.pipeline.registry) :
    server.pipeline.registry.isRegistered fd = false := by
  rw [mem_tracked] at untracked
  exact Bool.eq_false_iff.mpr untracked

theorem lines_teardown (lines : Lines server.pipeline w) (fd : SocketHandle) (reason : TeardownReason) :
    Lines (server.pipeline.teardown fd reason) { w with lines := Function.update w.lines fd none } :=
  lines.update (unfinishedOf_teardown fd reason) _

theorem note_sent {log : List Happening} {n : Nat} (holds : (tally log).holder fd = some n) (bytes : List UInt8) :
    tally (log ++ [.sent fd bytes]) =
      { tally log with took := Function.update (tally log).took n (tookBy n log ++ bytes) } := by
  rw [tally_append,note,holds]
  rfl

theorem note_nothing (n : Nat) (log : List Happening) :
    { tally log with took := Function.update (tally log).took n (tookBy n log ++ []) } = tally log := by
  rw [List.append_nil,tookBy,Function.update_eq_self]

/-! ### The steps of the loop -/

/-- A writable pass leaves the connection as it is or closes it. -/
theorem Balanced.handleWritable (balanced : Balanced server w owed) (consistent : Consistent maxConnections server)
    {sent : Nat → Sent} (ran : server.handleWritable fd sent = some server') :
    Balanced server' w owed ∨ Balanced server' { w with lines := Function.update w.lines fd none } owed := by
  obtain ⟨still,_⟩ | ⟨queue,total,found,_,kept | ended⟩ := handleWritable_cases server fd sent
  · rw [ran,Option.some.injEq] at still
    rw [still]
    exact .inl balanced
  · rw [ran,Option.some.injEq] at kept
    obtain ⟨n,unfinished,line,rest⟩ := balanced.line_of_queue consistent found
    have noted := note_sent (balanced.holders fd n unfinished line) (queue.take total)
    have whole : tookBy n server.log ++ queue.take total ++ queue.drop total = owed n ++ [] := by
      rw [List.append_assoc,List.take_append_drop,rest,List.append_nil]
    have same : Function.update w.lines fd ((some unfinished).map (n,·)) = w.lines := by
      rw [Option.map_some,← line,Function.update_eq_self]
    have lines : Lines server'.pipeline { w with lines := Function.update w.lines fd ((some unfinished).map (n,·)) } := by
      rw [same,kept]
      exact balanced.lines
    have changed := balanced.change line lines (by rw [kept]; exact noted)
      (fun g other => by rw [kept,Finmap.lookup_insert_of_ne _ other]) ⟨_,whole⟩
      (fun _ => ⟨queue.drop total,by rw [kept,Finmap.lookup_insert],whole⟩)
    rw [same,List.append_nil,Function.update_eq_self] at changed
    exact .inl changed
  · rw [ran,Option.some.injEq] at ended
    obtain ⟨n,unfinished,line,rest⟩ := balanced.line_of_queue consistent found
    have noted := note_sent (balanced.holders fd n unfinished line) (queue.take total)
    refine .inr (balanced.close line ?_ (queue.take total) ?_ ?_ ?_)
    · rw [ended]
      exact lines_teardown balanced.lines fd .SocketError
    · rw [ended]
      change tally (server.log ++ [_] ++ [_]) = _
      rw [tally_append,noted]
      rfl
    · intro g other
      rw [ended]
      exact Finmap.lookup_erase_ne other
    · rw [← rest]
      exact List.prefix_append_right_inj _ |>.mpr (List.take_prefix _ _)

theorem Balanced.teardown (balanced : Balanced server w owed) (consistent : Consistent maxConnections server)
    (here : fd ∈ tracked server.pipeline.registry) (reason : TeardownReason) :
    Balanced ((server.teardown fd reason).dropConnection fd) { w with lines := Function.update w.lines fd none } owed := by
  obtain ⟨queue,n,unfinished,found,line,rest⟩ := balanced.line_of_tracked consistent here
  refine balanced.close line (lines_teardown balanced.lines fd reason) [] ?_ (fun g other => Finmap.lookup_erase_ne other) ?_
  · rw [note_nothing]
    exact tally_append server.log (.dropped fd)
  · rw [List.append_nil]
    exact balanced.taken n

theorem acceptOne_entered (consistent : Consistent maxConnections server) (shut : fd ∉ tracked server.pipeline.registry)
    (registered : (server.pipeline.accept fd).1 = .Registered) :
    server.acceptOne ⟨fd,true⟩ = { server with
      pipeline := (server.pipeline.accept fd).2
      accepted := server.accepted + 1
      outbound := server.outbound.insert fd []
      log := server.log ++ [.offered fd .Registered] } := by
  cases answered : server.pipeline.accept fd with
  | mk result pipeline =>
    rw [answered] at registered
    cases registered
    simp [TcpServer.acceptOne,answered,no_queue consistent shut]

/-- An accepted connection takes the next number, with nothing sent and nothing due. -/
theorem Balanced.acceptOne (balanced : Balanced server w owed) (consistent : Consistent maxConnections server)
    (shut : fd ∉ tracked server.pipeline.registry) (registered : (server.pipeline.accept fd).1 = .Registered) :
    Balanced (server.acceptOne ⟨fd,true⟩) ⟨Function.update w.lines fd (some (w.opened,[])),w.opened + 1⟩ owed := by
  have lines : Lines (server.pipeline.accept fd).2 ⟨Function.update w.lines fd (some (w.opened,[])),w.opened + 1⟩ :=
    balanced.lines.update (accept_registered registered (unregistered shut) consistent.serving.framed).2 _
  have numbered := arrive_numbered balanced.numbered (.opened fd)
  have took : ∀ n, tookBy n (server.log ++ [.offered fd .Registered]) = tookBy n server.log := by
    intro n
    rw [tookBy,tally_append]
    rfl
  have cases : ∀ g n unfinished, Function.update w.lines fd (some (w.opened,[])) g = some (n,unfinished) →
      (g = fd ∧ n = w.opened) ∨ (g ≠ fd ∧ w.lines g = some (n,unfinished)) := by
    intro g n unfinished line
    by_cases here : g = fd
    · rw [here,Function.update_self] at line
      cases line
      exact .inl ⟨here,rfl⟩
    · rw [Function.update_of_ne here] at line
      exact .inr ⟨here,line⟩
  rw [acceptOne_entered consistent shut registered]
  refine ⟨numbered,lines,?_,?_,?_,?_,?_⟩
  · simp only [tally_append,note,balanced.opened]
  · intro g n unfinished line
    simp only [tally_append,note]
    rcases cases g n unfinished line with ⟨rfl,rfl⟩ | ⟨here,old⟩
    · rw [Function.update_self,balanced.opened]
    · rw [Function.update_of_ne here]
      exact balanced.holders g n unfinished old
  · intro g n unfinished line
    simp only [took]
    rcases cases g n unfinished line with ⟨rfl,rfl⟩ | ⟨here,old⟩
    · have nothing := balanced.unopened w.opened (Nat.le_refl _)
      have untaken := balanced.taken w.opened
      rw [nothing] at untaken
      refine ⟨[],Finmap.lookup_insert _,?_⟩
      rw [List.append_nil,nothing,List.prefix_nil.mp untaken]
    · rw [Finmap.lookup_insert_of_ne _ here]
      exact balanced.queues g n unfinished old
  · intro n
    simp only [took]
    exact balanced.taken n
  · intro n unseen
    exact balanced.unopened n (Nat.le_of_succ_le unseen)

/-- The frames of a read, behind what their connection has in its queue. -/
theorem queueFrames_bytes (server : TcpServer capacities) (events : List BinaryMessage) {queue : List UInt8}
    (found : server.outbound.lookup fd = some queue) :
    ((framesFor fd events).foldl TcpServer.queueFrame server).pipeline = server.pipeline ∧
      tally ((framesFor fd events).foldl TcpServer.queueFrame server).log = tally server.log ∧
      ((framesFor fd events).foldl TcpServer.queueFrame server).outbound.lookup fd = some (queue ++ events.flatMap bytesOf) ∧
      ∀ g ≠ fd, ((framesFor fd events).foldl TcpServer.queueFrame server).outbound.lookup g = server.outbound.lookup g := by
  induction events generalizing server queue with
  | nil => exact ⟨rfl,rfl,by simpa [framesFor] using found,fun _ _ => rfl⟩
  | cons event rest ih =>
    have joined : (server.queueFrame (fd,bytesOf event)).outbound.lookup fd = some (queue ++ bytesOf event) := by
      simp [TcpServer.queueFrame,found]
    obtain ⟨pipeline,noted,here,others⟩ := ih (server.queueFrame (fd,bytesOf event)) joined
    refine ⟨pipeline,noted.trans (tally_append _ _),?_,?_⟩
    · rw [List.flatMap_cons,← List.append_assoc]
      exact here
    · intro g other
      rw [← Finmap.lookup_insert_of_ne server.outbound other]
      exact others g other

/-! ### Runs -/

/-- A step of the loop, with what the operating system answers in it. -/
inductive Event where
  | accept (client : Accepted)
  | read (fd : SocketHandle) (received : Received) (flushed : Nat → Sent)
  | write (fd : SocketHandle) (sent : Nat → Sent)

def Event.run (server : TcpServer capacities) : Event → Option (TcpServer capacities)
  | .accept client => some (server.acceptOne client)
  | .read fd received flushed => server.handleReadable fd received flushed
  | .write fd sent => server.handleWritable fd sent

/-- `accept` returns no descriptor that is open, and only tracked connections are read. -/
def Event.Possible (server : TcpServer capacities) : Event → Prop
  | .accept client => ¬ Open server client.fd
  | .read fd _ _ => fd ∈ tracked server.pipeline.registry
  | .write _ _ => True

/-- Whether a step opened or closed the connection on a descriptor. -/
def turned (server server' : TcpServer capacities) (fd : SocketHandle) : List Arrival :=
  match server.pipeline.registry.isRegistered fd,server'.pipeline.registry.isRegistered fd with
  | false,true => [.opened fd]
  | true,false => [.closed fd]
  | _,_ => []

/-- What arrives in a step. -/
def Event.arrivals (server server' : TcpServer capacities) : Event → List Arrival
  | .accept client => turned server server' client.fd
  | .read fd (.bytes data) _ => (data.take TcpServer.kReadBufferSize).map (.byte fd) ++ turned server server' fd
  | .read fd _ _ => turned server server' fd
  | .write fd _ => turned server server' fd

/-- The pushes that the rings refuse in a step. -/
def Event.refused (server : TcpServer capacities) : Event → Nat
  | .read fd (.bytes data) _ => DataPath.refused server.pipeline fd (data.take TcpServer.kReadBufferSize)
  | _ => 0

/-- The servers of all runs, each with what has arrived in it and the number of pushes that
    the rings have refused. -/
inductive Heard (maxConnections : UInt32) (configs : List (EngineConfig capacities)) :
    TcpServer capacities → List Arrival → Nat → Prop where
  | new (listenFd : SocketHandle)
    (operational : (started maxConnections configs : ServerPipeline capacities).processor.operational = true) :
    Heard maxConnections configs (TcpServer.new listenFd (started maxConnections configs)) [] 0
  | step {server server' : TcpServer capacities} {arrivals : List Arrival} {refused : Nat} (event : Event) :
    Heard maxConnections configs server arrivals refused → event.Possible server → event.run server = some server' →
    Heard maxConnections configs server' (arrivals ++ event.arrivals server server') (refused + event.refused server)

variable {configs : List (EngineConfig capacities)} {arrivals : List Arrival} {refused : Nat}

theorem Heard.interleaved (heard : Heard maxConnections configs server arrivals refused) : Interleaved maxConnections server := by
  induction heard with
  | new listenFd operational => exact .new listenFd configs operational
  | step event _ possible ran ih =>
    cases event with
    | accept client =>
      cases ran
      exact ih.acceptOne possible
    | read fd received flushed => exact ih.handleReadable possible ran
    | write fd sent => exact ih.handleWritable ran

/-- Every run of the loop is such a run. -/
theorem interleaved_heard (interleaved : Interleaved maxConnections server) :
    ∃ configs arrivals refused, Heard maxConnections configs server arrivals refused := by
  induction interleaved with
  | new listenFd configs operational => exact ⟨configs,[],0,.new listenFd operational⟩
  | acceptOne _ shut ih =>
    obtain ⟨configs,arrivals,refused,heard⟩ := ih
    exact ⟨configs,_,_,heard.step (.accept _) shut rfl⟩
  | handleReadable _ here ran ih =>
    obtain ⟨configs,arrivals,refused,heard⟩ := ih
    exact ⟨configs,_,_,heard.step (.read _ _ _) here ran⟩
  | handleWritable _ ran ih =>
    obtain ⟨configs,arrivals,refused,heard⟩ := ih
    exact ⟨configs,_,_,heard.step (.write _ _) trivial ran⟩

/-! ### What a run keeps -/

theorem Balanced.registered (balanced : Balanced server w owed) (fd : SocketHandle) :
    server.pipeline.registry.isRegistered fd = (w.lines fd).isSome := by
  rw [isRegistered_eq,balanced.lines fd,Option.isSome_map]

theorem turned_closed {connections : Wires} (known : server.pipeline.registry.isRegistered fd = true)
    (after : Balanced server' connections owed)
    (shape : connections = w ∨ connections = { w with lines := Function.update w.lines fd none }) :
    (arriveAll w (turned server server' fd)).1 = [] ∧ Balanced server' (arriveAll w (turned server server' fd)).2 owed := by
  have registered := after.registered fd
  rw [turned,known,registered]
  rcases shape with rfl | rfl
  · cases line : connections.lines fd with
    | none =>
      refine ⟨rfl,?_⟩
      have same : Function.update connections.lines fd none = connections.lines := by rw [← line,Function.update_eq_self]
      simp only [Option.isSome_none,arriveAll,Routing.arrive,same]
      exact after
    | some _ => exact ⟨rfl,after⟩
  · simp only [Function.update_self,Option.isSome_none]
    exact ⟨rfl,after⟩

theorem turned_self (server : TcpServer capacities) (fd : SocketHandle) : turned server server fd = [] := by
  rw [turned]
  cases server.pipeline.registry.isRegistered fd <;> rfl

/-- A read whose pushes are all taken: what is due to the connection grows by the answers
    to the messages that it completes. -/
theorem Balanced.submit (balanced : Balanced server w owed) (consistent : Consistent maxConnections server)
    (here : fd ∈ tracked server.pipeline.registry) {bytes : List UInt8} {status : FrameStatus}
    {outs : List (SocketHandle × List UInt8)} {pipeline : ServerPipeline capacities}
    (submitted : server.pipeline.submitClientBytes fd bytes = some (status,outs,pipeline))
    (taken : DataPath.refused server.pipeline fd bytes = 0) :
    ∃ answers, answerAll server.pipeline.processor.engine ((arriveAll w (bytes.map (.byte fd))).1.map Completion.msg) =
        some (answers,pipeline.processor.engine) ∧ answers.length = (arriveAll w (bytes.map (.byte fd))).1.length ∧
      Balanced (outs.foldl TcpServer.queueFrame { server with pipeline := pipeline }) (arriveAll w (bytes.map (.byte fd))).2
        (fun n => owed n ++ due (arriveAll w (bytes.map (.byte fd))).1 answers n) := by
  obtain ⟨queue,n,unfinished,found,line,rest⟩ := balanced.line_of_tracked consistent here
  have acted : act server.pipeline (.submitClientBytes fd bytes) = some (outs,pipeline) := by
    rw [act,submitted]
    rfl
  obtain ⟨⟨answers,answered,length,framed⟩,_,lines⟩ :=
    act_routes consistent.serving balanced.lines acted trivial taken
  refine ⟨answers,answered,length,?_⟩
  rw [Routing.arrivals] at length framed lines
  simp only [arriveAll_bytes,line] at length framed lines ⊢
  rw [List.length_map] at length
  rw [framesOf_map n fd length] at framed
  subst framed
  obtain ⟨same,noted,queued,others⟩ :=
    queueFrames_bytes ({ server with pipeline := pipeline } : TcpServer capacities) answers.flatten found
  have whole : tookBy n server.log ++ [] ++ (queue ++ answers.flatten.flatMap bytesOf) =
      owed n ++ answers.flatten.flatMap bytesOf := by
    rw [List.append_nil,← List.append_assoc,rest]
  have first : tookBy n server.log ++ [] <+: owed n ++ answers.flatten.flatMap bytesOf := ⟨_,whole⟩
  have grows : Function.update owed n (owed n ++ answers.flatten.flatMap bytesOf) =
      fun k => owed k ++ due ((readBytes unfinished bytes).1.map (fun m => ⟨n,fd,m⟩)) answers k := by
    funext k
    rw [due,answersTo_map n k fd length]
    by_cases own : k = n
    · rw [own,Function.update_self,if_pos rfl]
    · rw [Function.update_of_ne own,if_neg own,List.flatMap_nil,List.append_nil]
  rw [← grows]
  refine balanced.change line ?_ ?_ others first (fun _ => ⟨_,queued,whole⟩)
  · rw [same]
    exact lines
  · rw [note_nothing]
    exact noted

/-- The engine has answered what the arrivals complete, and the sockets of the connections
    took and their queues hold these answers. -/
def Kept (engine : MatchingEngine capacities.orders capacities.levels) (server : TcpServer capacities)
    (arrivals : List Arrival) : Prop :=
  ∃ answers, answerAll engine ((arriveAll Wires.new arrivals).1.map Completion.msg) =
      some (answers,server.pipeline.processor.engine) ∧ answers.length = (arriveAll Wires.new arrivals).1.length ∧
    Balanced server (arriveAll Wires.new arrivals).2 (due (arriveAll Wires.new arrivals).1 answers)

variable {engine : MatchingEngine capacities.orders capacities.levels}

/-- A step that answers the messages it completes, each where it came from. -/
theorem Kept.grows (kept : Kept engine server arrivals) {more : List Arrival}
    (grows : ∀ w owed, Balanced server w owed → ∃ answers,
      answerAll server.pipeline.processor.engine ((arriveAll w more).1.map Completion.msg) =
        some (answers,server'.pipeline.processor.engine) ∧ answers.length = (arriveAll w more).1.length ∧
      Balanced server' (arriveAll w more).2 (fun n => owed n ++ due (arriveAll w more).1 answers n)) :
    Kept engine server' (arrivals ++ more) := by
  obtain ⟨answers,answered,length,balanced⟩ := kept
  obtain ⟨later,answered',length',balanced'⟩ := grows _ _ balanced
  have split : due ((arriveAll Wires.new arrivals).1 ++ (arriveAll (arriveAll Wires.new arrivals).2 more).1) (answers ++ later) =
      fun n => due (arriveAll Wires.new arrivals).1 answers n ++ due (arriveAll (arriveAll Wires.new arrivals).2 more).1 later n := by
    funext n
    rw [due,answersTo_append n length,List.flatMap_append]
    rfl
  refine ⟨answers ++ later,?_,?_,?_⟩
  · rw [arriveAll_append,List.map_append,answerAll_append,answered]
    simp [answered']
  · rw [arriveAll_append,List.length_append,List.length_append,length,length']
  · rw [arriveAll_append,split]
    exact balanced'

/-- A step that completes nothing. -/
theorem Kept.moves (kept : Kept engine server arrivals) (same : server'.pipeline.processor.engine = server.pipeline.processor.engine)
    {more : List Arrival}
    (moves : ∀ w owed, Balanced server w owed → (arriveAll w more).1 = [] ∧ Balanced server' (arriveAll w more).2 owed) :
    Kept engine server' (arrivals ++ more) := by
  refine kept.grows ?_
  intro w owed balanced
  obtain ⟨nothing,after⟩ := moves w owed balanced
  rw [nothing,same]
  exact ⟨[],rfl,rfl,by simpa [due,answersTo] using after⟩

theorem handleWritable_processor {sent : Nat → Sent} (ran : server.handleWritable fd sent = some server') :
    server'.pipeline.processor = server.pipeline.processor := by
  obtain ⟨still,_⟩ | ⟨queue,total,_,_,kept | ended⟩ := handleWritable_cases server fd sent
  · rw [ran,Option.some.injEq] at still
    rw [still]
  · rw [ran,Option.some.injEq] at kept
    rw [kept]
  · rw [ran,Option.some.injEq] at ended
    rw [ended]
    rfl

theorem write_moves (consistent : Consistent maxConnections server) {sent : Nat → Sent}
    (ran : server.handleWritable fd sent = some server') (w : Wires) (owed : Nat → List UInt8)
    (balanced : Balanced server w owed) :
    (arriveAll w (turned server server' fd)).1 = [] ∧ Balanced server' (arriveAll w (turned server server' fd)).2 owed := by
  cases known : server.pipeline.registry.isRegistered fd with
  | true =>
    rcases balanced.handleWritable consistent ran with after | after
    · exact turned_closed known after (.inl rfl)
    · exact turned_closed known after (.inr rfl)
  | false =>
    have untracked : fd ∉ tracked server.pipeline.registry := by
      rw [mem_tracked,known]
      exact Bool.false_ne_true
    rw [TcpServer.handleWritable,no_queue consistent untracked,Option.some.injEq] at ran
    rw [← ran,turned_self]
    exact ⟨rfl,balanced⟩

theorem accept_moves (consistent : Consistent maxConnections server) {client : Accepted} (shut : ¬ Open server client.fd)
    (w : Wires) (owed : Nat → List UInt8) (balanced : Balanced server w owed) :
    (arriveAll w (turned server (server.acceptOne client) client.fd)).1 = [] ∧
      Balanced (server.acceptOne client) (arriveAll w (turned server (server.acceptOne client) client.fd)).2 owed := by
  obtain ⟨fd,nonblocking⟩ := client
  have untracked : fd ∉ tracked server.pipeline.registry := fun here => shut ((consistent.open_iff fd).mpr (.inr here))
  have unknown := unregistered untracked
  by_cases entered : nonblocking = true ∧ (server.pipeline.accept fd).1 = .Registered
  · obtain ⟨rfl,registered⟩ := entered
    have after := balanced.acceptOne consistent untracked registered
    have open' := after.registered fd
    simp only [Function.update_self,Option.isSome_some] at open'
    simp only [turned,unknown,open']
    exact ⟨rfl,after⟩
  · have after : Balanced (server.acceptOne ⟨fd,nonblocking⟩) w owed := by
      cases nonblocking with
      | false => exact balanced.quiet balanced.lines (tally_append server.log (.discarded fd)) (fun _ _ _ _ => rfl)
      | true =>
        have refused : (server.pipeline.accept fd).1 ≠ .Registered := fun registered => entered ⟨rfl,registered⟩
        have lines : Lines (server.pipeline.accept fd).2 w := by
          intro x
          exact (congrFun (accept_rejected refused consistent.serving.framed).2 x).trans (balanced.lines x)
        cases answered : server.pipeline.accept fd with
        | mk result pipeline =>
          rw [answered] at refused lines
          cases result with
          | Registered => exact absurd rfl refused
          | RejectedAtCapacity =>
            refine balanced.quiet ?_ ?_ ?_
            · simpa [TcpServer.acceptOne,answered] using lines
            · simp [TcpServer.acceptOne,answered,note]
            · simp [TcpServer.acceptOne,answered]
    have still := after.registered fd
    rw [← balanced.registered fd,unknown] at still
    simp only [turned,unknown,still]
    exact ⟨rfl,after⟩

/-- A read of bytes: the pipeline takes them, and the connection is dropped, flushed or
    left with what was queued. -/
theorem handleReadable_bytes {data : List UInt8} (brought : data ≠ []) {flushed : Nat → Sent}
    (ran : server.handleReadable fd (.bytes data) flushed = some server') :
    ∃ status outs pipeline,
      server.pipeline.submitClientBytes fd (data.take TcpServer.kReadBufferSize) = some (status,outs,pipeline) ∧
      (status = .Closed ∧
          server' = (outs.foldl TcpServer.queueFrame { server with pipeline := pipeline }).dropConnection fd ∨
        status ≠ .Closed ∧
          ((outs.foldl TcpServer.queueFrame { server with pipeline := pipeline }).handleWritable fd flushed = some server' ∨
            server' = outs.foldl TcpServer.queueFrame { server with pipeline := pipeline })) := by
  rw [TcpServer.handleReadable,if_neg (by simpa using brought)] at ran
  obtain ⟨⟨status,outs,pipeline⟩,submitted,ran⟩ := Option.bind_eq_some_iff.mp ran
  refine ⟨status,outs,pipeline,submitted,?_⟩
  dsimp only at ran
  split_ifs at ran with ended waiting
  · exact .inl ⟨ended,(Option.some.inj ran).symm⟩
  · exact .inr ⟨ended,.inl ran⟩
  · exact .inr ⟨ended,.inr (Option.some.inj ran).symm⟩

theorem queueFrames_pipeline (outs : List (SocketHandle × List UInt8)) (server : TcpServer capacities) :
    (outs.foldl TcpServer.queueFrame server).pipeline = server.pipeline := by
  induction outs generalizing server with
  | nil => rfl
  | cons out rest ih => exact ih _

/-- A read changes the processor only as the pipeline does. -/
theorem handleReadable_processor {data : List UInt8} (brought : data ≠ []) {flushed : Nat → Sent}
    (ran : server.handleReadable fd (.bytes data) flushed = some server') :
    ∃ status outs pipeline,
      server.pipeline.submitClientBytes fd (data.take TcpServer.kReadBufferSize) = some (status,outs,pipeline) ∧
      server'.pipeline.processor = pipeline.processor := by
  obtain ⟨status,outs,pipeline,submitted,⟨_,rfl⟩ | ⟨_,flush | rfl⟩⟩ := handleReadable_bytes brought ran
  · refine ⟨status,outs,pipeline,submitted,?_⟩
    rw [TcpServer.dropConnection,queueFrames_pipeline]
  · have processor := handleWritable_processor flush
    rw [queueFrames_pipeline] at processor
    exact ⟨status,outs,pipeline,submitted,processor⟩
  · refine ⟨status,outs,pipeline,submitted,?_⟩
    rw [queueFrames_pipeline]

/-- A read whose pushes are all taken. -/
theorem read_grows (consistent : Consistent maxConnections server) (here : fd ∈ tracked server.pipeline.registry)
    {data : List UInt8} (brought : data ≠ []) {flushed : Nat → Sent}
    (ran : server.handleReadable fd (.bytes data) flushed = some server')
    (taken : DataPath.refused server.pipeline fd (data.take TcpServer.kReadBufferSize) = 0)
    {more : List Arrival} (arrived : more = (data.take TcpServer.kReadBufferSize).map (.byte fd) ++ turned server server' fd)
    (w : Wires) (owed : Nat → List UInt8) (balanced : Balanced server w owed) :
    ∃ answers, answerAll server.pipeline.processor.engine ((arriveAll w more).1.map Completion.msg) =
        some (answers,server'.pipeline.processor.engine) ∧ answers.length = (arriveAll w more).1.length ∧
      Balanced server' (arriveAll w more).2 (fun n => owed n ++ due (arriveAll w more).1 answers n) := by
  subst arrived
  obtain ⟨status,outs,pipeline,submitted,finish⟩ := handleReadable_bytes brought ran
  obtain ⟨_,_,_,submitted',processor⟩ := handleReadable_processor brought ran
  cases submitted.symm.trans submitted'
  obtain ⟨answers,answered,length,queued⟩ := balanced.submit consistent here submitted taken
  obtain ⟨_,_,_,again,ends⟩ := submit_handles consistent here (data.take TcpServer.kReadBufferSize)
  cases submitted.symm.trans again
  have known := mem_tracked.mp here
  rw [arriveAll_append]
  generalize arriveAll w ((data.take TcpServer.kReadBufferSize).map (.byte fd)) = read at answered length queued ⊢
  obtain ⟨completions,lines⟩ := read
  dsimp only at answered length queued ⊢
  have turns : (arriveAll lines (turned server server' fd)).1 = [] ∧
      Balanced server' (arriveAll lines (turned server server' fd)).2 (fun n => owed n ++ due completions answers n) := by
    rcases finish with ⟨closed,rfl⟩ | ⟨stays,flush | rfl⟩
    · -- the framing has refused the bytes, so the line is closed already
      refine turned_closed known (queued.quiet queued.lines (tally_append _ (.dropped fd)) ?_) (.inl rfl)
      intro g n unfinished line
      obtain ⟨rfl,_,_⟩ | ⟨_,handles⟩ := ends
      · cases closed
      · refine Finmap.lookup_erase_ne ?_
        rintro rfl
        have left : g ∈ tracked ((outs.foldl TcpServer.queueFrame { server with pipeline := pipeline }).dropConnection g).pipeline.registry := by
          rw [mem_tracked]
          exact (queued.registered g).trans (by rw [line]; rfl)
        exact ((handles.mem_tracked g).mp left).2 rfl rfl
    · obtain ⟨_,handles,_⟩ | ⟨closed,_⟩ := ends
      · rcases queued.handleWritable (handles.consistent_open consistent) flush with after | after
        · exact turned_closed known after (.inl rfl)
        · exact turned_closed known after (.inr rfl)
      · exact absurd closed stays
    · exact turned_closed known queued (.inl rfl)
  obtain ⟨nothing,balanced'⟩ := turns
  rw [nothing,List.append_nil,processor]
  exact ⟨answers,answered,length,balanced'⟩

/-- One step of the loop in which no push is refused. -/
theorem Kept.step (kept : Kept engine server arrivals) (consistent : Consistent maxConnections server) {event : Event}
    (possible : event.Possible server) (ran : event.run server = some server') (taken : event.refused server = 0) :
    Kept engine server' (arrivals ++ event.arrivals server server') := by
  cases event with
  | accept client =>
    cases ran
    refine kept.moves ?_ (accept_moves consistent possible)
    rw [TcpServer.acceptOne]
    split
    · cases answered : server.pipeline.accept client.fd with
      | mk result pipeline =>
        obtain rfl : pipeline = (server.pipeline.accept client.fd).2 := by rw [answered]
        cases result <;> rfl
    · rfl
  | write fd sent => exact kept.moves (by rw [handleWritable_processor ran]) (write_moves consistent ran)
  | read fd received flushed =>
    have known := mem_tracked.mp possible
    cases received with
    | wouldBlock =>
      cases ran
      refine kept.moves rfl ?_
      intro w owed balanced
      rw [Event.arrivals,turned_self]
      · exact ⟨rfl,balanced⟩
      · intro data same
        cases same
    | failed =>
      cases ran
      refine kept.moves ?_ ?_
      · rfl
      · intro w owed balanced
        exact turned_closed known (balanced.teardown consistent possible .SocketError) (.inr rfl)
    | bytes data =>
      by_cases bare : data = []
      · subst bare
        cases ran
        refine kept.moves ?_ ?_
        · rfl
        · intro w owed balanced
          exact turned_closed known (balanced.teardown consistent possible .PeerClosed) (.inr rfl)
      · exact kept.grows (read_grows consistent possible bare ran taken rfl)

theorem kept_new (listenFd : SocketHandle) :
    Kept (started maxConnections configs).processor.engine (TcpServer.new listenFd (started maxConnections configs)) [] := by
  obtain ⟨_,registry,_⟩ := started_idle maxConnections configs
  refine ⟨[],rfl,rfl,⟨numbered_new,?_,rfl,?_,?_,fun _ => List.nil_prefix,fun _ _ => rfl⟩⟩
  · intro fd
    rw [TcpServer.new,registry]
    rfl
  · intro fd n unfinished line
    cases line
  · intro fd n unfinished line
    cases line

/-- A run in which no push is refused. -/
theorem Heard.kept (heard : Heard maxConnections configs server arrivals refused) (taken : refused = 0) :
    Kept (started maxConnections configs).processor.engine server arrivals := by
  induction heard with
  | new listenFd operational => exact kept_new listenFd
  | step event before possible ran ih =>
    obtain ⟨earlier,now⟩ := Nat.add_eq_zero_iff.mp taken
    exact (ih earlier).step before.interleaved.consistent possible ran now

theorem readBytes_prefix (unfinished : List UInt8) {first bytes : List UInt8} (begins : first <+: bytes) :
    (readBytes unfinished first).1 <+: (readBytes unfinished bytes).1 := by
  obtain ⟨rest,rfl⟩ := begins
  rw [readBytes_append]
  cases (readBytes unfinished first).2 with
  | none => exact List.prefix_refl _
  | some last => exact List.prefix_append _ _

/-- In any order of accepts, reads and writable passes in which no push is refused: the
    engine has answered exactly the messages that the received bytes complete, in the order
    of the bytes that complete them; the messages of a connection are those that its own
    bytes spell; what its socket took, open or closed, are the first bytes of the encoded
    answers to these, so that a client who decodes them reads the first of its own answers;
    every connection that is open has its queue, which holds all the others, and there are
    no other queues. -/
theorem clients_read_own_answers (heard : Heard maxConnections configs server arrivals 0) :
    ∃ answers, answerAll (started maxConnections configs).processor.engine
        ((arriveAll Wires.new arrivals).1.map Completion.msg) = some (answers,server.pipeline.processor.engine) ∧
      answers.length = (arriveAll Wires.new arrivals).1.length ∧
      (∀ n, madeBy n (arriveAll Wires.new arrivals).1 = (readBytes [] (streamOf n arrivals)).1 ∧
        tookBy n server.log <+: (answersTo n (arriveAll Wires.new arrivals).1 answers).flatMap bytesOf ∧
        (readBytes [] (tookBy n server.log)).1 <+: answersTo n (arriveAll Wires.new arrivals).1 answers) ∧
      (∀ fd n unfinished, (arriveAll Wires.new arrivals).2.lines fd = some (n,unfinished) →
        ∃ queue, server.outbound.lookup fd = some queue ∧
          tookBy n server.log ++ queue = (answersTo n (arriveAll Wires.new arrivals).1 answers).flatMap bytesOf) ∧
      ∀ fd queue, server.outbound.lookup fd = some queue →
        ∃ n unfinished, (arriveAll Wires.new arrivals).2.lines fd = some (n,unfinished) := by
  have consistent := heard.interleaved.consistent
  obtain ⟨answers,answered,length,balanced⟩ := heard.kept rfl
  obtain ⟨idle,_,_⟩ := started_idle maxConnections configs
  obtain ⟨_,_,again,_,_,ranged⟩ := answerAll_orderly idle.running.orderly
    ((arriveAll Wires.new arrivals).1.map Completion.msg)
  cases answered.symm.trans again
  refine ⟨answers,answered,length,?_,balanced.queues,?_⟩
  · intro n
    have own := madeBy_later numbered_new n arrivals
    rw [show Wires.new.opened = 0 from rfl,Nat.zero_add] at own
    refine ⟨own,balanced.taken n,?_⟩
    have encoded : ∀ msg ∈ answersTo n (arriveAll Wires.new arrivals).1 answers, InRange msg := by
      intro msg inside
      obtain ⟨pair,known,events⟩ := List.mem_flatMap.mp inside
      have member := (List.of_mem_zip (List.mem_filter.mp known).1).2
      exact ranged msg (List.mem_flatten_of_mem member events)
    have first := readBytes_prefix [] (balanced.taken n)
    rwa [due,Terminators.readBytes_messages _ encoded] at first
  · intro fd queue found
    obtain ⟨n,unfinished,line,_⟩ := balanced.line_of_queue consistent found
    exact ⟨n,unfinished,line⟩

instance (server : TcpServer capacities) (event : Event) : Decidable (event.Possible server) :=
  match event with
  | .accept client => inferInstanceAs (Decidable (¬ Open server client.fd))
  | .read fd _ _ => inferInstanceAs (Decidable (fd ∈ tracked server.pipeline.registry))
  | .write _ _ => .isTrue trivial

/-- One step with what arrives in it and the pushes that are refused, if it is possible. -/
def hear (heard : TcpServer capacities × List Arrival × Nat) (event : Event) :
    Option (TcpServer capacities × List Arrival × Nat) :=
  if event.Possible heard.1 then do
    let server ← event.run heard.1
    return (server,heard.2.1 ++ event.arrivals heard.1 server,heard.2.2 + event.refused heard.1)
  else none

theorem hear_heard (heard : Heard maxConnections configs server arrivals refused) (events : List Event)
    {arrivals' : List Arrival} {refused' : Nat}
    (ran : events.foldlM hear (server,arrivals,refused) = some (server',arrivals',refused')) :
    Heard maxConnections configs server' arrivals' refused' := by
  induction events generalizing server arrivals refused with
  | nil =>
    cases ran
    exact heard
  | cons event rest ih =>
    rw [List.foldlM_cons] at ran
    obtain ⟨⟨next,more,lost⟩,first,later⟩ := Option.bind_eq_some_iff.mp ran
    rw [hear] at first
    split_ifs at first with possible
    obtain ⟨_,run,same⟩ := Option.bind_eq_some_iff.mp first
    cases same
    exact ih (heard.step event possible run) later

end

/-- An order on socket 5 rests. Socket 6 brings the first bytes of an order against it
    and then the others; the trade and the acknowledgement are taken in part before its
    peer closes, while the answer to socket 5 is still queued. -/
def crossed : List Event :=
  [.accept ⟨5,true⟩,.accept ⟨6,true⟩,
    .read 5 (.bytes (bytesOf (.newOrder ⟨1,.Buy,100,5,1⟩))) (fun _ => .wouldBlock),
    .read 6 (.bytes ((bytesOf (.newOrder ⟨2,.Sell,100,5,2⟩)).take 7)) (fun _ => .wouldBlock),
    .read 6 (.bytes ((bytesOf (.newOrder ⟨2,.Sell,100,5,2⟩)).drop 7)) (fun calls => if calls = 0 then .took 40 else .wouldBlock),
    .write 5 (fun calls => if calls = 0 then .took 4 else .wouldBlock),
    .read 6 (.bytes []) (fun _ => .wouldBlock)]

theorem clients_read_own_answers_crossed :
    ∃ (server : TcpServer small) (arrivals : List Arrival) (answers : List (List BinaryMessage)),
      Heard 2 [] server arrivals 0 ∧
      answerAll (started 2 [] : ServerPipeline small).processor.engine
        [.newOrder ⟨1,.Buy,100,5,1⟩,.newOrder ⟨2,.Sell,100,5,2⟩] = some (answers,server.pipeline.processor.engine) ∧
      (tookBy 1 server.log).length = 40 ∧ server.outbound.lookup 6 = none ∧
      [.trade ⟨1,100,5,2,1⟩] <+: answersTo 1 (arriveAll Wires.new arrivals).1 answers ∧
      (answersTo 0 (arriveAll Wires.new arrivals).1 answers).flatMap bytesOf = [3,1,0,0,0,0,0,0,0,0] := by
  have facts : (crossed.foldlM hear (TcpServer.new 3 (started 2 [] : ServerPipeline small),[],0)).map (fun r => decide
      (r.2.2 = 0 ∧ (arriveAll Wires.new r.2.1).1.map Completion.msg = [.newOrder ⟨1,.Buy,100,5,1⟩,.newOrder ⟨2,.Sell,100,5,2⟩] ∧
        (tookBy 1 r.1.log).length = 40 ∧ (r.1.outbound.lookup 6).isNone = true ∧
        (readBytes [] (tookBy 1 r.1.log)).1 = [.trade ⟨1,100,5,2,1⟩] ∧
        (r.1.outbound.lookup 5).map (List.map id) = some [0,0,0,0,0,0] ∧
        ((arriveAll Wires.new r.2.1).2.lines 5).map Prod.fst = some 0 ∧ tookBy 0 r.1.log = [3,1,0,0])) = some true := by
    decide +kernel
  obtain ⟨⟨server,arrivals,lost⟩,ran,shown⟩ := Option.map_eq_some_iff.mp facts
  obtain ⟨taken,msgs,forty,gone,decoded,queued,first,four⟩ := of_decide_eq_true shown
  obtain ⟨queue,found,left⟩ := Option.map_eq_some_iff.mp queued
  rw [List.map_id] at left
  dsimp only at taken
  subst taken
  have heard := hear_heard (.new 3 rfl) crossed ran
  obtain ⟨answers,answered,_,each,lines,queues⟩ := clients_read_own_answers heard
  refine ⟨server,arrivals,answers,heard,msgs ▸ answered,forty,Option.isNone_iff_eq_none.mp gone,decoded ▸ (each 1).2.2,?_⟩
  obtain ⟨n,unfinished,line⟩ := queues 5 queue found
  rw [line] at first
  cases first
  obtain ⟨_,same,rest⟩ := lines 5 0 unfinished line
  cases found.symm.trans same
  rw [← rest,four,left]
  rfl

end HyperMatch.Delivery
