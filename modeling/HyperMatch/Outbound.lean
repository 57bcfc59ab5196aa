import HyperMatch.Connections

/-!
The outbound queues of `cpp/network/include/hme/tcp_server.hpp`. In any order of accepts,
reads and writable passes, what the socket of a connection has taken and what is still
queued for it are together the frames that the pipeline handed out for it.
-/
namespace HyperMatch.Outbound
open HyperMatch.Connections HyperMatch.DataPath
open HyperMatch.Routing (started)
open HyperMatch.Processing (small)

/-! ### Streams -/

def handedOf (fd : SocketHandle) : Happening → List UInt8
  | .handed g frame => if g = fd then frame else []
  | _ => []

def sentOf (fd : SocketHandle) : Happening → List UInt8
  | .sent g bytes => if g = fd then bytes else []
  | _ => []

/-- The bytes of a connection, since its descriptor was last registered. -/
def since (fd : SocketHandle) (bytes : Happening → List UInt8) (log : List Happening) : List UInt8 :=
  log.foldl (fun stream happening =>
    if happening = .offered fd .Registered then [] else stream ++ bytes happening) []

/-- All frames that the pipeline handed out for the connection. -/
def handedTo (fd : SocketHandle) (log : List Happening) : List UInt8 := since fd (handedOf fd) log

/-- All bytes that the socket of the connection took. -/
def sentTo (fd : SocketHandle) (log : List Happening) : List UInt8 := since fd (sentOf fd) log

@[simp] theorem since_append (fd : SocketHandle) (bytes : Happening → List UInt8) (log : List Happening)
    (happening : Happening) :
    since fd bytes (log ++ [happening]) =
      if happening = .offered fd .Registered then [] else since fd bytes log ++ bytes happening := by
  simp [since]

/-! ### The calls of `send` -/

/-- The bytes that the calls of `send` in a writable pass take, one piece a call. -/
def pieces (queue : List UInt8) (sent : Nat → Sent) : Nat → Nat → Nat → List (List UInt8)
  | 0,_,_ => []
  | bound+1,calls,sentTotal =>
    if sentTotal < queue.length then
      match sent calls with
      | .took n =>
        let n := min n (TcpServer.offeredCount (queue.length - sentTotal))
        if n > 0 then (queue.drop sentTotal).take n :: pieces queue sent bound (calls + 1) (sentTotal + n) else []
      | .wouldBlock => []
      | .failed => []
    else []

theorem sendFrom_pieces {queue : List UInt8} {sent : Nat → Sent} {bound calls sentTotal total : Nat} {whole : Bool}
    (ends : TcpServer.sendFrom sent queue.length bound calls sentTotal = some (total,whole)) :
    queue.take sentTotal ++ (pieces queue sent bound calls sentTotal).flatten = queue.take total := by
  induction bound generalizing calls sentTotal with
  | zero => cases ends
  | succ bound ih =>
    rw [TcpServer.sendFrom] at ends
    rw [pieces]
    by_cases left : sentTotal < queue.length
    · rw [if_pos left] at ends
      rw [if_pos left]
      cases answer : sent calls with
      | wouldBlock =>
        simp only [answer,Option.some.injEq,Prod.mk.injEq] at ends
        simp [ends.1]
      | failed =>
        simp only [answer,Option.some.injEq,Prod.mk.injEq] at ends
        simp [ends.1]
      | took n =>
        simp only [answer] at ends
        by_cases some : min n (TcpServer.offeredCount (queue.length - sentTotal)) > 0
        · simp only [some,if_true] at ends ⊢
          rw [List.flatten_cons,← List.append_assoc,← List.take_add]
          exact ih ends
        · simp only [some,if_false,Option.some.injEq,Prod.mk.injEq] at ends
          simp only [some,if_false,List.flatten_nil,List.append_nil]
          rw [ends.1]
    · rw [if_neg left,Option.some.injEq,Prod.mk.injEq] at ends
      rw [if_neg left]
      simp [ends.1]

/-! ### The streams of a connection -/

section
variable {capacities : Capacities} {maxConnections : UInt32} {server server' : TcpServer capacities} {fd : SocketHandle}

/-- What the socket took and what is still queued are what was handed out. -/
def Streams (server : TcpServer capacities) : Prop :=
  ∀ fd queue, server.outbound.lookup fd = some queue → sentTo fd server.log ++ queue = handedTo fd server.log

theorem streams_new (listenFd : SocketHandle) (pipeline : ServerPipeline capacities) :
    Streams (TcpServer.new listenFd pipeline) := by
  intro fd queue found
  rw [TcpServer.new,Finmap.lookup_empty] at found
  cases found

/-- What says nothing of the streams and takes queues away at most leaves them as they are. -/
theorem Streams.quiet (streams : Streams server) (happening : Happening)
    (other : ∀ fd, happening ≠ .offered fd .Registered) (nothing : ∀ fd, handedOf fd happening = [] ∧ sentOf fd happening = [])
    (queues : ∀ fd queue, server'.outbound.lookup fd = some queue → server.outbound.lookup fd = some queue)
    (logged : server'.log = server.log ++ [happening]) : Streams server' := by
  intro fd queue found
  have before := streams fd queue (queues fd queue found)
  rw [logged,sentTo,handedTo,since_append,since_append,if_neg (other fd),if_neg (other fd),(nothing fd).1,(nothing fd).2,
    List.append_nil,List.append_nil]
  exact before

theorem Streams.dropConnection (streams : Streams server) (fd : SocketHandle) : Streams (server.dropConnection fd) := by
  refine streams.quiet (.dropped fd) (by simp) (fun _ => ⟨rfl,rfl⟩) ?_ rfl
  intro g queue found
  by_cases same : g = fd
  · subst same
    rw [TcpServer.dropConnection,Finmap.lookup_erase] at found
    cases found
  · rwa [TcpServer.dropConnection,Finmap.lookup_erase_ne same] at found

/-- A frame goes to the end of a queue that is there. -/
theorem Streams.queueFrame (streams : Streams server) {out : SocketHandle × List UInt8} (inside : out.1 ∈ server.outbound) :
    Streams (server.queueFrame out) := by
  intro g queue found
  rw [TcpServer.queueFrame] at found ⊢
  rw [sentTo,handedTo,since_append,since_append,if_neg (by simp),if_neg (by simp)]
  by_cases same : g = out.1
  · obtain ⟨before,known⟩ := Option.isSome_iff_exists.mp (Finmap.lookup_isSome.mpr inside)
    rw [same,Finmap.lookup_insert,known] at found
    cases found
    have kept := streams out.1 before known
    rw [sentTo,handedTo] at kept
    rw [same]
    simp [handedOf,sentOf,← kept]
  · rw [Finmap.lookup_insert_of_ne _ same] at found
    have kept := streams g queue found
    rw [sentTo,handedTo] at kept
    simp [handedOf,sentOf,Ne.symm same,kept]

theorem Streams.queueFrames {outs : List (SocketHandle × List UInt8)} (streams : Streams server)
    (own : ∀ out ∈ outs, out.1 = fd) (inside : fd ∈ server.outbound) : Streams (outs.foldl TcpServer.queueFrame server) := by
  induction outs generalizing server with
  | nil => exact streams
  | cons out rest ih =>
    have first := own out List.mem_cons_self
    have here : out.1 ∈ server.outbound := first ▸ inside
    refine ih (streams.queueFrame here) (fun o later => own o (List.mem_cons_of_mem _ later)) ?_
    exact (mem_insert_known here _ fd).mpr inside

/-! ### One pass over a queue -/

/-- The pieces that a writable pass hands to the socket. -/
def taken (server : TcpServer capacities) (fd : SocketHandle) (sent : Nat → Sent) : List (List UInt8) :=
  match server.outbound.lookup fd with
  | none => []
  | some queue => pieces queue sent (queue.length + 1) 0 0

/-- A writable pass ends; it sends the first bytes of the queue, and the others stay
    queued or the connection is torn down. -/
theorem handleWritable_cases (server : TcpServer capacities) (fd : SocketHandle) (sent : Nat → Sent) :
    (server.handleWritable fd sent = some server ∧ taken server fd sent = []) ∨
      ∃ queue total, server.outbound.lookup fd = some queue ∧ (taken server fd sent).flatten = queue.take total ∧
        (server.handleWritable fd sent = some { server with
            log := server.log ++ [.sent fd (queue.take total)]
            outbound := server.outbound.insert fd (queue.drop total) } ∨
          server.handleWritable fd sent = some ((({ server with
            log := server.log ++ [.sent fd (queue.take total)] } : TcpServer capacities).teardown fd .SocketError).dropConnection fd)) := by
  rw [TcpServer.handleWritable,taken]
  cases found : server.outbound.lookup fd with
  | none => exact .inl ⟨rfl,rfl⟩
  | some queue =>
    cases bare : queue.isEmpty with
    | true =>
      obtain rfl := List.isEmpty_iff.mp bare
      exact .inl ⟨rfl,rfl⟩
    | false =>
      have enough : queue.length - 0 < queue.length + 1 := Nat.lt_succ_self _
      obtain ⟨total,whole,ends⟩ := sendFrom_ends sent 0 enough
      have flat := sendFrom_pieces ends
      rw [List.take_zero,List.nil_append] at flat
      refine .inr ⟨queue,total,rfl,flat,?_⟩
      cases whole with
      | true =>
        apply Or.inl
        simp [bare,ends]
      | false =>
        apply Or.inr
        simp [bare,ends]

theorem Streams.handleWritable (streams : Streams server) {sent : Nat → Sent}
    (ran : server.handleWritable fd sent = some server') : Streams server' := by
  obtain ⟨still,_⟩ | ⟨queue,total,found,_,kept | ended⟩ := handleWritable_cases server fd sent
  · rw [still,Option.some.injEq] at ran
    exact ran ▸ streams
  · rw [kept,Option.some.injEq] at ran
    subst ran
    intro g rest known
    rw [sentTo,handedTo,since_append,since_append,if_neg (by simp),if_neg (by simp)]
    by_cases same : g = fd
    · rw [same,Finmap.lookup_insert] at known
      cases known
      have before := streams fd queue found
      rw [sentTo,handedTo] at before
      rw [same]
      simp [handedOf,sentOf,← before]
    · rw [Finmap.lookup_insert_of_ne _ same] at known
      have before := streams g rest known
      rw [sentTo,handedTo] at before
      simp [handedOf,sentOf,Ne.symm same,before]
  · rw [ended,Option.some.injEq] at ran
    subst ran
    intro g rest known
    -- The queue of the connection itself is gone, and the others have not been sent.
    have other : g ≠ fd := by
      rintro rfl
      rw [TcpServer.dropConnection,Finmap.lookup_erase] at known
      cases known
    rw [TcpServer.dropConnection,Finmap.lookup_erase_ne other] at known
    have before := streams g rest known
    rw [sentTo,handedTo] at before
    change sentTo g (server.log ++ [_] ++ [_]) ++ rest = handedTo g (server.log ++ [_] ++ [_])
    simp only [sentTo,handedTo,since_append]
    simp [handedOf,sentOf,Ne.symm other,before]

theorem submitted_own (consistent : Consistent maxConnections server) {bytes : List UInt8} {status : FrameStatus}
    {outs : List (SocketHandle × List UInt8)} {pipeline : ServerPipeline capacities}
    (submitted : server.pipeline.submitClientBytes fd bytes = some (status,outs,pipeline)) : ∀ out ∈ outs, out.1 = fd := by
  obtain ⟨answers,_,_,_,spec,_⟩ := submitClientBytes_spec consistent.serving fd bytes
  rw [submitted,Option.some.injEq,Prod.mk.injEq,Prod.mk.injEq] at spec
  intro out inside
  rw [spec.2.1,framesFor,List.mem_map] at inside
  obtain ⟨_,_,rfl⟩ := inside
  rfl

theorem Streams.handleReadable (streams : Streams server) (consistent : Consistent maxConnections server)
    (here : fd ∈ tracked server.pipeline.registry) {received : Received} {flushed : Nat → Sent}
    (ran : server.handleReadable fd received flushed = some server') : Streams server' := by
  cases received with
  | wouldBlock =>
    rw [TcpServer.handleReadable,Option.some.injEq] at ran
    exact ran ▸ streams
  | failed =>
    rw [TcpServer.handleReadable,Option.some.injEq] at ran
    subst ran
    have torn : Streams (server.teardown fd .SocketError) := streams
    exact torn.dropConnection fd
  | bytes data =>
    rw [TcpServer.handleReadable] at ran
    cases bare : data.isEmpty with
    | true =>
      rw [bare,if_pos rfl,Option.some.injEq] at ran
      subst ran
      have torn : Streams (server.teardown fd .PeerClosed) := streams
      exact torn.dropConnection fd
    | false =>
      rw [bare,if_neg Bool.false_ne_true] at ran
      cases submitted : server.pipeline.submitClientBytes fd (data.take TcpServer.kReadBufferSize) with
      | none => simp [submitted] at ran
      | some result =>
        obtain ⟨status,outs,pipeline⟩ := result
        let read : TcpServer capacities := { server with pipeline := pipeline }
        let queued := outs.foldl TcpServer.queueFrame read
        have same : Streams read := streams
        have inside : fd ∈ read.outbound := (consistent.queues fd).mpr here
        have joined : Streams queued := same.queueFrames (submitted_own consistent submitted) inside
        rw [submitted] at ran
        change (if status = .Closed then some (queued.dropConnection fd)
          else if queued.queued fd then queued.handleWritable fd flushed else some queued) = some server' at ran
        split_ifs at ran
        · cases ran
          exact joined.dropConnection fd
        · exact joined.handleWritable ran
        · exact Option.some.inj ran ▸ joined

theorem Streams.acceptOne (streams : Streams server) (consistent : Consistent maxConnections server) {client : Accepted}
    (shut : ¬ Open server client.fd) : Streams (server.acceptOne client) := by
  rw [TcpServer.acceptOne]
  split
  · cases answered : server.pipeline.accept client.fd with
    | mk result pipeline =>
      cases result with
      | Registered =>
        intro g queue found
        by_cases same : g = client.fd
        · -- No queue is left over from an earlier connection with the same descriptor.
          have untracked : client.fd ∉ tracked server.pipeline.registry :=
            fun here => shut ((consistent.open_iff client.fd).mpr (.inr here))
          have bare : server.outbound.lookup client.fd = none :=
            Finmap.lookup_eq_none.mpr (fun inside => untracked ((consistent.queues client.fd).mp inside))
          subst same
          simp only [Finmap.lookup_insert,bare,Option.getD_none,Option.some.injEq] at found
          subst found
          simp [sentTo,handedTo]
        · simp only [Finmap.lookup_insert_of_ne _ same] at found
          have before := streams g queue found
          rw [sentTo,handedTo] at before
          simp [sentTo,handedTo,Ne.symm same,handedOf,sentOf,before]
      | RejectedAtCapacity =>
        exact streams.quiet (.offered client.fd .RejectedAtCapacity) (by simp) (fun _ => ⟨rfl,rfl⟩) (fun _ _ => id) rfl
  · exact streams.quiet (.discarded client.fd) (by simp) (fun _ => ⟨rfl,rfl⟩) (fun _ _ => id) rfl

/-! ### Runs -/

/-- Any order of accepts, reads and writable passes, with any answers of the operating system. -/
inductive Interleaved (maxConnections : UInt32) : TcpServer capacities → Prop where
  | new (listenFd : SocketHandle) (configs : List (EngineConfig capacities))
    (operational : (started maxConnections configs : ServerPipeline capacities).processor.operational = true) :
    Interleaved maxConnections (TcpServer.new listenFd (started maxConnections configs))
  | acceptOne {server : TcpServer capacities} {client : Accepted} : Interleaved maxConnections server →
    ¬ Open server client.fd → Interleaved maxConnections (server.acceptOne client)
  | handleReadable {server server' : TcpServer capacities} {fd : SocketHandle} {received : Received} {flushed : Nat → Sent} :
    Interleaved maxConnections server → fd ∈ tracked server.pipeline.registry →
    server.handleReadable fd received flushed = some server' → Interleaved maxConnections server'
  | handleWritable {server server' : TcpServer capacities} {fd : SocketHandle} {sent : Nat → Sent} :
    Interleaved maxConnections server → server.handleWritable fd sent = some server' → Interleaved maxConnections server'

theorem acceptOne_consistent (consistent : Consistent maxConnections server) {client : Accepted}
    (shut : ¬ Open server client.fd) : Consistent maxConnections (server.acceptOne client) := by
  obtain ⟨fd,nonblocking⟩ := client
  cases nonblocking with
  | true => exact (acceptOne_spec consistent shut).1
  | false =>
    have quiet : Handles fd false server (server.acceptOne ⟨fd,false⟩) :=
      handles_quiet consistent.serving fd (fun _ => Iff.rfl) (by simp [offers]) (by simp)
    exact quiet.consistent_open consistent

theorem Interleaved.consistent (interleaved : Interleaved maxConnections server) : Consistent maxConnections server := by
  induction interleaved with
  | new listenFd configs operational => exact reached_consistent (.new listenFd configs operational)
  | acceptOne interleaved shut ih => exact acceptOne_consistent ih shut
  | @handleReadable server server' fd received flushed interleaved here ran ih =>
    obtain ⟨after,ended,read,handles,_⟩ := handleReadable_handles ih here received flushed
    rw [ran,Option.some.injEq] at read
    subst read
    exact handles.consistent ih (fun _ => here)
  | @handleWritable server server' fd sent interleaved ran ih =>
    obtain ⟨after,ended,written,handles,here⟩ := handleWritable_handles ih fd sent
    rw [ran,Option.some.injEq] at written
    subst written
    exact handles.consistent ih here

theorem Interleaved.streams (interleaved : Interleaved maxConnections server) : Streams server := by
  induction interleaved with
  | new listenFd configs operational => exact streams_new listenFd _
  | acceptOne interleaved shut ih => exact ih.acceptOne interleaved.consistent shut
  | handleReadable interleaved here ran ih => exact ih.handleReadable interleaved.consistent here ran
  | handleWritable interleaved ran ih => exact ih.handleWritable ran

theorem Interleaved.drainAccept {accepts : List Accepted} (interleaved : Interleaved maxConnections server)
    (offerable : Offerable server accepts) : Interleaved maxConnections (server.drainAccept accepts) := by
  induction accepts generalizing server with
  | nil => exact interleaved
  | cons client rest ih => exact ih (interleaved.acceptOne offerable.2.1) offerable.2.2

theorem Interleaved.reads {fds : List SocketHandle} {received : SocketHandle → Received} {flushed : SocketHandle → Nat → Sent}
    (interleaved : Interleaved maxConnections server) (once : fds.Nodup)
    (known : ∀ fd ∈ fds, fd ∈ tracked server.pipeline.registry)
    (ran : fds.foldlM (fun s fd => s.handleReadable fd (received fd) (flushed fd)) server = some server') :
    Interleaved maxConnections server' := by
  induction fds generalizing server with
  | nil => exact Option.some.inj ran ▸ interleaved
  | cons fd rest ih =>
    rw [List.foldlM_cons] at ran
    obtain ⟨between,read,later⟩ := Option.bind_eq_some_iff.mp ran
    have here := known fd List.mem_cons_self
    obtain ⟨after,ended,read',handles,_⟩ := handleReadable_handles interleaved.consistent here (received fd) (flushed fd)
    rw [read,Option.some.injEq] at read'
    subst read'
    obtain ⟨fresh,once⟩ := List.nodup_cons.mp once
    refine ih (interleaved.handleReadable here read) once ?_ later
    intro g inside
    exact (handles.mem_tracked g).mpr ⟨known g (List.mem_cons_of_mem _ inside),fun _ same => fresh (same ▸ inside)⟩

theorem Interleaved.writes {fds : List SocketHandle} {sent : SocketHandle → Nat → Sent}
    (interleaved : Interleaved maxConnections server)
    (ran : fds.foldlM (fun s fd => s.handleWritable fd (sent fd)) server = some server') :
    Interleaved maxConnections server' := by
  induction fds generalizing server with
  | nil => exact Option.some.inj ran ▸ interleaved
  | cons fd rest ih =>
    rw [List.foldlM_cons] at ran
    obtain ⟨between,written,later⟩ := Option.bind_eq_some_iff.mp ran
    exact ih (interleaved.handleWritable written) later

/-- The passes of the loop are such an order. -/
theorem reached_interleaved (reached : Reached maxConnections server) : Interleaved maxConnections server := by
  induction reached with
  | new listenFd configs operational => exact .new listenFd configs operational
  | runOnce ready reached admissible ran ih =>
    cases ready with
    | none => exact Option.some.inj ran ▸ ih
    | some answers =>
      have admitted := admissible answers rfl
      obtain ⟨read,reads,writes⟩ := Option.bind_eq_some_iff.mp ran
      have drained := ih.drainAccept admitted.offerable
      refine (drained.reads (admitted.readOnce.filter _) ?_ reads).writes writes
      intro fd inside
      rw [← drained.consistent.monitored,← admitted.readAll,List.mem_toFinset]
      exact (List.mem_filter.mp inside).1

/-- In any order of accepts, reads and writable passes, the bytes that the socket of a
    connection took and the bytes still queued for it are all frames handed out for it
    since it was accepted, in order; and every writable pass ends, what its calls of
    `send` took coming next on the socket. -/
theorem outbound_stream_kept (interleaved : Interleaved maxConnections server) (fd : SocketHandle) :
    (∀ queue, server.outbound.lookup fd = some queue → sentTo fd server.log ++ queue = handedTo fd server.log) ∧
      (fd ∈ server.outbound ↔ fd ∈ tracked server.pipeline.registry) ∧
      ∀ sent, ∃ server', server.handleWritable fd sent = some server' ∧
        sentTo fd server'.log = sentTo fd server.log ++ (taken server fd sent).flatten := by
  refine ⟨interleaved.streams fd,interleaved.consistent.queues fd,?_⟩
  intro sent
  obtain ⟨still,nothing⟩ | ⟨queue,total,_,flat,kept | ended⟩ := handleWritable_cases server fd sent
  · exact ⟨server,still,by simp [nothing]⟩
  · refine ⟨_,kept,?_⟩
    simp [sentTo,sentOf,flat]
  · refine ⟨_,ended,?_⟩
    change sentTo fd (server.log ++ [_] ++ [_]) = _
    simp only [sentTo,since_append]
    simp [sentOf,flat]

/-- The answer to the second connection on a descriptor, after the socket took three bytes of it. -/
theorem outbound_stream_partly :
    ∃ server : TcpServer small, Interleaved 1 server ∧ (sentTo 5 server.log).length = 3 ∧
      ∃ queue, server.outbound.lookup 5 = some queue ∧ queue ≠ [] ∧
        sentTo 5 server.log ++ queue = handedTo 5 server.log := by
  have facts : (reuse.foldlM runAdmissible (TcpServer.new 3 (started 1 [] : ServerPipeline small))).map (fun s =>
      ((sentTo 5 s.log).length,(s.outbound.lookup 5).map List.isEmpty)) = some (3,some false) := by decide +kernel
  obtain ⟨server,ran,shown⟩ := Option.map_eq_some_iff.mp facts
  simp only [Prod.mk.injEq] at shown
  obtain ⟨three,waiting⟩ := shown
  obtain ⟨queue,found,some⟩ := Option.map_eq_some_iff.mp waiting
  have interleaved := reached_interleaved (runAdmissible_reached (.new 3 [] rfl) reuse ran)
  refine ⟨server,interleaved,three,queue,found,?_,(outbound_stream_kept interleaved 5).1 queue found⟩
  rintro rfl
  cases some

end

end HyperMatch.Outbound
