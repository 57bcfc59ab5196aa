import HyperMatch.Routing
import HyperMatch.TcpServer

/-!
The connections of the event loop. Three classes keep one map each: the registry its
framing buffers, the poller its monitored sockets, the server its outbound queues. In
every run they are the maps of one set of connections, and what the poller is told of a
descriptor is one whole life after another.
-/
namespace HyperMatch.Connections
open HyperMatch.Wire HyperMatch.DataPath HyperMatch.FrameBuffer
open HyperMatch.Processing (small)
open HyperMatch.WireFormat (bytesOf)
open HyperMatch.Routing (started started_idle accept_framed)

/-! ### The registry -/

section
variable {registry : ConnectionRegistry} {fd : SocketHandle}

/-- The descriptors that the registry tracks. -/
def tracked (registry : ConnectionRegistry) : List SocketHandle := registry.connections.map Prod.fst

theorem mem_tracked : fd ∈ tracked registry ↔ registry.isRegistered fd = true := by
  rw [ConnectionRegistry.isRegistered,ConnectionRegistry.find,Option.isSome_map,List.find?_isSome,tracked]
  simp

theorem find_none_iff : registry.find fd = none ↔ fd ∉ tracked registry := by
  rw [mem_tracked,ConnectionRegistry.isRegistered]
  simp

theorem tracked_withFramer (fd : SocketHandle) (framer : FrameBuffer) :
    tracked (registry.withFramer fd framer) = tracked registry := by
  rw [tracked,ConnectionRegistry.withFramer,List.map_map,tracked]
  apply List.map_congr_left
  intro c _
  by_cases here : c.1 = fd
  · simp [here]
  · simp [here]

theorem teardown_untracked (untracked : fd ∉ tracked registry) (reason : TeardownReason) :
    registry.teardown fd reason = registry := by
  rw [mem_tracked] at untracked
  rw [ConnectionRegistry.teardown,if_neg untracked]

theorem teardown_tracked (here : fd ∈ tracked registry) (reason : TeardownReason) :
    tracked (registry.teardown fd reason) = (tracked registry).filter (fun g => decide (g ≠ fd)) ∧
      (registry.teardown fd reason).poller =
        registry.poller ++ [.deregisterReadiness fd,.closeSocket fd] ∧
      (registry.teardown fd reason).maxConnections = registry.maxConnections := by
  rw [mem_tracked] at here
  rw [ConnectionRegistry.teardown,if_pos here]
  refine ⟨?_,rfl,rfl⟩
  rw [tracked,tracked,List.filter_map]
  rfl

/-- After the first, a teardown of the same descriptor has no effect. -/
theorem teardown_teardown (registry : ConnectionRegistry) (fd : SocketHandle) (first again : TeardownReason) :
    (registry.teardown fd first).teardown fd again = registry.teardown fd first := by
  apply teardown_untracked
  rw [← find_none_iff,find_teardown,if_pos rfl]

/-- A read of a tracked connection leaves the registry's other parts alone, or tears
    the connection down. -/
theorem onReadable_tracked (here : fd ∈ tracked registry) {bytes : List UInt8} {isOpen : Bool} {msgs : List BinaryMessage}
    {registry' : ConnectionRegistry} (read : registry.onReadable fd bytes = some (isOpen,msgs,registry')) :
    registry'.maxConnections = registry.maxConnections ∧
      tracked registry' = (tracked registry).filter (fun g => isOpen || decide (g ≠ fd)) ∧
      registry'.poller = registry.poller ++ if isOpen then [] else [.deregisterReadiness fd,.closeSocket fd] := by
  obtain ⟨framer,found⟩ := Option.isSome_iff_exists.mp (mem_tracked.mp here)
  rw [ConnectionRegistry.onReadable,found] at read
  obtain ⟨⟨status,msgs',after⟩,_,rest⟩ := Option.bind_eq_some_iff.mp read
  by_cases closed : status = .Closed
  · simp only [closed,if_true,Option.pure_def,Option.some.injEq,Prod.mk.injEq] at rest
    obtain ⟨rfl,_,rfl⟩ := rest
    have still : fd ∈ tracked (registry.withFramer fd after) := by rwa [tracked_withFramer]
    obtain ⟨keys,calls,cap⟩ := teardown_tracked still .OversizeFrame
    rw [tracked_withFramer] at keys
    exact ⟨cap,by simpa using keys,calls⟩
  · simp only [closed,if_false,Option.pure_def,Option.some.injEq,Prod.mk.injEq] at rest
    obtain ⟨rfl,_,rfl⟩ := rest
    refine ⟨rfl,?_,?_⟩
    · simp [tracked_withFramer]
    · simp [ConnectionRegistry.withFramer]
end

/-! ### The pipeline -/

section
variable {capacities : Capacities}

theorem deliver_registry (msgs : List BinaryMessage) (s : ServerPipeline capacities) :
    (msgs.foldl ServerPipeline.deliver s).registry = s.registry := by
  induction msgs generalizing s with
  | nil => rfl
  | cons msg rest ih =>
    rw [List.foldl_cons,ih,ServerPipeline.deliver]
    split
    · rfl
    · rfl

theorem drainEventsFrom_registry {fd : SocketHandle} {bound : Nat} {s s' : ServerPipeline capacities}
    {outs : List (SocketHandle × List UInt8)} (drained : ServerPipeline.drainEventsFrom fd bound s = some (outs,s')) :
    s'.registry = s.registry := by
  induction bound generalizing s outs with
  | zero => cases drained
  | succ bound ih =>
    rw [ServerPipeline.drainEventsFrom] at drained
    split at drained
    · cases drained
      rfl
    · split at drained
      · obtain ⟨⟨later,last⟩,rest,same⟩ := Option.bind_eq_some_iff.mp drained
        cases same
        rw [ih rest]
      · rw [ih drained]

/-- Only the framing of a read changes the registry, and the status says whether it
    closed the connection. -/
theorem submitClientBytes_registry {s s' : ServerPipeline capacities} (ready : s.processor.operational = true)
    {fd : SocketHandle} {bytes : List UInt8} {status : FrameStatus} {outs : List (SocketHandle × List UInt8)}
    (submitted : s.submitClientBytes fd bytes = some (status,outs,s')) :
    ∃ isOpen msgs, s.registry.onReadable fd bytes = some (isOpen,msgs,s'.registry) ∧
      status = if isOpen then .Ok else .Closed := by
  rw [ServerPipeline.submitClientBytes,ready] at submitted
  simp only [Bool.not_true,Bool.false_eq_true,if_false] at submitted
  obtain ⟨⟨isOpen,msgs,registry⟩,read,submitted⟩ := Option.bind_eq_some_iff.mp submitted
  obtain ⟨⟨_,processor⟩,_,submitted⟩ := Option.bind_eq_some_iff.mp submitted
  obtain ⟨⟨outs',last⟩,drained,same⟩ := Option.bind_eq_some_iff.mp submitted
  cases same
  have kept := drainEventsFrom_registry drained
  rw [deliver_registry] at kept
  rw [kept]
  exact ⟨isOpen,msgs,read,rfl⟩
end

/-! ### Lives -/

/-- The descriptor that the poller is told of. -/
def handleOf : PollerCall → SocketHandle
  | .registerReadiness fd => fd
  | .deregisterReadiness fd => fd
  | .closeSocket fd => fd

/-- What the poller is told of one descriptor. -/
def callsFor (fd : SocketHandle) (calls : List PollerCall) : List PollerCall :=
  calls.filter (fun call => decide (handleOf call = fd))

/-- What became of each accepted socket that had this descriptor. -/
def offers (fd : SocketHandle) (log : List Happening) : List AcceptResult :=
  log.filterMap (fun happening =>
    match happening with
    | .offered g result => if g = fd then some result else none
    | _ => none)

/-- All that the poller is told of one accepted socket. -/
def life (fd : SocketHandle) : AcceptResult → List PollerCall
  | .Registered => [.registerReadiness fd,.deregisterReadiness fd,.closeSocket fd]
  | .RejectedAtCapacity => [.closeSocket fd]

/-- What the poller has yet to be told of a tracked connection. -/
def stillToCome (registry : ConnectionRegistry) (fd : SocketHandle) : List PollerCall :=
  if fd ∈ tracked registry then [.deregisterReadiness fd,.closeSocket fd] else []

theorem offers_append (fd : SocketHandle) (first second : List Happening) :
    offers fd (first ++ second) = offers fd first ++ offers fd second := List.filterMap_append

theorem callsFor_append (fd : SocketHandle) (first second : List PollerCall) :
    callsFor fd (first ++ second) = callsFor fd first ++ callsFor fd second := List.filter_append ..

/-- Another life begins: its first call is made and the rest is still to come, while the
    lives of the other descriptors go on. -/
theorem lives_offered {calls : List PollerCall} {log : List Happening} {before after : SocketHandle → List PollerCall}
    (lives : ∀ g, callsFor g calls ++ before g = (offers g log).flatMap (life g)) {fd : SocketHandle} {call : PollerCall}
    {result : AcceptResult} (own : handleOf call = fd) (finished : before fd = []) (begun : call :: after fd = life fd result)
    (others : ∀ g ≠ fd, after g = before g) (g : SocketHandle) :
    callsFor g (calls ++ [call]) ++ after g = (offers g (log ++ [.offered fd result])).flatMap (life g) := by
  rw [callsFor_append,offers_append,List.flatMap_append,← lives g]
  by_cases same : g = fd
  · subst same
    simp [callsFor,offers,own,finished,begun]
  · have other : fd ≠ g := Ne.symm same
    simp [callsFor,offers,own,other,others g same]

theorem count_callsFor (fd : SocketHandle) (calls : List PollerCall) :
    (callsFor fd calls).count (.closeSocket fd) = calls.count (.closeSocket fd) := by
  apply List.count_filter
  simp [handleOf]

/-- Every life ends with the only close of its socket. -/
theorem count_lives (fd : SocketHandle) (results : List AcceptResult) :
    (results.flatMap (life fd)).count (.closeSocket fd) = results.length := by
  induction results with
  | nil => rfl
  | cons result rest ih =>
    rw [List.flatMap_cons,List.count_append,ih,List.length_cons]
    cases result with
    | Registered => simp [life]; omega
    | RejectedAtCapacity => simp [life]; omega

theorem told_append (calls : List PollerCall) (call : PollerCall) :
    SelectReadinessPoller.told (calls ++ [call]) = (SelectReadinessPoller.told calls).call call := by
  rw [SelectReadinessPoller.told,List.foldl_append]
  rfl

theorem told_ended (calls : List PollerCall) (fd : SocketHandle) :
    SelectReadinessPoller.told (calls ++ [.deregisterReadiness fd,.closeSocket fd]) =
      ⟨(SelectReadinessPoller.told calls).monitored.erase fd,(SelectReadinessPoller.told calls).closedCount + 1⟩ := by
  rw [SelectReadinessPoller.told,List.foldl_append]
  rfl

/-! ### The invariant -/

section
variable {capacities : Capacities} {maxConnections : UInt32} {server server' : TcpServer capacities} {fd : SocketHandle}

/-- The descriptors that the operating system has given to the process and not taken
    back. -/
def Open (server : TcpServer capacities) (fd : SocketHandle) : Prop :=
  fd = server.listenFd ∨
    server.pipeline.registry.poller.count (.closeSocket fd) < (offers fd server.log).length

structure Consistent (maxConnections : UInt32) (server : TcpServer capacities) : Prop where
  serving : Serving server.pipeline
  cap : server.pipeline.registry.maxConnections = maxConnections
  apart : (tracked server.pipeline.registry).Nodup
  bounded : (tracked server.pipeline.registry).length ≤ maxConnections.toNat
  monitored : ∀ fd, fd ∈ server.poller.monitored ↔ fd ∈ tracked server.pipeline.registry
  queues : ∀ fd, fd ∈ server.outbound ↔ fd ∈ tracked server.pipeline.registry
  lives : ∀ fd, callsFor fd server.pipeline.registry.poller ++ stillToCome server.pipeline.registry fd =
    (offers fd server.log).flatMap (life fd)
  drops : ∀ fd, server.log.count (.dropped fd) + (if fd ∈ tracked server.pipeline.registry then 1 else 0) =
    (offers fd server.log).count .Registered
  counted : server.closed + UInt64.ofNat (tracked server.pipeline.registry).length = server.accepted
  closes : server.poller.closedCount = server.rejected + server.closed

/-- A connection is open as long as it is tracked. -/
theorem Consistent.open_iff (consistent : Consistent maxConnections server) (fd : SocketHandle) :
    Open server fd ↔ fd = server.listenFd ∨ fd ∈ tracked server.pipeline.registry := by
  have closes := congrArg (List.count (.closeSocket fd)) (consistent.lives fd)
  rw [List.count_append,count_callsFor,count_lives,stillToCome] at closes
  by_cases here : fd ∈ tracked server.pipeline.registry
  · rw [if_pos here] at closes
    simp only [Open,here,or_true,iff_true]
    right
    rw [← closes]
    simp
  · rw [if_neg here] at closes
    simp only [Open,here,or_false]
    rw [← closes]
    simp

/-- What the handling of one connection does: `ended` says whether the connection
    leaves the three maps. -/
structure Handles (fd : SocketHandle) (ended : Bool) (server server' : TcpServer capacities) : Prop where
  serving : Serving server'.pipeline
  cap : server'.pipeline.registry.maxConnections = server.pipeline.registry.maxConnections
  keys : tracked server'.pipeline.registry =
    (tracked server.pipeline.registry).filter (fun g => !ended || decide (g ≠ fd))
  calls : server'.pipeline.registry.poller =
    server.pipeline.registry.poller ++ if ended then [.deregisterReadiness fd,.closeSocket fd] else []
  queues : ∀ g, g ∈ server'.outbound ↔ g ∈ server.outbound ∧ (ended = true → g ≠ fd)
  offered : ∀ g, offers g server'.log = offers g server.log
  drops : ∀ g, server'.log.count (.dropped g) = server.log.count (.dropped g) + if ended = true ∧ g = fd then 1 else 0
  accepted : server'.accepted = server.accepted
  rejected : server'.rejected = server.rejected
  closed : server'.closed = server.closed + if ended then 1 else 0
  others : ∀ g ≠ fd, unfinishedOf server'.pipeline.registry g = unfinishedOf server.pipeline.registry g

theorem Handles.mem_tracked {ended : Bool} (handles : Handles fd ended server server') (g : SocketHandle) :
    g ∈ tracked server'.pipeline.registry ↔ g ∈ tracked server.pipeline.registry ∧ (ended = true → g ≠ fd) := by
  rw [handles.keys,List.mem_filter]
  cases ended with
  | false => simp
  | true => simp

theorem Handles.trans {between : TcpServer capacities} {ended : Bool} (first : Handles fd false server between)
    (second : Handles fd ended between server') : Handles fd ended server server' where
  serving := second.serving
  cap := second.cap.trans first.cap
  keys := by rw [second.keys,first.keys]; simp
  calls := by rw [second.calls,first.calls]; simp
  queues := by intro g; rw [second.queues,first.queues]; simp
  offered := by intro g; rw [second.offered,first.offered]
  drops := by intro g; rw [second.drops,first.drops]; simp
  accepted := second.accepted.trans first.accepted
  rejected := second.rejected.trans first.rejected
  closed := by rw [second.closed,first.closed]; simp
  others := by intro g other; rw [second.others g other,first.others g other]

theorem handles_refl (serving : Serving server.pipeline) (fd : SocketHandle) : Handles fd false server server where
  serving := serving
  cap := rfl
  keys := by simp
  calls := by simp
  queues := by simp
  offered := fun _ => rfl
  drops := by simp
  accepted := rfl
  rejected := rfl
  closed := by simp
  others := fun _ _ => rfl

theorem length_filter_ne {fds : List SocketHandle} (apart : fds.Nodup) (here : fd ∈ fds) :
    (fds.filter (fun g => decide (g ≠ fd))).length + 1 = fds.length := by
  have same : fds.filter (fun g => decide (g ≠ fd)) = fds.erase fd := by
    rw [apart.erase_eq_filter]
    apply List.filter_congr
    intro g _
    by_cases same : g = fd
    · simp [same]
    · simp [same]
  rw [same,List.length_erase_of_mem here]
  have := List.length_pos_of_mem here
  omega

/-- A connection that goes on leaves every map as it was. -/
theorem Handles.consistent_open (handles : Handles fd false server server') (consistent : Consistent maxConnections server) :
    Consistent maxConnections server' := by
  have keys : tracked server'.pipeline.registry = tracked server.pipeline.registry := by
    rw [handles.keys]
    simp
  have calls : server'.pipeline.registry.poller = server.pipeline.registry.poller := by
    rw [handles.calls]
    simp
  have told : server'.poller = server.poller := by rw [TcpServer.poller,calls,TcpServer.poller]
  refine ⟨handles.serving,handles.cap.trans consistent.cap,?_,?_,?_,?_,?_,?_,?_,?_⟩
  · rw [keys]
    exact consistent.apart
  · rw [keys]
    exact consistent.bounded
  · intro g
    rw [told,keys]
    exact consistent.monitored g
  · intro g
    rw [handles.queues,keys,consistent.queues]
    simp
  · intro g
    rw [calls,stillToCome,keys,handles.offered]
    exact consistent.lives g
  · intro g
    rw [handles.drops,keys,handles.offered]
    simpa using consistent.drops g
  · rw [handles.closed,keys,handles.accepted]
    simpa using consistent.counted
  · rw [told,handles.rejected,handles.closed]
    simpa using consistent.closes

/-- A connection that ends leaves every map at once, and its life is whole. -/
theorem Handles.consistent_ended (handles : Handles fd true server server') (consistent : Consistent maxConnections server)
    (here : fd ∈ tracked server.pipeline.registry) : Consistent maxConnections server' := by
  have keys : tracked server'.pipeline.registry = (tracked server.pipeline.registry).filter (fun g => decide (g ≠ fd)) := by
    rw [handles.keys]
    simp
  have calls : server'.pipeline.registry.poller =
      server.pipeline.registry.poller ++ [.deregisterReadiness fd,.closeSocket fd] := by
    rw [handles.calls]
    simp
  have told : server'.poller = ⟨server.poller.monitored.erase fd,server.poller.closedCount + 1⟩ := by
    rw [TcpServer.poller,calls,told_ended,TcpServer.poller]
  have fewer := length_filter_ne consistent.apart here
  rw [← keys] at fewer
  have gone : ∀ g, g ∈ tracked server'.pipeline.registry ↔ g ≠ fd ∧ g ∈ tracked server.pipeline.registry := by
    intro g
    rw [keys,List.mem_filter,decide_eq_true_eq,and_comm]
  refine ⟨handles.serving,handles.cap.trans consistent.cap,?_,?_,?_,?_,?_,?_,?_,?_⟩
  · rw [keys]
    exact consistent.apart.filter _
  · have := consistent.bounded
    omega
  · intro g
    rw [told,Finset.mem_erase,consistent.monitored,gone]
  · intro g
    rw [handles.queues,consistent.queues,gone]
    simp [and_comm]
  · intro g
    have before := consistent.lives g
    rw [handles.offered,← before,calls,callsFor_append,stillToCome,stillToCome]
    by_cases same : g = fd
    · subst same
      rw [if_pos here,if_neg (by simp [gone])]
      simp [callsFor,handleOf]
    · have other : fd ≠ g := Ne.symm same
      simp [gone,same,callsFor,handleOf,other]
  · intro g
    have before := consistent.drops g
    rw [handles.drops,handles.offered,← before]
    by_cases same : g = fd
    · subst same
      simp [gone,here]
    · simp [gone,same]
  · have before := consistent.counted
    rw [handles.closed,handles.accepted,if_pos rfl,← before,← fewer,UInt64.ofNat_add,UInt64.ofNat_one,UInt64.add_assoc,
      UInt64.add_comm 1]
  · have before := consistent.closes
    rw [told,handles.rejected,handles.closed,if_pos rfl,before,UInt64.add_assoc]

theorem Handles.consistent {ended : Bool} (handles : Handles fd ended server server')
    (consistent : Consistent maxConnections server) (here : ended = true → fd ∈ tracked server.pipeline.registry) :
    Consistent maxConnections server' := by
  cases ended with
  | false => exact handles.consistent_open consistent
  | true => exact handles.consistent_ended consistent (here rfl)

/-! ### Accepting -/

theorem accept_below {registry : ConnectionRegistry} (room : (tracked registry).length < registry.maxConnections.toNat)
    (untracked : fd ∉ tracked registry) :
    registry.accept fd = (.Registered,{ registry with
      connections := registry.connections ++ [(fd,FrameBuffer.new)]
      poller := registry.poller ++ [.registerReadiness fd] }) := by
  rw [tracked,List.length_map] at room
  rw [mem_tracked] at untracked
  rw [ConnectionRegistry.accept,if_neg (Nat.not_le.mpr room),if_neg untracked]

theorem accept_full {registry : ConnectionRegistry} (full : registry.maxConnections.toNat ≤ (tracked registry).length)
    (fd : SocketHandle) :
    registry.accept fd = (.RejectedAtCapacity,{ registry with poller := registry.poller ++ [.closeSocket fd] }) := by
  rw [tracked,List.length_map] at full
  rw [ConnectionRegistry.accept,if_pos full]

/-- A new connection enters the three maps at once. -/
theorem acceptOne_registered (consistent : Consistent maxConnections server)
    (room : (tracked server.pipeline.registry).length < maxConnections.toNat)
    (untracked : fd ∉ tracked server.pipeline.registry) :
    Consistent maxConnections (server.acceptOne ⟨fd,true⟩) := by
  have accepted := accept_below (consistent.cap ▸ room) untracked
  have framed := accept_framed consistent.serving.framed fd
  rw [accepted] at framed
  simp only [TcpServer.acceptOne,if_true,ServerPipeline.accept,accepted]
  have keys : ∀ calls, tracked ⟨server.pipeline.registry.maxConnections,
      server.pipeline.registry.connections ++ [(fd,FrameBuffer.new)],calls⟩ = tracked server.pipeline.registry ++ [fd] := by
    intro calls
    simp [tracked]
  refine ⟨⟨consistent.serving.running,consistent.serving.ready,framed⟩,consistent.cap,?_,?_,?_,?_,?_,?_,?_,?_⟩
  · rw [keys,List.nodup_append]
    refine ⟨consistent.apart,List.nodup_singleton fd,?_⟩
    intro g before x last
    rw [List.mem_singleton.mp last]
    intro same
    exact untracked (same ▸ before)
  · rw [keys,List.length_append,List.length_singleton]
    exact room
  · intro g
    rw [TcpServer.poller,told_append,keys,List.mem_append,List.mem_singleton,← consistent.monitored g,TcpServer.poller]
    simp [SelectReadinessPoller.call,SelectReadinessPoller.registerReadiness,or_comm]
  · intro g
    rw [Finmap.mem_insert,keys,List.mem_append,List.mem_singleton,consistent.queues,or_comm]
  · have own : handleOf (.registerReadiness fd) = fd := rfl
    apply lives_offered consistent.lives own
    · simp [stillToCome,untracked]
    · simp [stillToCome,keys,life]
    · intro g other
      simp [stillToCome,keys,other]
  · intro g
    have before := consistent.drops g
    rw [keys,offers_append,List.count_append,List.count_append,← before]
    by_cases same : g = fd
    · subst same
      simp [untracked,offers]
    · have other : fd ≠ g := Ne.symm same
      simp [same,offers,other]
  · rw [keys,List.length_append,List.length_singleton,← consistent.counted,UInt64.ofNat_add,UInt64.add_assoc]
    rfl
  · have before := consistent.closes
    rw [TcpServer.poller] at before ⊢
    rw [told_append]
    exact before

/-- A socket that is turned away enters none of them. -/
theorem acceptOne_rejected (consistent : Consistent maxConnections server)
    (full : maxConnections.toNat ≤ (tracked server.pipeline.registry).length)
    (untracked : fd ∉ tracked server.pipeline.registry) :
    Consistent maxConnections (server.acceptOne ⟨fd,true⟩) := by
  have accepted := accept_full (consistent.cap ▸ full) fd
  simp only [TcpServer.acceptOne,if_true,ServerPipeline.accept,accepted]
  have keys : ∀ calls, tracked ⟨server.pipeline.registry.maxConnections,server.pipeline.registry.connections,calls⟩ =
      tracked server.pipeline.registry := fun _ => rfl
  refine ⟨⟨consistent.serving.running,consistent.serving.ready,consistent.serving.framed⟩,consistent.cap,
    consistent.apart,consistent.bounded,?_,consistent.queues,?_,?_,consistent.counted,?_⟩
  · intro g
    rw [TcpServer.poller,told_append,keys,← consistent.monitored g]
    rfl
  · have own : handleOf (.closeSocket fd) = fd := rfl
    apply lives_offered consistent.lives own
    · simp [stillToCome,untracked]
    · simp [stillToCome,keys,life,untracked]
    · intro g _
      rfl
  · intro g
    have before := consistent.drops g
    rw [keys,offers_append,List.count_append,List.count_append,← before]
    by_cases same : fd = g
    · simp [offers,same]
    · simp [offers,same]
  · have before := consistent.closes
    rw [TcpServer.poller] at before ⊢
    rw [told_append]
    simp only [SelectReadinessPoller.call,SelectReadinessPoller.closeSocket]
    rw [before,UInt64.add_assoc,UInt64.add_assoc,UInt64.add_comm 1]

/-! ### Handling one connection -/

theorem mem_insert_known {outbound : Finmap (fun _ : SocketHandle => List UInt8)} (inside : fd ∈ outbound)
    (queue : List UInt8) (g : SocketHandle) : g ∈ outbound.insert fd queue ↔ g ∈ outbound := by
  rw [Finmap.mem_insert]
  constructor
  · rintro (rfl | before)
    · exact inside
    · exact before
  · exact .inr

/-- The queue of a connection changes, and the log says nothing that a life depends on. -/
theorem handles_quiet (serving : Serving server.pipeline) (fd : SocketHandle)
    {outbound : Finmap (fun _ : SocketHandle => List UInt8)} {log : List Happening}
    (queues : ∀ g, g ∈ outbound ↔ g ∈ server.outbound) (offered : ∀ g, offers g log = offers g server.log)
    (drops : ∀ g, log.count (.dropped g) = server.log.count (.dropped g)) :
    Handles fd false server { server with outbound := outbound, log := log } where
  serving := serving
  cap := rfl
  keys := by simp
  calls := by simp
  queues := by simpa using queues
  offered := offered
  drops := by simpa using drops
  accepted := rfl
  rejected := rfl
  closed := by simp
  others := fun _ _ => rfl

theorem teardown_handles (serving : Serving server.pipeline) (here : fd ∈ tracked server.pipeline.registry)
    (reason : TeardownReason) : Handles fd true server ((server.teardown fd reason).dropConnection fd) := by
  obtain ⟨keys,calls,cap⟩ := teardown_tracked here reason
  refine ⟨⟨serving.running,serving.ready,serving.framed.teardown fd reason⟩,cap,?_,calls,?_,?_,?_,rfl,rfl,rfl,?_⟩
  · change tracked (server.pipeline.registry.teardown fd reason) = _
    rw [keys]
    simp
  · intro g
    simp [TcpServer.dropConnection,TcpServer.teardown,and_comm]
  · intro g
    simp [TcpServer.dropConnection,TcpServer.teardown,offers]
  · intro g
    by_cases same : g = fd
    · simp [TcpServer.dropConnection,TcpServer.teardown,same]
    · have other : fd ≠ g := Ne.symm same
      simp [TcpServer.dropConnection,TcpServer.teardown,same,other]
  · intro g other
    change unfinishedOf (server.pipeline.registry.teardown fd reason) g = _
    rw [unfinishedOf_teardown,Function.update_of_ne other]

/-- The loop of `handle_writable` ends: every turn but the last takes a byte. -/
theorem sendFrom_ends (sent : Nat → Sent) {size bound : Nat} (calls : Nat) {sentTotal : Nat}
    (enough : size - sentTotal < bound) :
    ∃ total whole, TcpServer.sendFrom sent size bound calls sentTotal = some (total,whole) := by
  induction bound generalizing calls sentTotal with
  | zero => omega
  | succ bound ih =>
    rw [TcpServer.sendFrom]
    by_cases left : sentTotal < size
    · rw [if_pos left]
      cases sent calls with
      | wouldBlock => exact ⟨sentTotal,true,rfl⟩
      | failed => exact ⟨sentTotal,false,rfl⟩
      | took n =>
        by_cases some : min n (TcpServer.offeredCount (size - sentTotal)) > 0
        · simp only [some,if_true]
          exact ih (calls + 1) (by omega)
        · simp only [some,if_false]
          exact ⟨sentTotal,false,rfl⟩
    · rw [if_neg left]
      exact ⟨sentTotal,true,rfl⟩

theorem handleWritable_handles (consistent : Consistent maxConnections server) (fd : SocketHandle) (sent : Nat → Sent) :
    ∃ server' ended, server.handleWritable fd sent = some server' ∧ Handles fd ended server server' ∧
      (ended = true → fd ∈ tracked server.pipeline.registry) := by
  have refl := handles_refl consistent.serving fd
  rw [TcpServer.handleWritable]
  cases found : server.outbound.lookup fd with
  | none => exact ⟨server,false,rfl,refl,by simp⟩
  | some queue =>
    have inside : fd ∈ server.outbound := Finmap.mem_of_lookup_eq_some found
    have here := (consistent.queues fd).mp inside
    cases bare : queue.isEmpty with
    | true => exact ⟨server,false,by simp [bare],refl,by simp⟩
    | false =>
      have enough : queue.length - 0 < queue.length + 1 := Nat.lt_succ_self _
      obtain ⟨total,whole,ends⟩ := sendFrom_ends sent 0 enough
      let logged : TcpServer capacities := { server with log := server.log ++ [.sent fd (queue.take total)] }
      have offered : ∀ g, offers g logged.log = offers g server.log := by simp [logged,offers]
      have drops : ∀ g, logged.log.count (.dropped g) = server.log.count (.dropped g) := by simp [logged]
      cases whole with
      | true =>
        refine ⟨{ logged with outbound := server.outbound.insert fd (queue.drop total) },false,?_,?_,by simp⟩
        · simp [bare,ends,logged]
        · exact handles_quiet consistent.serving fd (fun g => mem_insert_known inside _ g) offered drops
      | false =>
        have quiet := handles_quiet consistent.serving fd (fun _ => Iff.rfl) offered drops
        have ended : Handles fd true logged ((logged.teardown fd .SocketError).dropConnection fd) :=
          teardown_handles quiet.serving here .SocketError
        refine ⟨(logged.teardown fd .SocketError).dropConnection fd,true,?_,quiet.trans ended,fun _ => here⟩
        simp [bare,ends,logged]

/-- The frames of a read join the queue that their connection has. -/
theorem queueFrames_spec (server : TcpServer capacities) {outs : List (SocketHandle × List UInt8)}
    (own : ∀ out ∈ outs, out.1 = fd) (inside : fd ∈ server.outbound) :
    ∃ outbound log, outs.foldl TcpServer.queueFrame server = { server with outbound := outbound, log := log } ∧
      (∀ g, g ∈ outbound ↔ g ∈ server.outbound) ∧ (∀ g, offers g log = offers g server.log) ∧
      ∀ g, log.count (.dropped g) = server.log.count (.dropped g) := by
  induction outs generalizing server with
  | nil => exact ⟨server.outbound,server.log,rfl,fun _ => Iff.rfl,fun _ => rfl,fun _ => rfl⟩
  | cons out rest ih =>
    have first := own out List.mem_cons_self
    have kept : ∀ g, g ∈ (server.queueFrame out).outbound ↔ g ∈ server.outbound := by
      intro g
      exact mem_insert_known (first ▸ inside) _ g
    obtain ⟨outbound,log,folded,queues,offered,drops⟩ := ih (server.queueFrame out)
      (fun o later => own o (List.mem_cons_of_mem _ later)) ((kept fd).mpr inside)
    refine ⟨outbound,log,folded,fun g => (queues g).trans (kept g),?_,?_⟩
    · intro g
      rw [offered]
      simp [TcpServer.queueFrame,offers]
    · intro g
      rw [drops]
      simp [TcpServer.queueFrame]

/-- What `recv` answers when the connection cannot go on: the end of the peer's stream,
    an error, or bytes that the framing refuses. -/
def Fatal (unfinished : Option (List UInt8)) : Received → Prop
  | .bytes data => data = [] ∨ unfinished.bind (fun u => (readBytes u (data.take TcpServer.kReadBufferSize)).2) = none
  | .wouldBlock => False
  | .failed => True

theorem unfinishedOf_isSome {registry : ConnectionRegistry} :
    (unfinishedOf registry fd).isSome = true ↔ fd ∈ tracked registry := by
  rw [mem_tracked,isRegistered_eq]

/-- One read of a tracked connection, up to the flush: the pipeline answers, and the
    connection has ended where the status says so. -/
theorem submit_handles (consistent : Consistent maxConnections server) (here : fd ∈ tracked server.pipeline.registry)
    (bytes : List UInt8) :
    ∃ status outs pipeline, server.pipeline.submitClientBytes fd bytes = some (status,outs,pipeline) ∧
      (status = .Ok ∧ Handles fd false server (outs.foldl TcpServer.queueFrame { server with pipeline := pipeline }) ∧
        (unfinishedOf server.pipeline.registry fd).bind (fun u => (readBytes u bytes).2) ≠ none ∨
      status = .Closed ∧
        Handles fd true server ((outs.foldl TcpServer.queueFrame { server with pipeline := pipeline }).dropConnection fd)) := by
  obtain ⟨answers,status,pipeline,_,submitted,serving,after,_⟩ := submitClientBytes_spec consistent.serving fd bytes
  obtain ⟨isOpen,msgs,read,shown⟩ := submitClientBytes_registry consistent.serving.ready submitted
  obtain ⟨cap,keys,calls⟩ := onReadable_tracked here read
  have own : ∀ out ∈ framesFor fd (answers.flatten.take capacities.egress.size), out.1 = fd := by
    intro out m
    obtain ⟨_,_,rfl⟩ := List.mem_map.mp m
    rfl
  have others : ∀ g ≠ fd, unfinishedOf pipeline.registry g = unfinishedOf server.pipeline.registry g := by
    intro g other
    rw [after,Function.update_of_ne other]
  have inside : fd ∈ ({ server with pipeline := pipeline } : TcpServer capacities).outbound := (consistent.queues fd).mpr here
  obtain ⟨outbound,log,folded,queues,offered,drops⟩ := queueFrames_spec { server with pipeline := pipeline } own inside
  refine ⟨status,_,pipeline,submitted,?_⟩
  rw [folded]
  cases isOpen with
  | true =>
    refine .inl ⟨shown,⟨serving,cap,by simpa using keys,by simpa using calls,by simpa using queues,offered,
      by simpa using drops,rfl,rfl,(UInt64.add_zero _).symm,others⟩,?_⟩
    have still : fd ∈ tracked pipeline.registry := by
      rw [keys]
      simpa using here
    rw [← unfinishedOf_isSome,after,Function.update_self] at still
    exact Option.isSome_iff_ne_none.mp still
  | false =>
    refine .inr ⟨shown,⟨serving,cap,?_,?_,?_,?_,?_,rfl,rfl,rfl,others⟩⟩
    · simpa [TcpServer.dropConnection] using keys
    · simpa [TcpServer.dropConnection] using calls
    · intro g
      simp [TcpServer.dropConnection,queues,and_comm]
    · intro g
      simpa [TcpServer.dropConnection,offers] using offered g
    · intro g
      by_cases same : g = fd
      · simp [TcpServer.dropConnection,same,drops]
      · have other : fd ≠ g := Ne.symm same
        simp [TcpServer.dropConnection,same,other,drops]

theorem handleReadable_handles (consistent : Consistent maxConnections server) (here : fd ∈ tracked server.pipeline.registry)
    (received : Received) (flushed : Nat → Sent) :
    ∃ server' ended, server.handleReadable fd received flushed = some server' ∧ Handles fd ended server server' ∧
      (Fatal (unfinishedOf server.pipeline.registry fd) received → ended = true) := by
  cases received with
  | wouldBlock => exact ⟨server,false,rfl,handles_refl consistent.serving fd,fun fatal => fatal.elim⟩
  | failed => exact ⟨_,true,rfl,teardown_handles consistent.serving here .SocketError,fun _ => rfl⟩
  | bytes data =>
    cases bare : data.isEmpty with
    | true =>
      refine ⟨_,true,?_,teardown_handles consistent.serving here .PeerClosed,fun _ => rfl⟩
      simp [TcpServer.handleReadable,bare]
    | false =>
      obtain ⟨status,outs,pipeline,submitted,cases⟩ := submit_handles consistent here (data.take TcpServer.kReadBufferSize)
      let queued : TcpServer capacities := outs.foldl TcpServer.queueFrame { server with pipeline := pipeline }
      have step : server.handleReadable fd (.bytes data) flushed =
          if status = .Closed then some (queued.dropConnection fd)
          else if queued.queued fd then queued.handleWritable fd flushed else some queued := by
        simp [TcpServer.handleReadable,bare,submitted,queued]
      rw [step]
      obtain ⟨rfl,open',decoded⟩ | ⟨rfl,ended⟩ := cases
      · have unending : ¬ Fatal (unfinishedOf server.pipeline.registry fd) (.bytes data) := by
          rintro (none | undecodable)
          · simp [none] at bare
          · exact decoded undecodable
        rw [if_neg (by decide)]
        by_cases waiting : queued.queued fd = true
        · obtain ⟨server',ended,written,handles,_⟩ :=
            handleWritable_handles (open'.consistent_open consistent) fd flushed
          exact ⟨server',ended,by rw [if_pos waiting]; exact written,open'.trans handles,fun fatal => absurd fatal unending⟩
        · exact ⟨queued,false,by rw [if_neg waiting],open',fun fatal => absurd fatal unending⟩
      · exact ⟨_,true,by rw [if_pos rfl],ended,fun _ => rfl⟩

/-! ### One pass -/

/-- The operating system returns no descriptor that is open when `accept` is called,
    and each accepted socket can be made non-blocking. -/
def Offerable (server : TcpServer capacities) : List Accepted → Prop
  | [] => True
  | client :: rest =>
    client.nonblocking = true ∧ ¬ Open server client.fd ∧ Offerable (server.acceptOne client) rest

/-- What the operating system may answer in a pass, and an order in which the
    unordered containers may be walked. -/
structure Admissible (server : TcpServer capacities) (ready : Readiness) : Prop where
  offerable : Offerable server ready.accepts
  readOnce : ready.readOrder.Nodup
  readAll : ready.readOrder.toFinset = (server.drainAccept ready.accepts).poller.monitored
  writeOnce : ready.writeOrder.Nodup
  writeAll : ∀ read, server.runReads ready = some read → ready.writeOrder.toFinset = read.outbound.keys

/-- One accepted socket: below the cap its connection enters with nothing read, at the
    cap it is closed. -/
theorem acceptOne_spec (consistent : Consistent maxConnections server) (shut : ¬ Open server fd) :
    Consistent maxConnections (server.acceptOne ⟨fd,true⟩) ∧
      ((tracked server.pipeline.registry).length < maxConnections.toNat →
        (server.acceptOne ⟨fd,true⟩).pipeline.registry.connections =
          server.pipeline.registry.connections ++ [(fd,FrameBuffer.new)] ∧
        (server.acceptOne ⟨fd,true⟩).pipeline.registry.poller =
          server.pipeline.registry.poller ++ [.registerReadiness fd] ∧
        (server.acceptOne ⟨fd,true⟩).log = server.log ++ [.offered fd .Registered]) ∧
      (maxConnections.toNat ≤ (tracked server.pipeline.registry).length →
        (server.acceptOne ⟨fd,true⟩).pipeline.registry.connections = server.pipeline.registry.connections ∧
        (server.acceptOne ⟨fd,true⟩).pipeline.registry.poller = server.pipeline.registry.poller ++ [.closeSocket fd] ∧
        (server.acceptOne ⟨fd,true⟩).log = server.log ++ [.offered fd .RejectedAtCapacity]) := by
  have untracked : fd ∉ tracked server.pipeline.registry := fun here => shut ((consistent.open_iff fd).mpr (.inr here))
  by_cases room : (tracked server.pipeline.registry).length < maxConnections.toNat
  · refine ⟨acceptOne_registered consistent room untracked,?_,fun full => absurd room (Nat.not_lt.mpr full)⟩
    intro _
    simp [TcpServer.acceptOne,ServerPipeline.accept,accept_below (consistent.cap ▸ room) untracked]
  · have full := Nat.not_lt.mp room
    refine ⟨acceptOne_rejected consistent full untracked,fun room' => absurd room' room,?_⟩
    intro _
    simp [TcpServer.acceptOne,ServerPipeline.accept,accept_full (consistent.cap ▸ full) fd]

theorem acceptOne_registry (server : TcpServer capacities) (fd : SocketHandle) :
    (server.acceptOne ⟨fd,true⟩).pipeline.registry = (server.pipeline.registry.accept fd).2 := by
  rw [TcpServer.acceptOne,if_pos rfl,ServerPipeline.accept]
  obtain ⟨result,registry⟩ := server.pipeline.registry.accept fd
  cases result with
  | Registered => rfl
  | RejectedAtCapacity => rfl

/-- A new connection leaves the framing of the others alone. -/
theorem acceptOne_others (consistent : Consistent maxConnections server) (shut : ¬ Open server fd) {g : SocketHandle}
    (here : g ∈ tracked server.pipeline.registry) :
    unfinishedOf (server.acceptOne ⟨fd,true⟩).pipeline.registry g = unfinishedOf server.pipeline.registry g := by
  rw [acceptOne_registry]
  by_cases registered : (server.pipeline.registry.accept fd).1 = .Registered
  · have untracked : fd ∉ tracked server.pipeline.registry := fun known => shut ((consistent.open_iff fd).mpr (.inr known))
    have other : g ≠ fd := fun same => untracked (same ▸ here)
    rw [mem_tracked,Bool.not_eq_true] at untracked
    rw [(accept_registered registered untracked consistent.serving.framed).2,Function.update_of_ne other]
  · rw [(accept_rejected registered consistent.serving.framed).2]

theorem drainAccept_consistent (consistent : Consistent maxConnections server) {accepts : List Accepted}
    (offerable : Offerable server accepts) :
    Consistent maxConnections (server.drainAccept accepts) ∧
      ∀ g ∈ tracked server.pipeline.registry,
        unfinishedOf (server.drainAccept accepts).pipeline.registry g = unfinishedOf server.pipeline.registry g := by
  induction accepts generalizing server with
  | nil => exact ⟨consistent,fun g here => rfl⟩
  | cons client rest ih =>
    obtain ⟨fd,nonblocking⟩ := client
    obtain ⟨rfl,shut,later⟩ := offerable
    obtain ⟨after,_⟩ := acceptOne_spec consistent shut
    obtain ⟨consistent',kept⟩ := ih after later
    refine ⟨consistent',?_⟩
    intro g here
    have first := acceptOne_others consistent shut here
    have still : g ∈ tracked (server.acceptOne ⟨fd,true⟩).pipeline.registry := by
      rw [← unfinishedOf_isSome,first,unfinishedOf_isSome]
      exact here
    exact (kept g still).trans first

/-- The connections handled in a pass: each is handled once, on its own, and all the
    others stay. -/
theorem reads_consistent (consistent : Consistent maxConnections server) {fds : List SocketHandle} (once : fds.Nodup)
    (known : ∀ fd ∈ fds, fd ∈ tracked server.pipeline.registry) (received : SocketHandle → Received)
    (flushed : SocketHandle → Nat → Sent) :
    ∃ server', fds.foldlM (fun s fd => s.handleReadable fd (received fd) (flushed fd)) server = some server' ∧
      Consistent maxConnections server' ∧
      (∀ g ∈ tracked server'.pipeline.registry, g ∈ tracked server.pipeline.registry) ∧
      ∀ fd ∈ fds, Fatal (unfinishedOf server.pipeline.registry fd) (received fd) →
        fd ∉ tracked server'.pipeline.registry := by
  induction fds generalizing server with
  | nil => exact ⟨server,rfl,consistent,fun _ here => here,by simp⟩
  | cons fd rest ih =>
    obtain ⟨fresh,once'⟩ := List.nodup_cons.mp once
    have here := known fd List.mem_cons_self
    obtain ⟨next,ended,handled,handles,fatal⟩ := handleReadable_handles consistent here (received fd) (flushed fd)
    have apart : ∀ g ∈ rest, g ≠ fd := fun g later same => fresh (same ▸ later)
    have known' : ∀ g ∈ rest, g ∈ tracked next.pipeline.registry := by
      intro g later
      exact (handles.mem_tracked g).mpr ⟨known g (List.mem_cons_of_mem _ later),fun _ => apart g later⟩
    obtain ⟨server',folded,consistent',fewer,ends⟩ := ih (handles.consistent consistent (fun _ => here)) once' known'
    refine ⟨server',?_,consistent',?_,?_⟩
    · rw [List.foldlM_cons,handled]
      exact folded
    · intro g still
      exact ((handles.mem_tracked g).mp (fewer g still)).1
    · intro g inside lost still
      rcases List.mem_cons.mp inside with rfl | later
      · exact ((handles.mem_tracked g).mp (fewer g still)).2 (fatal lost) rfl
      · rw [← handles.others g (apart g later)] at lost
        exact ends g later lost still

theorem writes_consistent (consistent : Consistent maxConnections server) (fds : List SocketHandle)
    (sent : SocketHandle → Nat → Sent) :
    ∃ server', fds.foldlM (fun s fd => s.handleWritable fd (sent fd)) server = some server' ∧
      Consistent maxConnections server' ∧
      ∀ g ∈ tracked server'.pipeline.registry, g ∈ tracked server.pipeline.registry := by
  induction fds generalizing server with
  | nil => exact ⟨server,rfl,consistent,fun _ here => here⟩
  | cons fd rest ih =>
    obtain ⟨next,ended,handled,handles,here⟩ := handleWritable_handles consistent fd (sent fd)
    obtain ⟨server',folded,consistent',fewer⟩ := ih (handles.consistent consistent here)
    refine ⟨server',?_,consistent',?_⟩
    · rw [List.foldlM_cons,handled]
      exact folded
    · intro g still
      exact ((handles.mem_tracked g).mp (fewer g still)).1

/-- A pass returns, keeps the invariant, and ends each connection whose read cannot go
    on. -/
theorem runOnce_consistent (consistent : Consistent maxConnections server) {ready : Readiness}
    (admissible : Admissible server ready) :
    ∃ server', server.runOnce (some ready) = some server' ∧ Consistent maxConnections server' ∧
      ∀ fd ∈ tracked server.pipeline.registry, ready.readable fd = true →
        Fatal (unfinishedOf server.pipeline.registry fd) (ready.received fd) → fd ∉ tracked server'.pipeline.registry := by
  obtain ⟨drained,kept⟩ := drainAccept_consistent consistent admissible.offerable
  have walked : ∀ fd, fd ∈ ready.readOrder ↔ fd ∈ tracked (server.drainAccept ready.accepts).pipeline.registry := by
    intro fd
    rw [← drained.monitored,← admissible.readAll,List.mem_toFinset]
  have known : ∀ fd ∈ ready.readOrder.filter (server.readSet ready),
      fd ∈ tracked (server.drainAccept ready.accepts).pipeline.registry :=
    fun fd inside => (walked fd).mp (List.mem_of_mem_filter inside)
  obtain ⟨read,reads,consistent',fewer,ends⟩ := reads_consistent drained (admissible.readOnce.filter _) known
    ready.received ready.flushed
  obtain ⟨server',writes,consistent'',fewer'⟩ := writes_consistent consistent'
    (ready.writeOrder.filter (fun fd => read.queued fd && server.writeSet ready fd)) ready.sent
  refine ⟨server',?_,consistent'',?_⟩
  · rw [TcpServer.runOnce,TcpServer.runReads,reads]
    exact writes
  · intro fd here readable fatal still
    have now := kept fd here
    have inside : fd ∈ ready.readOrder.filter (server.readSet ready) := by
      rw [List.mem_filter,walked,← unfinishedOf_isSome,now,unfinishedOf_isSome,TcpServer.readSet]
      simp [here,readable,consistent.monitored]
    rw [← now] at fatal
    exact ends fd inside fatal (fewer' fd still)

/-! ### Runs -/

/-- The servers after each pass of the loop, over an operational pipeline. -/
inductive Reached (maxConnections : UInt32) : TcpServer capacities → Prop where
  | new (listenFd : SocketHandle) (configs : List (EngineConfig capacities))
    (operational : (started maxConnections configs : ServerPipeline capacities).processor.operational = true) :
    Reached maxConnections (TcpServer.new listenFd (started maxConnections configs))
  | runOnce {server server' : TcpServer capacities} (ready : Option Readiness) : Reached maxConnections server →
    (∀ answers, ready = some answers → Admissible server answers) → server.runOnce ready = some server' →
    Reached maxConnections server'

theorem reached_consistent (reached : Reached maxConnections server) : Consistent maxConnections server := by
  induction reached with
  | new listenFd configs operational =>
    obtain ⟨idle,registry,_⟩ := started_idle maxConnections configs
    refine ⟨idle.serving operational,?_,?_,?_,?_,?_,?_,?_,?_,?_⟩
    all_goals simp only [TcpServer.new,TcpServer.poller,registry]
    · rfl
    · exact List.nodup_nil
    · exact Nat.zero_le _
    · simp [ConnectionRegistry.new,SelectReadinessPoller.told,SelectReadinessPoller.new,tracked]
    · simp [ConnectionRegistry.new,tracked,Finmap.notMem_empty]
    · simp [ConnectionRegistry.new,tracked,stillToCome,callsFor,offers]
    · simp [ConnectionRegistry.new,tracked,offers]
    · rfl
    · rfl
  | runOnce ready _ admissible ran ih =>
    cases ready with
    | none =>
      cases ran
      exact ih
    | some answers =>
      obtain ⟨_,ran',consistent,_⟩ := runOnce_consistent ih (admissible answers rfl)
      rw [ran] at ran'
      cases ran'
      exact consistent

theorem offerable_append {accepts later : List Accepted} (offerable : Offerable server (accepts ++ later)) :
    Offerable server accepts ∧ Offerable (server.drainAccept accepts) later := by
  induction accepts generalizing server with
  | nil => exact ⟨trivial,offerable⟩
  | cons client rest ih =>
    obtain ⟨nonblocking,shut,after⟩ := offerable
    obtain ⟨first,second⟩ := ih after
    exact ⟨⟨nonblocking,shut,first⟩,second⟩

/-- In every run over an operational pipeline the three maps have the same descriptors,
    at most as many as the cap, and the poller is told one whole life after another of
    each descriptor: register, deregister and close below the cap, close alone at it. -/
theorem connections_consistent {maxConnections : UInt32} {server : TcpServer capacities}
    (reached : Reached maxConnections server) :
    (tracked server.pipeline.registry).Nodup ∧
    server.poller.monitored = (tracked server.pipeline.registry).toFinset ∧
    server.outbound.keys = (tracked server.pipeline.registry).toFinset ∧
    (tracked server.pipeline.registry).length ≤ maxConnections.toNat ∧
    (∀ fd, callsFor fd server.pipeline.registry.poller ++ stillToCome server.pipeline.registry fd =
      (offers fd server.log).flatMap (life fd)) ∧
    (∀ fd, server.log.count (.dropped fd) + (if fd ∈ tracked server.pipeline.registry then 1 else 0) =
      (offers fd server.log).count .Registered) ∧
    server.closed + UInt64.ofNat (tracked server.pipeline.registry).length = server.accepted ∧
    server.poller.closedCount = server.rejected + server.closed ∧
    (∀ fd, server.pipeline.registry.find fd = none ↔ fd ∉ tracked server.pipeline.registry) ∧
    (∀ accepts fd before after, Offerable server (accepts ++ [⟨fd,true⟩]) → before = server.drainAccept accepts →
      after = server.drainAccept (accepts ++ [⟨fd,true⟩]) →
      ((tracked before.pipeline.registry).length < maxConnections.toNat →
        after.pipeline.registry.connections = before.pipeline.registry.connections ++ [(fd,FrameBuffer.new)] ∧
        after.pipeline.registry.poller = before.pipeline.registry.poller ++ [.registerReadiness fd] ∧
        after.log = before.log ++ [.offered fd .Registered]) ∧
      (maxConnections.toNat ≤ (tracked before.pipeline.registry).length →
        after.pipeline.registry.connections = before.pipeline.registry.connections ∧
        after.pipeline.registry.poller = before.pipeline.registry.poller ++ [.closeSocket fd] ∧
        after.log = before.log ++ [.offered fd .RejectedAtCapacity])) ∧
    (∀ fd first again, fd ∉ tracked (server.teardown fd first).pipeline.registry ∧
      (server.teardown fd first).teardown fd again = server.teardown fd first) ∧
    ∀ ready, Admissible server ready → ∃ server', server.runOnce (some ready) = some server' ∧
      ∀ fd ∈ tracked server.pipeline.registry, ready.readable fd = true →
        Fatal (unfinishedOf server.pipeline.registry fd) (ready.received fd) →
        fd ∉ tracked server'.pipeline.registry := by
  have consistent := reached_consistent reached
  refine ⟨consistent.apart,?_,?_,consistent.bounded,consistent.lives,consistent.drops,consistent.counted,
    consistent.closes,fun _ => find_none_iff,?_,?_,?_⟩
  · ext fd
    rw [consistent.monitored,List.mem_toFinset]
  · ext fd
    rw [Finmap.mem_keys,consistent.queues,List.mem_toFinset]
  · rintro accepts fd before after offerable rfl rfl
    obtain ⟨earlier,_,shut,_⟩ := offerable_append offerable
    obtain ⟨drained,_⟩ := drainAccept_consistent consistent earlier
    obtain ⟨_,below,full⟩ := acceptOne_spec drained shut
    rw [TcpServer.drainAccept,TcpServer.drainAccept,List.foldl_append]
    exact ⟨below,full⟩
  · intro fd first again
    constructor
    · rw [← find_none_iff]
      change (server.pipeline.registry.teardown fd first).find fd = none
      rw [find_teardown,if_pos rfl]
    · simp only [TcpServer.teardown,ServerPipeline.teardown,teardown_teardown]
  · intro ready admissible
    obtain ⟨server',ran,_,ends⟩ := runOnce_consistent consistent admissible
    exact ⟨server',ran,ends⟩

instance (server : TcpServer capacities) (fd : SocketHandle) : Decidable (Open server fd) :=
  inferInstanceAs (Decidable (_ ∨ _))

instance decidableOfferable (server : TcpServer capacities) : (accepts : List Accepted) → Decidable (Offerable server accepts)
  | [] => .isTrue trivial
  | client :: rest =>
    have := decidableOfferable (server.acceptOne client) rest
    inferInstanceAs (Decidable (_ ∧ _ ∧ _))

/-- One pass as the operating system may answer it. -/
def runAdmissible (server : TcpServer capacities) (ready : Readiness) : Option (TcpServer capacities) := do
  let read ← server.runReads ready
  if Offerable server ready.accepts ∧ ready.readOrder.Nodup ∧
      ready.readOrder.toFinset = (server.drainAccept ready.accepts).poller.monitored ∧ ready.writeOrder.Nodup ∧
      ready.writeOrder.toFinset = read.outbound.keys then
    server.runOnce (some ready)
  else none

theorem runAdmissible_reached (reached : Reached maxConnections server) (passes : List Readiness)
    (ran : passes.foldlM runAdmissible server = some server') : Reached maxConnections server' := by
  induction passes generalizing server with
  | nil =>
    cases ran
    exact reached
  | cons ready rest ih =>
    rw [List.foldlM_cons] at ran
    obtain ⟨next,first,later⟩ := Option.bind_eq_some_iff.mp ran
    obtain ⟨read,reads,first⟩ := Option.bind_eq_some_iff.mp first
    split_ifs at first with allowed
    refine ih (.runOnce (some ready) reached ?_ first) later
    rintro answers ⟨⟩
    obtain ⟨offerable,readOnce,readAll,writeOnce,writeAll⟩ := allowed
    refine ⟨offerable,readOnce,readAll,writeOnce,?_⟩
    intro read' reads'
    rw [reads] at reads'
    cases reads'
    exact writeAll
end

/-- All sockets are ready, `recv` answers the same for each, and a flush of what was
    read has to wait. -/
def pass (accepts : List Accepted) (readOrder : List SocketHandle) (received : Received) (writeOrder : List SocketHandle) :
    Readiness where
  accepts := accepts
  readable := fun _ => true
  readOrder := readOrder
  received := fun _ => received
  flushed := fun _ _ => .wouldBlock
  writable := fun _ => true
  writeOrder := writeOrder
  sent := fun _ calls => if calls = 0 then .took 3 else .wouldBlock

/-- Two sockets are offered to a server with room for one. The peer of the first closes
    and its descriptor is given again; the new connection is read, its answer is written
    in pieces, and the second descriptor is offered once more. -/
def reuse : List Readiness :=
  [pass [⟨5,true⟩,⟨6,true⟩] [5] .wouldBlock [5],pass [] [5] (.bytes []) [],pass [⟨5,true⟩] [5] .failed [5],
    pass [] [5] (.bytes (bytesOf (.cancelOrder ⟨9⟩))) [5],pass [⟨6,true⟩] [5] .wouldBlock [5]]

theorem connections_consistent_reuse :
    ∃ server : TcpServer small, Reached 1 server ∧ offers 5 server.log = [.Registered,.Registered] ∧
      offers 6 server.log = [.RejectedAtCapacity,.RejectedAtCapacity] ∧
      server.poller.monitored = {5} ∧ server.outbound.keys = {5} ∧
      callsFor 5 server.pipeline.registry.poller ++ [.deregisterReadiness 5,.closeSocket 5] =
        life 5 .Registered ++ life 5 .Registered ∧
      callsFor 6 server.pipeline.registry.poller = [.closeSocket 6,.closeSocket 6] := by
  have facts : (reuse.foldlM runAdmissible (TcpServer.new 3 (started 1 [] : ServerPipeline small))).map (fun s =>
      (offers 5 s.log,offers 6 s.log,tracked s.pipeline.registry)) =
      some ([.Registered,.Registered],[.RejectedAtCapacity,.RejectedAtCapacity],[5]) := by decide +kernel
  obtain ⟨server,ran,shown⟩ := Option.map_eq_some_iff.mp facts
  simp only [Prod.mk.injEq] at shown
  obtain ⟨five,six,open'⟩ := shown
  have reached := runAdmissible_reached (.new 3 [] rfl) reuse ran
  obtain ⟨_,monitored,queues,_,lives,_⟩ := connections_consistent reached
  rw [open'] at monitored queues
  have first := lives 5
  have second := lives 6
  rw [five,stillToCome,open'] at first
  rw [six,stillToCome,open'] at second
  exact ⟨server,reached,five,six,monitored,queues,first,by simpa [life] using second⟩

end HyperMatch.Connections
