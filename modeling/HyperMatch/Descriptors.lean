import Mathlib.Order.Interval.Finset.Defs
import Mathlib.Data.Int.ConditionallyCompleteOrder
import Mathlib.Data.Int.Interval
import HyperMatch.Outbound

/-!
The descriptors that the loop of `cpp/network/include/hme/tcp_server.hpp` puts into its
sets. `accept` gives the lowest descriptor that is not open and the registry admits up to
`max_connections` of them; nothing compares a descriptor with `FD_SETSIZE`.
-/
namespace HyperMatch.Descriptors
open HyperMatch.Connections HyperMatch.DataPath HyperMatch.Outbound
open HyperMatch.Routing (started started_idle)
open HyperMatch.Processing (small)

/-! ### The lowest descriptor -/

def FD_SETSIZE : Nat := 1024

/-- What the operating system gives next: the lowest descriptor that is not in use. -/
def Lowest (used : SocketHandle → Prop) (fd : SocketHandle) : Prop :=
  0 ≤ fd ∧ ¬ used fd ∧ ∀ g, 0 ≤ g → g < fd → used g

/-- The descriptors below `size`. -/
def below (size : Nat) (fds : Finset SocketHandle) : Finset SocketHandle :=
  fds.filter (fun fd => 0 ≤ fd ∧ fd < size)

theorem below_subset (size : Nat) (fds : Finset SocketHandle) : below size fds ⊆ Finset.Ico 0 (size : Int) := by
  intro fd inside
  rw [below,Finset.mem_filter] at inside
  exact Finset.mem_Ico.mpr inside.2

/-- The lowest free descriptor is below `size` exactly as long as not all of these are in use. -/
theorem Lowest.lt_iff {used : SocketHandle → Prop} {fd : SocketHandle} (lowest : Lowest used fd)
    {fds : Finset SocketHandle} (same : ∀ g, used g ↔ g ∈ fds) (size : Nat) :
    fd < size ↔ (below size fds).card < size := by
  have all : (Finset.Ico 0 (size : Int)).card = size := by simp
  obtain ⟨positive,free,lower⟩ := lowest
  constructor
  · intro less
    have inside : fd ∈ Finset.Ico 0 (size : Int) := Finset.mem_Ico.mpr ⟨positive,less⟩
    have missing : fd ∉ below size fds := fun m => free ((same fd).mpr (Finset.mem_filter.mp m).1)
    have strict : below size fds ⊂ Finset.Ico 0 (size : Int) :=
      Finset.ssubset_iff_of_subset (below_subset size fds) |>.mpr ⟨fd,inside,missing⟩
    simpa [all] using Finset.card_lt_card strict
  · intro few
    obtain ⟨g,inside,missing⟩ := Finset.exists_mem_notMem_of_card_lt_card (few.trans_eq all.symm)
    obtain ⟨zero,less⟩ := Finset.mem_Ico.mp inside
    have unused : ¬ used g := fun u => missing (Finset.mem_filter.mpr ⟨(same g).mp u,zero,less⟩)
    have reached : ¬ g < fd := fun early => unused (lower g zero early)
    exact Int.lt_of_le_of_lt (Int.not_lt.mp reached) less

/-! ### What a pass uses -/

section
variable {capacities : Capacities} {maxConnections : UInt32} {server server' : TcpServer capacities} {fd : SocketHandle}

/-- The descriptors that a pass of the loop gives to `FD_SET` and `FD_ISSET`: the
    listening socket, every monitored connection and every connection with queued
    output, before `select`, after the accepts and after the reads. -/
def Uses (server : TcpServer capacities) (ready : Option Readiness) (fd : SocketHandle) : Prop :=
  fd = server.listenFd ∨ fd ∈ server.poller.monitored ∨ server.queued fd = true ∨
    ∃ answers, ready = some answers ∧
      (fd ∈ (server.drainAccept answers.accepts).poller.monitored ∨
        ∃ read, server.runReads answers = some read ∧ read.queued fd = true)

/-- Everything that the pass uses fits the sets. -/
def Fits (server : TcpServer capacities) (ready : Option Readiness) : Prop :=
  ∀ fd, Uses server ready fd → fd < FD_SETSIZE

/-- `accept` gives the lowest descriptor that neither the server nor the rest of the
    process has open. -/
def Offered (held : Finset SocketHandle) (server : TcpServer capacities) : List Accepted → Prop
  | [] => True
  | client :: rest =>
    Lowest (fun g => g ∈ held ∨ Open server g) client.fd ∧ Offered held (server.acceptOne client) rest

/-- The answers of the operating system in a pass. -/
structure Answers (held : Finset SocketHandle) (server : TcpServer capacities) (ready : Readiness) : Prop where
  offered : Offered held server ready.accepts
  readOnce : ready.readOrder.Nodup
  readAll : ready.readOrder.toFinset = (server.drainAccept ready.accepts).poller.monitored
  writeOnce : ready.writeOrder.Nodup
  writeAll : ∀ read, server.runReads ready = some read → ready.writeOrder.toFinset = read.outbound.keys

def Answered (held : Finset SocketHandle) (server : TcpServer capacities) (ready : Option Readiness) : Prop :=
  ∀ answers, ready = some answers → Answers held server answers

/-- The registry takes the connection. -/
def Registers (server : TcpServer capacities) (client : Accepted) : Prop :=
  client.nonblocking = true ∧
    (tracked server.pipeline.registry).length < server.pipeline.registry.maxConnections.toNat

/-- Before each connection that the registry takes, the connections, the listening socket
    and what else the process has open below `FD_SETSIZE` are fewer than `FD_SETSIZE`. -/
def Spare (held : Finset SocketHandle) (server : TcpServer capacities) : List Accepted → Prop
  | [] => True
  | client :: rest =>
    (Registers server client →
      (below FD_SETSIZE held).card + 1 + (tracked server.pipeline.registry).length < FD_SETSIZE) ∧
    Spare held (server.acceptOne client) rest

def Room (held : Finset SocketHandle) (server : TcpServer capacities) (ready : Option Readiness) : Prop :=
  (below FD_SETSIZE held).card < FD_SETSIZE ∧ ∀ answers, ready = some answers → Spare held server answers.accepts

/-- A property of every pass of a run. -/
def Throughout (holds : TcpServer capacities → Option Readiness → Prop) : TcpServer capacities → List (Option Readiness) → Prop
  | _,[] => True
  | server,ready :: later =>
    holds server ready ∧ ∀ server', server.runOnce ready = some server' → Throughout holds server' later

/-! ### Accepting -/

/-- Where the descriptors of a server are, as long as all fit. -/
structure Placed (held : Finset SocketHandle) (server : TcpServer capacities) : Prop where
  listening : 0 ≤ server.listenFd ∧ server.listenFd < FD_SETSIZE ∧ server.listenFd ∉ held
  connections : ∀ fd ∈ tracked server.pipeline.registry,
    0 ≤ fd ∧ fd < FD_SETSIZE ∧ fd ∉ held ∧ fd ≠ server.listenFd

theorem acceptOne_listenFd (server : TcpServer capacities) (client : Accepted) :
    (server.acceptOne client).listenFd = server.listenFd := by
  rw [TcpServer.acceptOne]
  split
  · split
    · rfl
    · rfl
  · rfl

theorem drainAccept_listenFd (server : TcpServer capacities) (accepts : List Accepted) :
    (server.drainAccept accepts).listenFd = server.listenFd := by
  induction accepts generalizing server with
  | nil => rfl
  | cons client rest ih =>
    rw [← acceptOne_listenFd server client]
    exact ih (server.acceptOne client)

/-- A registered connection joins the tracked ones, any other offer leaves them as they are. -/
theorem acceptOne_tracked (consistent : Consistent maxConnections server) {client : Accepted}
    (shut : ¬ Open server client.fd) :
    (Registers server client ∧
        tracked (server.acceptOne client).pipeline.registry = tracked server.pipeline.registry ++ [client.fd]) ∨
      (¬ Registers server client ∧
        tracked (server.acceptOne client).pipeline.registry = tracked server.pipeline.registry) := by
  obtain ⟨fd,nonblocking⟩ := client
  cases nonblocking with
  | false => exact .inr ⟨fun registers => Bool.false_ne_true registers.1,rfl⟩
  | true =>
    obtain ⟨_,registered,rejected⟩ := acceptOne_spec consistent shut
    by_cases room : (tracked server.pipeline.registry).length < maxConnections.toNat
    · refine .inl ⟨⟨rfl,consistent.cap ▸ room⟩,?_⟩
      rw [tracked,(registered room).1,List.map_append]
      rfl
    · refine .inr ⟨fun registers => room (consistent.cap ▸ registers.2),?_⟩
      rw [tracked,(rejected (Nat.not_lt.mp room)).1]
      rfl

theorem Offered.shut {held : Finset SocketHandle} {client : Accepted} {rest : List Accepted}
    (offered : Offered held server (client :: rest)) : ¬ Open server client.fd :=
  fun isOpen => offered.1.2.1 (.inr isOpen)

theorem drainAccept_keeps {held : Finset SocketHandle} {accepts : List Accepted} (consistent : Consistent maxConnections server)
    (offered : Offered held server accepts) :
    Consistent maxConnections (server.drainAccept accepts) ∧
      ∀ fd ∈ tracked server.pipeline.registry, fd ∈ tracked (server.drainAccept accepts).pipeline.registry := by
  induction accepts generalizing server with
  | nil => exact ⟨consistent,fun _ here => here⟩
  | cons client rest ih =>
    obtain ⟨after,later⟩ := ih (acceptOne_consistent consistent offered.shut) offered.2
    refine ⟨after,?_⟩
    intro fd here
    apply later
    obtain ⟨_,joined⟩ | ⟨_,same⟩ := acceptOne_tracked consistent offered.shut
    · simp [joined,here]
    · rwa [same]

/-- What a server with everything in place has open below `FD_SETSIZE`. -/
theorem Placed.card_below {held : Finset SocketHandle} (placed : Placed held server) (consistent : Consistent maxConnections server) :
    (below FD_SETSIZE (held ∪ insert server.listenFd (tracked server.pipeline.registry).toFinset)).card =
      (below FD_SETSIZE held).card + 1 + (tracked server.pipeline.registry).length := by
  have own : below FD_SETSIZE (insert server.listenFd (tracked server.pipeline.registry).toFinset) =
      insert server.listenFd (tracked server.pipeline.registry).toFinset := by
    rw [below,Finset.filter_eq_self]
    intro fd inside
    rcases Finset.mem_insert.mp inside with rfl | here
    · exact ⟨placed.listening.1,placed.listening.2.1⟩
    · obtain ⟨positive,less,_⟩ := placed.connections fd (List.mem_toFinset.mp here)
      exact ⟨positive,less⟩
  have apart : Disjoint (below FD_SETSIZE held) (insert server.listenFd (tracked server.pipeline.registry).toFinset) := by
    rw [Finset.disjoint_right]
    intro fd inside other
    have owned := (Finset.mem_filter.mp other).1
    rcases Finset.mem_insert.mp inside with rfl | here
    · exact placed.listening.2.2 owned
    · exact (placed.connections fd (List.mem_toFinset.mp here)).2.2.1 owned
  have alone : server.listenFd ∉ (tracked server.pipeline.registry).toFinset :=
    fun here => (placed.connections _ (List.mem_toFinset.mp here)).2.2.2 rfl
  rw [below,Finset.filter_union,← below,← below,own,Finset.card_union_of_disjoint apart,Finset.card_insert_of_notMem alone,
    List.toFinset_card_of_nodup consistent.apart]
  omega

/-- The next descriptor fits exactly if there is room for it. -/
theorem Placed.next_fits {held : Finset SocketHandle} (placed : Placed held server) (consistent : Consistent maxConnections server)
    (lowest : Lowest (fun g => g ∈ held ∨ Open server g) fd) :
    fd < FD_SETSIZE ↔ (below FD_SETSIZE held).card + 1 + (tracked server.pipeline.registry).length < FD_SETSIZE := by
  rw [← placed.card_below consistent]
  refine lowest.lt_iff ?_ FD_SETSIZE
  intro g
  simp only [consistent.open_iff,Finset.mem_union,Finset.mem_insert,List.mem_toFinset]

theorem Placed.drainAccept {held : Finset SocketHandle} {accepts : List Accepted} (placed : Placed held server)
    (consistent : Consistent maxConnections server) (offered : Offered held server accepts) :
    ((∀ fd ∈ tracked (server.drainAccept accepts).pipeline.registry, fd < FD_SETSIZE) ↔ Spare held server accepts) ∧
      (Spare held server accepts → Placed held (server.drainAccept accepts)) := by
  induction accepts generalizing server with
  | nil => exact ⟨⟨fun _ => trivial,fun _ fd here => (placed.connections fd here).2.1⟩,fun _ => placed⟩
  | cons client rest ih =>
    have after := acceptOne_consistent consistent offered.shut
    have lowest := offered.1
    obtain ⟨registers,joined⟩ | ⟨refused,same⟩ := acceptOne_tracked consistent offered.shut
    · by_cases fits : client.fd < FD_SETSIZE
      · have next : Placed held (server.acceptOne client) := by
          refine ⟨by rw [acceptOne_listenFd]; exact placed.listening,?_⟩
          intro fd here
          rw [acceptOne_listenFd]
          rw [joined,List.mem_append,List.mem_singleton] at here
          rcases here with here | rfl
          · exact placed.connections fd here
          · exact ⟨lowest.1,fits,fun other => lowest.2.1 (.inl other),fun listening => lowest.2.1 (.inr (.inl listening))⟩
        obtain ⟨iff,placed'⟩ := ih next after offered.2
        have spare := (placed.next_fits consistent lowest).mp fits
        exact ⟨iff.trans ⟨fun later => ⟨fun _ => spare,later⟩,fun both => both.2⟩,fun both => placed' both.2⟩
      · -- The connection does not fit and stays until the accepts are over.
        have crowded : ¬ Spare held server (client :: rest) :=
          fun both => fits ((placed.next_fits consistent lowest).mpr (both.1 registers))
        refine ⟨⟨?_,fun both => absurd both crowded⟩,fun both => absurd both crowded⟩
        intro all
        have here : client.fd ∈ tracked (server.acceptOne client).pipeline.registry := by simp [joined]
        exact absurd (all client.fd ((drainAccept_keeps after offered.2).2 client.fd here)) fits
    · have next : Placed held (server.acceptOne client) := by
        refine ⟨by rw [acceptOne_listenFd]; exact placed.listening,?_⟩
        rw [acceptOne_listenFd,same]
        exact placed.connections
      obtain ⟨iff,placed'⟩ := ih next after offered.2
      exact ⟨iff.trans ⟨fun later => ⟨fun registers => absurd registers refused,later⟩,fun both => both.2⟩,
        fun both => placed' both.2⟩

/-! ### The listening socket stays -/

theorem handleWritable_listenFd {sent : Nat → Sent} (ran : server.handleWritable fd sent = some server') :
    server'.listenFd = server.listenFd := by
  obtain ⟨still,_⟩ | ⟨queue,total,_,_,kept | ended⟩ := handleWritable_cases server fd sent
  · rw [still,Option.some.injEq] at ran
    rw [ran]
  · rw [kept,Option.some.injEq] at ran
    rw [← ran]
  · rw [ended,Option.some.injEq] at ran
    rw [← ran]
    rfl

theorem queueFrames_listenFd (server : TcpServer capacities) (outs : List (SocketHandle × List UInt8)) :
    (outs.foldl TcpServer.queueFrame server).listenFd = server.listenFd := by
  induction outs generalizing server with
  | nil => rfl
  | cons out rest ih => exact ih (server.queueFrame out)

theorem handleReadable_listenFd {received : Received} {flushed : Nat → Sent}
    (ran : server.handleReadable fd received flushed = some server') : server'.listenFd = server.listenFd := by
  cases received with
  | wouldBlock =>
    cases ran
    rfl
  | failed =>
    cases ran
    rfl
  | bytes data =>
    rw [TcpServer.handleReadable] at ran
    split at ran
    · cases ran
      rfl
    · obtain ⟨⟨status,outs,pipeline⟩,_,later⟩ := Option.bind_eq_some_iff.mp ran
      have queued := queueFrames_listenFd { server with pipeline := pipeline } outs
      dsimp only at later
      split_ifs at later
      · cases later
        exact queued
      · exact (handleWritable_listenFd later).trans queued
      · cases later
        exact queued

theorem foldlM_listenFd {fds : List SocketHandle} {handle : TcpServer capacities → SocketHandle → Option (TcpServer capacities)}
    (each : ∀ s fd s', handle s fd = some s' → s'.listenFd = s.listenFd) (ran : fds.foldlM handle server = some server') :
    server'.listenFd = server.listenFd := by
  induction fds generalizing server with
  | nil =>
    cases ran
    rfl
  | cons fd rest ih =>
    rw [List.foldlM_cons] at ran
    obtain ⟨between,first,later⟩ := Option.bind_eq_some_iff.mp ran
    exact (ih later).trans (each server fd between first)

/-! ### One pass -/

/-- Reads and writes end connections and begin none. -/
theorem pass_shrinks {held : Finset SocketHandle} {answers : Readiness} (consistent : Consistent maxConnections server)
    (answered : Answers held server answers) :
    ∃ read, server.runReads answers = some read ∧ Consistent maxConnections read ∧
      (∀ fd ∈ tracked read.pipeline.registry, fd ∈ tracked (server.drainAccept answers.accepts).pipeline.registry) ∧
      ∃ server', server.runOnce (some answers) = some server' ∧ Consistent maxConnections server' ∧
        server'.listenFd = server.listenFd ∧
        ∀ fd ∈ tracked server'.pipeline.registry, fd ∈ tracked (server.drainAccept answers.accepts).pipeline.registry := by
  have drained := (drainAccept_keeps consistent answered.offered).1
  have known : ∀ fd ∈ answers.readOrder.filter (server.readSet answers),
      fd ∈ tracked (server.drainAccept answers.accepts).pipeline.registry := by
    intro fd inside
    rw [← drained.monitored,← answered.readAll,List.mem_toFinset]
    exact (List.mem_filter.mp inside).1
  obtain ⟨read,reads,consistent',shrunk,_⟩ :=
    reads_consistent drained (answered.readOnce.filter _) known answers.received answers.flushed
  obtain ⟨server',writes,after,fewer⟩ := writes_consistent consistent'
    (answers.writeOrder.filter (fun fd => read.queued fd && server.writeSet answers fd)) answers.sent
  have listening : server'.listenFd = server.listenFd :=
    calc server'.listenFd
        _ = read.listenFd := foldlM_listenFd (fun s fd s' ran => handleWritable_listenFd ran) writes
        _ = (server.drainAccept answers.accepts).listenFd :=
          foldlM_listenFd (fun s fd s' ran => handleReadable_listenFd ran) reads
        _ = server.listenFd := drainAccept_listenFd server answers.accepts
  refine ⟨read,reads,consistent',shrunk,server',?_,after,listening,fun fd here => shrunk fd (fewer fd here)⟩
  rw [TcpServer.runOnce,TcpServer.runReads,reads]
  exact writes

theorem queued_tracked (consistent : Consistent maxConnections server) (queued : server.queued fd = true) :
    fd ∈ tracked server.pipeline.registry := by
  rw [← consistent.queues,← Finmap.lookup_isSome]
  rw [TcpServer.queued] at queued
  cases found : server.outbound.lookup fd with
  | none => simp [found] at queued
  | some queue => rfl

theorem Placed.uses_fit {held : Finset SocketHandle} (placed : Placed held server) (consistent : Consistent maxConnections server)
    {ready : Option Readiness} (answered : Answered held server ready) :
    Fits server ready ↔ ∀ answers, ready = some answers → Spare held server answers.accepts := by
  constructor
  · rintro fits answers rfl
    have offered := (answered answers rfl).offered
    rw [← (placed.drainAccept consistent offered).1]
    intro fd here
    have monitored := ((drainAccept_keeps consistent offered).1.monitored fd).mpr here
    exact fits fd (.inr (.inr (.inr ⟨answers,rfl,.inl monitored⟩)))
  · intro spare fd uses
    have now : ∀ fd ∈ tracked server.pipeline.registry, fd < FD_SETSIZE := fun fd here => (placed.connections fd here).2.1
    rcases uses with rfl | monitored | queued | ⟨answers,rfl,later⟩
    · exact placed.listening.2.1
    · exact now fd ((consistent.monitored fd).mp monitored)
    · exact now fd (queued_tracked consistent queued)
    · have offered := (answered answers rfl).offered
      have all := (placed.drainAccept consistent offered).1.mpr (spare answers rfl)
      obtain ⟨read,reads,consistent',shrunk,_⟩ := pass_shrinks consistent (answered answers rfl)
      rcases later with monitored | ⟨read',reads',queued⟩
      · exact all fd (((drainAccept_keeps consistent offered).1.monitored fd).mp monitored)
      · rw [reads,Option.some.injEq] at reads'
        subst reads'
        exact all fd (shrunk fd (queued_tracked consistent' queued))

theorem Placed.runOnce {held : Finset SocketHandle} (placed : Placed held server) (consistent : Consistent maxConnections server)
    {ready : Option Readiness} (answered : Answered held server ready)
    (spare : ∀ answers, ready = some answers → Spare held server answers.accepts) (ran : server.runOnce ready = some server') :
    Placed held server' ∧ Consistent maxConnections server' := by
  cases ready with
  | none =>
    obtain rfl := Option.some.inj ran
    exact ⟨placed,consistent⟩
  | some answers =>
    obtain ⟨_,_,_,_,after,ran',consistent',listening,shrunk⟩ := pass_shrinks consistent (answered answers rfl)
    rw [ran,Option.some.injEq] at ran'
    subst ran'
    have drained := (placed.drainAccept consistent (answered answers rfl).offered).2 (spare answers rfl)
    refine ⟨⟨listening ▸ placed.listening,?_⟩,consistent'⟩
    intro fd here
    have known := drained.connections fd (shrunk fd here)
    rwa [drainAccept_listenFd,← listening] at known

/-! ### Runs -/

theorem Placed.throughout {held : Finset SocketHandle} {passes : List (Option Readiness)} (placed : Placed held server)
    (consistent : Consistent maxConnections server) (few : (below FD_SETSIZE held).card < FD_SETSIZE)
    (answered : Throughout (Answered held) server passes) :
    Throughout Fits server passes ↔ Throughout (Room held) server passes := by
  induction passes generalizing server with
  | nil => exact Iff.rfl
  | cons ready later ih =>
    obtain ⟨now,next⟩ := answered
    have uses := placed.uses_fit consistent now
    constructor
    · rintro ⟨fits,after⟩
      have spare := uses.mp fits
      refine ⟨⟨few,spare⟩,?_⟩
      intro server' ran
      obtain ⟨placed',consistent'⟩ := placed.runOnce consistent now spare ran
      exact (ih placed' consistent' (next server' ran)).mp (after server' ran)
    · rintro ⟨⟨_,spare⟩,after⟩
      refine ⟨uses.mpr spare,?_⟩
      intro server' ran
      obtain ⟨placed',consistent'⟩ := placed.runOnce consistent now spare ran
      exact (ih placed' consistent' (next server' ran)).mpr (after server' ran)

/-- In every run, everything that the loop gives to `FD_SET` and `FD_ISSET` fits exactly
    if the listening socket finds a descriptor below `FD_SETSIZE` and, before every
    registered connection, the descriptors open below `FD_SETSIZE` are not all of them. -/
theorem descriptors_fit_iff (held : Finset SocketHandle) {listenFd : SocketHandle} (listening : Lowest (· ∈ held) listenFd)
    (configs : List (EngineConfig capacities))
    (operational : (started maxConnections configs : ServerPipeline capacities).processor.operational = true)
    {passes : List (Option Readiness)}
    (answered : Throughout (Answered held) (TcpServer.new listenFd (started maxConnections configs)) passes) :
    Throughout Fits (TcpServer.new listenFd (started maxConnections configs)) passes ↔
      Throughout (Room held) (TcpServer.new listenFd (started maxConnections configs)) passes := by
  have consistent := reached_consistent (.new listenFd configs operational)
  have lowest := listening.lt_iff (fun _ => Iff.rfl) FD_SETSIZE
  obtain ⟨_,registry,_⟩ := @started_idle capacities maxConnections configs
  by_cases fits : listenFd < FD_SETSIZE
  · have placed : Placed held (TcpServer.new listenFd (started maxConnections configs) : TcpServer capacities) := by
      refine ⟨⟨listening.1,fits,listening.2.1⟩,?_⟩
      intro fd here
      simp only [TcpServer.new,registry] at here
      cases here
    exact placed.throughout consistent (lowest.mp fits) answered
  · -- Already the first pass puts the listening socket into its set.
    cases passes with
    | nil => exact Iff.rfl
    | cons ready later =>
      constructor
      · rintro ⟨first,_⟩
        exact absurd (first listenFd (.inl rfl)) fits
      · rintro ⟨⟨few,_⟩,_⟩
        exact absurd (lowest.mpr few) fits

/-! ### A crowd -/

/-- Clients that connect one after the other, from descriptor 4 on. -/
def clients (first count : Nat) : List Accepted := (List.range' first count).map (fun (i : Nat) => ⟨4 + (i : Int),true⟩)

def numbered (count : Nat) : List SocketHandle := (List.range count).map (fun (i : Nat) => 4 + (i : Int))

theorem mem_numbered {count : Nat} {fd : Int} : fd ∈ numbered count ↔ 4 ≤ fd ∧ fd < 4 + count := by
  rw [numbered,List.mem_map]
  constructor
  · rintro ⟨i,inside,rfl⟩
    have less := List.mem_range.mp inside
    omega
  · rintro ⟨low,high⟩
    refine ⟨(fd - 4).toNat,?_,?_⟩
    · rw [List.mem_range]
      omega
    · omega

/-- With the standard streams and the listening socket open, each client gets the next number. -/
theorem crowd_lowest {count : Nat} (consistent : Consistent maxConnections server) (listening : server.listenFd = 3)
    (here : tracked server.pipeline.registry = numbered count) :
    Lowest (fun g => g ∈ ({0,1,2} : Finset SocketHandle) ∨ Open server g) (4 + count) := by
  have used : ∀ g : Int, (g ∈ ({0,1,2} : Finset SocketHandle) ∨ Open server g) ↔ 0 ≤ g ∧ g < 4 + (count : Int) := by
    intro g
    have three : g ∈ ({0,1,2} : Finset SocketHandle) ↔ g = 0 ∨ g = 1 ∨ g = 2 := by simp
    have listed : Open server g ↔ g = 3 ∨ (4 ≤ g ∧ g < 4 + (count : Int)) := by
      rw [consistent.open_iff,listening,here,mem_numbered]
    rw [three,listed]
    omega
  refine ⟨?_,?_,?_⟩
  · exact Int.add_nonneg (by decide) (Int.natCast_nonneg count)
  · intro taken
    exact Int.lt_irrefl _ ((used (4 + count)).mp taken).2
  · intro g low high
    exact (used g).mpr ⟨low,high⟩

theorem crowd_accepted {first count : Nat} (consistent : Consistent maxConnections server) (listening : server.listenFd = 3)
    (here : tracked server.pipeline.registry = numbered first) (room : first + count ≤ maxConnections.toNat) :
    Offered {0,1,2} server (clients first count) ∧
      tracked (server.drainAccept (clients first count)).pipeline.registry = numbered (first + count) ∧
      (first + count ≤ 1020 → Spare {0,1,2} server (clients first count)) := by
  induction count generalizing first server with
  | zero => exact ⟨trivial,here,fun _ => trivial⟩
  | succ count ih =>
    have lowest := crowd_lowest consistent listening here
    have shut : ¬ Open server (4 + (first : Int)) := fun isOpen => lowest.2.1 (.inr isOpen)
    have length : (tracked server.pipeline.registry).length = first := by simp [here,numbered]
    have after := @acceptOne_consistent capacities maxConnections server consistent ⟨4 + (first : Int),true⟩ shut
    have joined : tracked (server.acceptOne ⟨4 + (first : Int),true⟩).pipeline.registry = numbered (first + 1) := by
      obtain ⟨_,joined⟩ | ⟨refused,_⟩ := @acceptOne_tracked capacities maxConnections server consistent ⟨4 + (first : Int),true⟩ shut
      · rw [joined,here,numbered,numbered,List.range_succ,List.map_append]
        rfl
      · refine absurd ⟨rfl,?_⟩ refused
        rw [length,consistent.cap]
        omega
    have split : clients first (count + 1) = ⟨4 + (first : Int),true⟩ :: clients (first + 1) count := by
      rw [clients,List.range'_succ]
      rfl
    obtain ⟨offered,all,spare⟩ := ih after ((acceptOne_listenFd server _).trans listening) joined (by omega)
    rw [split]
    refine ⟨⟨lowest,offered⟩,?_,?_⟩
    · rw [show first + (count + 1) = first + 1 + count by omega]
      exact all
    · intro few
      refine ⟨?_,spare (by omega)⟩
      intro _
      rw [length]
      have three : (below FD_SETSIZE {0,1,2}).card = 3 := by decide
      rw [three,FD_SETSIZE]
      omega

/-- A pass in which clients connect, and nothing else happens. -/
def crowd (count : Nat) : Readiness where
  accepts := clients 0 count
  readable := fun _ => false
  readOrder := numbered count
  received := fun _ => .wouldBlock
  flushed := fun _ _ => .wouldBlock
  writable := fun _ => false
  writeOrder := numbered count
  sent := fun _ _ => .wouldBlock

/-- The server as it is started: descriptors 0, 1 and 2 are the standard streams. -/
def opened : TcpServer small := TcpServer.new 3 (started kMaxConnections [])

theorem opened_consistent : Consistent kMaxConnections opened := reached_consistent (.new 3 [] rfl)

theorem crowd_answers {count : Nat} (room : count ≤ kMaxConnections.toNat) :
    Answers {0,1,2} opened (crowd count) ∧
      tracked (opened.drainAccept (crowd count).accepts).pipeline.registry = numbered count ∧
      (count ≤ 1020 → Spare {0,1,2} opened (crowd count).accepts) := by
  obtain ⟨offered,all,spare⟩ := @crowd_accepted small _ opened 0 count opened_consistent rfl rfl (by rwa [Nat.zero_add])
  rw [Nat.zero_add] at all spare
  change tracked (opened.drainAccept (crowd count).accepts).pipeline.registry = numbered count at all
  have drained : Consistent kMaxConnections (opened.drainAccept (crowd count).accepts) :=
    (drainAccept_keeps opened_consistent offered).1
  have once : (numbered count).Nodup := by
    rw [numbered,List.nodup_map_iff (fun a b same => by simpa using same)]
    exact List.nodup_range
  have monitored : (numbered count).toFinset = (opened.drainAccept (crowd count).accepts).poller.monitored := by
    ext fd
    rw [drained.monitored,all,List.mem_toFinset]
  -- Nobody was monitored when the sets were built, so nothing is read.
  have unread : opened.runReads (crowd count) = some (opened.drainAccept (crowd count).accepts) := by
    have idle : (crowd count).readOrder.filter (opened.readSet (crowd count)) = [] := by
      simp [List.filter_eq_nil_iff,TcpServer.readSet,crowd]
    rw [TcpServer.runReads,idle]
    rfl
  refine ⟨⟨offered,once,monitored,once,?_⟩,all,spare⟩
  intro read reads
  rw [unread,Option.some.injEq] at reads
  subst reads
  ext fd
  rw [Finmap.mem_keys,drained.queues,all]
  exact List.mem_toFinset

theorem listening_lowest : Lowest (· ∈ ({0,1,2} : Finset SocketHandle)) 3 := by
  refine ⟨by decide,by decide,?_⟩
  intro g low high
  have numbers : ∀ n : Int, 0 ≤ n → n < 3 → n = 0 ∨ n = 1 ∨ n = 2 := by omega
  simpa using numbers g low high

theorem crowd_answered {count : Nat} (room : count ≤ kMaxConnections.toNat) :
    Throughout (Answered {0,1,2}) opened [some (crowd count)] := by
  refine ⟨?_,fun _ _ => trivial⟩
  rintro answers same
  cases same
  exact (crowd_answers room).1

/-- With 1020 clients the sets are full to the last place. -/
theorem descriptors_fit_crowd :
    Throughout (Answered {0,1,2}) opened [some (crowd 1020)] ∧ Throughout Fits opened [some (crowd 1020)] := by
  have answered := @crowd_answered 1020 (by decide)
  refine ⟨answered,(descriptors_fit_iff {0,1,2} listening_lowest [] rfl answered).mpr ⟨⟨by decide,?_⟩,fun _ _ => trivial⟩⟩
  intro answers same
  cases same
  exact (@crowd_answers 1020 (by decide)).2.2 (Nat.le_refl _)

/-- The next client is registered too, and its descriptor is outside of the sets. -/
theorem descriptors_overflow :
    Lowest (· ∈ ({0,1,2} : Finset SocketHandle)) opened.listenFd ∧
      Throughout (Answered {0,1,2}) opened [some (crowd 1021)] ∧ Uses opened (some (crowd 1021)) FD_SETSIZE ∧
      ¬ Throughout Fits opened [some (crowd 1021)] := by
  have answered := @crowd_answered 1021 (by decide)
  obtain ⟨answers,all,_⟩ := @crowd_answers 1021 (by decide)
  have uses : Uses opened (some (crowd 1021)) FD_SETSIZE := by
    refine .inr (.inr (.inr ⟨crowd 1021,rfl,.inl ?_⟩))
    rw [(drainAccept_keeps opened_consistent answers.offered).1.monitored,all,mem_numbered]
    decide
  refine ⟨listening_lowest,answered,uses,?_⟩
  rintro ⟨fits,_⟩
  exact absurd (fits _ uses) (by decide)

end

end HyperMatch.Descriptors
