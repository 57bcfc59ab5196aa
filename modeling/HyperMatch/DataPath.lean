import HyperMatch.Codecs
import HyperMatch.Processing
import HyperMatch.ServerPipeline

/-!
One socket read through the whole pipeline. The bytes are read one by one into the
frame of their connection; the command ring takes the messages that fit, the engine
answers them, and the event ring gives back the answers that fit, encoded. Between
two calls both rings are empty.
-/
namespace HyperMatch.DataPath
open HyperMatch.Wire HyperMatch.OrderBook HyperMatch.MatchingEngine HyperMatch.Processing HyperMatch.FrameBuffer
open HyperMatch.RingBuffer (offerAll taken refusals)
open HyperMatch.WireFormat (bytesOf typeLength)
set_option linter.unusedSimpArgs false

/-! ### Batches -/

section
variable {maxOrders maxPriceLevels : PoolCapacity}

/-- The answers to a sequence of messages and the engine after them. -/
def answerAll (engine : MatchingEngine maxOrders maxPriceLevels) :
    List BinaryMessage → Option (List (List BinaryMessage) × MatchingEngine maxOrders maxPriceLevels)
  | [] => some ([],engine)
  | msg :: rest => do
    let (events,engine) ← answer engine msg
    let (answers,engine) ← answerAll engine rest
    return (events :: answers,engine)

theorem answerAll_append (engine : MatchingEngine maxOrders maxPriceLevels) (first second : List BinaryMessage) :
    answerAll engine (first ++ second) = (do
      let (answers,engine) ← answerAll engine first
      let (later,engine) ← answerAll engine second
      return (answers ++ later,engine)) := by
  induction first generalizing engine with
  | nil =>
    simp only [List.nil_append,answerAll,Option.bind_eq_bind,Option.bind_some]
    cases answerAll engine second with
    | none => rfl
    | some r => rfl
  | cons msg rest ih =>
    rw [List.cons_append,answerAll,answerAll]
    cases answer engine msg with
    | none => rfl
    | some r =>
      simp only [Option.bind_eq_bind,Option.bind_some,ih]
      cases answerAll r.2 rest with
      | none => rfl
      | some first =>
        simp only [Option.bind_eq_bind,Option.bind_some,Option.pure_def]
        cases answerAll first.2 second with
        | none => rfl
        | some second => rfl

theorem answerAll_orderly {engine : MatchingEngine maxOrders maxPriceLevels} (orderly : Orderly engine)
    (msgs : List BinaryMessage) :
    ∃ answers engine', answerAll engine msgs = some (answers,engine') ∧ Orderly engine' ∧
      answers.length = msgs.length ∧ ∀ e ∈ answers.flatten, InRange e := by
  induction msgs generalizing engine with
  | nil => exact ⟨[],engine,rfl,orderly,rfl,by simp⟩
  | cons msg rest ih =>
    obtain ⟨events,engine₁,answered,orderly₁,ranged⟩ := answer_orderly orderly msg
    obtain ⟨answers,engine',later,orderly',length,ranged'⟩ := ih orderly₁
    refine ⟨events :: answers,engine',by simp [answerAll,answered,later],orderly',by simp [length],?_⟩
    intro e inside
    rw [List.flatten_cons,List.mem_append] at inside
    exact inside.elim (ranged e) (ranged' e)
end

section
variable {capacities : Capacities}

/-- `process_all` answers everything in the command ring. -/
theorem processAllFrom_spec {p : EngineProcessor capacities} {ins outs : List BinaryMessage} (running : Running p ins outs)
    (ready : p.operational = true) {bound : Nat} (enough : ins.length < bound) :
    ∃ answers engine' p', answerAll p.engine ins = some (answers,engine') ∧
      EngineProcessor.processAllFrom bound p = some (ins.length,p') ∧
      Running p' [] ((outs ++ answers.flatten).take capacities.egress.size) ∧ p'.engine = engine' ∧
      p'.operational = true ∧ p'.processedCount = p.processedCount + UInt64.ofNat ins.length ∧
      p'.egressOverflowCount =
        p.egressOverflowCount + UInt64.ofNat (outs.length + answers.flatten.length - capacities.egress.size) := by
  induction ins generalizing p outs bound with
  | nil =>
    obtain ⟨bound,rfl⟩ := Nat.exists_eq_succ_of_ne_zero (by omega : bound ≠ 0)
    have fits := running.egress.length_le
    refine ⟨[],p.engine,p,rfl,?_,?_,rfl,ready,by simp,?_⟩
    · rw [EngineProcessor.processAllFrom,running.processNext_idle (.inr rfl)]
      rfl
    · rw [List.flatten_nil,List.append_nil,List.take_of_length_le fits]
      exact running
    · rw [List.flatten_nil,List.length_nil,show outs.length + 0 - capacities.egress.size = 0 by omega]
      exact (UInt64.add_zero _).symm
  | cons msg rest ih =>
    obtain ⟨bound,rfl⟩ := Nat.exists_eq_succ_of_ne_zero (by omega : bound ≠ 0)
    have fits := running.egress.length_le
    obtain ⟨events,_,p₁,answered,processed,running₁,rfl,ready₁,_,count₁,lost₁⟩ := running.processNext ready
    obtain ⟨answers,engine',p',later,ran,running',same,ready',count',lost'⟩ :=
      ih running₁ ready₁ (show rest.length < bound by simpa using enough)
    refine ⟨events :: answers,engine',p',by simp [answerAll,answered,later],?_,?_,same,ready',?_,?_⟩
    · rw [EngineProcessor.processAllFrom,processed]
      simp [ran]
    · rw [take_take_append,List.append_assoc] at running'
      exact running'
    · rw [count',count₁,List.length_cons,UInt64.add_assoc,← UInt64.ofNat_one,← UInt64.ofNat_add,Nat.add_comm 1]
    · have lost : outs.length + events.length - capacities.egress.size +
          (((outs ++ events).take capacities.egress.size).length + answers.flatten.length - capacities.egress.size) =
          outs.length + (events :: answers).flatten.length - capacities.egress.size := by
        rw [List.flatten_cons,List.length_append,List.length_take,List.length_append]
        omega
      rw [lost',lost₁,UInt64.add_assoc,← UInt64.ofNat_add,lost]

/-- Delivery offers the messages to the command ring and counts the refusals. -/
theorem deliver_offers (s : ServerPipeline capacities) (msgs : List BinaryMessage) :
    msgs.foldl ServerPipeline.deliver s = { s with
      processor := { s.processor with ingress := (s.processor.ingress.offerAll msgs).2 }
      ingressBackpressureCount :=
        s.ingressBackpressureCount + UInt64.ofNat (refusals (s.processor.ingress.offerAll msgs).1) } := by
  induction msgs generalizing s with
  | nil => simp [offerAll,refusals]
  | cons msg rest ih =>
    rw [List.foldl_cons,ih]
    cases pushed : s.processor.ingress.tryPush msg with
    | mk done ingress =>
      cases done with
      | true => simp [ServerPipeline.deliver,EngineProcessor.submit,pushed,offerAll,refusals]
      | false =>
        have count : refusals (s.processor.ingress.offerAll (msg :: rest)).1 = 1 + refusals (ingress.offerAll rest).1 := by
          simp [offerAll,pushed,refusals,Nat.add_comm]
        rw [count,UInt64.ofNat_add]
        simp [ServerPipeline.deliver,EngineProcessor.submit,pushed,offerAll,UInt64.add_assoc]

/-- The command ring takes the messages that fit; the others are counted. -/
theorem deliver_spec {s : ServerPipeline capacities} {ins outs : List BinaryMessage}
    (running : Running s.processor ins outs) (msgs : List BinaryMessage) :
    ∃ ingress, msgs.foldl ServerPipeline.deliver s = { s with
        processor := { s.processor with ingress := ingress }
        ingressBackpressureCount :=
          s.ingressBackpressureCount + UInt64.ofNat (ins.length + msgs.length - capacities.ingress.size) } ∧
      Running { s.processor with ingress := ingress } ((ins ++ msgs).take capacities.ingress.size) outs := by
  obtain ⟨_,_,after⟩ := running.ingress.offerAll msgs
  obtain ⟨kept,lost⟩ := running.ingress.offerAll_fits msgs
  rw [kept] at after
  refine ⟨(s.processor.ingress.offerAll msgs).2,?_,running.orderly,after,running.egress⟩
  rw [deliver_offers,lost]

/-- An event in range is encoded whole. -/
theorem encode_event {event : BinaryMessage} (ranged : InRange event) :
    ∃ written frame, CppCodec.encode event (List.replicate CppCodec.kMaxMessageLen 0) = (.ok written,frame) ∧
      frame.take written = bytesOf event := by
  have encoded := Codecs.cppEncode_eq event (List.replicate CppCodec.kMaxMessageLen 0)
  have room : ¬ (List.replicate CppCodec.kMaxMessageLen (0 : UInt8)).length < typeLength (messageType event) := by
    rw [List.length_replicate]
    generalize messageType event = type
    cases type <;> decide
  rw [if_neg room,if_pos ranged,WireFormat.cppEncode] at encoded
  cases outcome : CppCodec.encode event (List.replicate CppCodec.kMaxMessageLen 0) with
  | mk code frame =>
    rw [outcome] at encoded
    obtain ⟨result,after⟩ := Prod.mk.inj encoded
    cases code with
    | error e => cases result
    | ok written =>
      obtain rfl : written = typeLength (messageType event) := Except.ok.inj result
      refine ⟨_,frame,rfl,?_⟩
      rw [after,← WireFormat.bytesOf_length,List.take_left]

/-- The frames for a socket that carry some events. -/
def framesFor (fd : SocketHandle) (events : List BinaryMessage) : List (SocketHandle × List UInt8) :=
  events.map (fun e => (fd,bytesOf e))

/-- `drain_events` encodes everything in the event ring. -/
theorem drainEventsFrom_spec {s : ServerPipeline capacities} {ins outs : List BinaryMessage}
    (running : Running s.processor ins outs) (ranged : ∀ e ∈ outs, InRange e) (fd : SocketHandle) {bound : Nat}
    (enough : outs.length < bound) :
    ∃ egress, ServerPipeline.drainEventsFrom fd bound s = some (framesFor fd outs,{ s with
        processor := { s.processor with egress := egress }
        responsesEmitted := s.responsesEmitted + UInt64.ofNat outs.length }) ∧
      Running { s.processor with egress := egress } ins [] := by
  induction outs generalizing s bound with
  | nil =>
    obtain ⟨bound,rfl⟩ := Nat.exists_eq_succ_of_ne_zero (by omega : bound ≠ 0)
    refine ⟨s.processor.egress,?_,running⟩
    rw [ServerPipeline.drainEventsFrom,running.nextEvent_empty]
    simp [framesFor]
  | cons event rest ih =>
    obtain ⟨bound,rfl⟩ := Nat.exists_eq_succ_of_ne_zero (by omega : bound ≠ 0)
    obtain ⟨ring,popped,running₁⟩ := running.nextEvent
    obtain ⟨written,frame,encoded,whole⟩ := encode_event (ranged event List.mem_cons_self)
    obtain ⟨egress,drained,running'⟩ := ih
      (s := { s with processor := { s.processor with egress := ring }, responsesEmitted := s.responsesEmitted + 1 })
      running₁ (fun e m => ranged e (List.mem_cons_of_mem _ m)) (show rest.length < bound by simpa using enough)
    refine ⟨egress,?_,running'⟩
    rw [ServerPipeline.drainEventsFrom,popped]
    simp only [encoded,drained,Option.bind_eq_bind,Option.bind_some,whole,List.length_cons,Option.pure_def]
    rw [UInt64.add_assoc,← UInt64.ofNat_one,← UInt64.ofNat_add,Nat.add_comm 1]
    rfl
end

/-! ### Connections -/

section
variable {registry : ConnectionRegistry}

/-- The unfinished frame of each open connection. -/
def unfinishedOf (registry : ConnectionRegistry) (fd : SocketHandle) : Option (List UInt8) :=
  (registry.find fd).map (fun framer => framer.bytes framer.len)

/-- The framing buffers of the connections are open and hold the beginning of a
    frame. -/
def Framed (registry : ConnectionRegistry) : Prop :=
  ∀ fd framer, registry.find fd = some framer → Retains framer (framer.bytes framer.len)

theorem isRegistered_eq (fd : SocketHandle) : registry.isRegistered fd = (unfinishedOf registry fd).isSome := by
  rw [ConnectionRegistry.isRegistered,unfinishedOf,Option.isSome_map]

theorem find_none_of_registered {fd : SocketHandle} (unknown : registry.isRegistered fd = false) :
    registry.find fd = none := by
  rw [ConnectionRegistry.isRegistered] at unknown
  exact Option.isSome_eq_false_iff.mp unknown |> Option.isNone_iff_eq_none.mp

theorem find_teardown (fd x : SocketHandle) (reason : TeardownReason) :
    (registry.teardown fd reason).find x = if x = fd then none else registry.find x := by
  by_cases known : registry.isRegistered fd = true
  · rw [ConnectionRegistry.teardown,if_pos known,ConnectionRegistry.find,List.find?_filter]
    split_ifs with same
    · subst same
      rw [List.find?_eq_none.mpr (by simp)]
      rfl
    · rw [ConnectionRegistry.find]
      congr 2
      funext c
      by_cases here : c.1 = x
      · simp [here,same]
      · simp [here]
  · rw [ConnectionRegistry.teardown,if_neg known]
    split_ifs with same
    · rw [same]
      exact find_none_of_registered (by simpa using known)
    · rfl

theorem find_withFramer (fd x : SocketHandle) (framer : FrameBuffer) :
    (registry.withFramer fd framer).find x =
      if x = fd then (registry.find fd).map (fun _ => framer) else registry.find x := by
  rw [ConnectionRegistry.withFramer,ConnectionRegistry.find,List.find?_map]
  have same : ((fun c : SocketHandle × FrameBuffer => decide (c.1 = x)) ∘ fun c => if c.1 = fd then (fd,framer) else c) =
      fun c => decide (c.1 = x) := by
    funext c
    simp only [Function.comp_apply]
    split_ifs with here
    · rw [here]
    · rfl
  rw [same,Option.map_map,ConnectionRegistry.find,ConnectionRegistry.find]
  split_ifs with here
  · subst here
    cases found : registry.connections.find? (fun c => decide (c.1 = x)) with
    | none => rfl
    | some c =>
      have key : c.1 = x := by simpa using List.find?_some found
      simp [key]
  · cases found : registry.connections.find? (fun c => decide (c.1 = x)) with
    | none => rfl
    | some c =>
      have key : c.1 = x := by simpa using List.find?_some found
      simp [key,here]

theorem unfinishedOf_teardown (fd : SocketHandle) (reason : TeardownReason) :
    unfinishedOf (registry.teardown fd reason) = Function.update (unfinishedOf registry) fd none := by
  funext x
  rw [unfinishedOf,find_teardown,Function.update_apply]
  split_ifs with same
  · rfl
  · rfl

theorem Framed.teardown (framed : Framed registry) (fd : SocketHandle) (reason : TeardownReason) :
    Framed (registry.teardown fd reason) := by
  intro x framer found
  rw [find_teardown] at found
  split_ifs at found with same
  exact framed x framer found

/-- A connection that is registered begins with nothing read. -/
theorem accept_registered {fd : SocketHandle} (registered : (registry.accept fd).1 = .Registered)
    (fresh : registry.isRegistered fd = false) (framed : Framed registry) :
    Framed (registry.accept fd).2 ∧
      unfinishedOf (registry.accept fd).2 = Function.update (unfinishedOf registry) fd (some []) := by
  have added : (registry.accept fd).2.connections = registry.connections ++ [(fd,FrameBuffer.new)] := by
    by_cases full : registry.connections.length ≥ registry.maxConnections.toNat
    · rw [ConnectionRegistry.accept,if_pos full] at registered
      cases registered
    · rw [ConnectionRegistry.accept,if_neg full]
      simp [fresh]
  have missing := find_none_of_registered fresh
  rw [ConnectionRegistry.find,Option.map_eq_none_iff] at missing
  have find : ∀ x, (registry.accept fd).2.find x = if x = fd then some FrameBuffer.new else registry.find x := by
    intro x
    rw [ConnectionRegistry.find,added,List.find?_append]
    split_ifs with same
    · rw [same,missing]
      simp
    · have other : decide (fd = x) = false := decide_eq_false (Ne.symm same)
      rw [ConnectionRegistry.find,List.find?_cons,other]
      simp
  constructor
  · intro x framer found
    rw [find] at found
    split_ifs at found
    · obtain rfl := Option.some.inj found
      exact retains_new
    · exact framed x framer found
  · funext x
    rw [unfinishedOf,find,Function.update_apply]
    split_ifs with same
    · rfl
    · rfl

theorem accept_rejected {fd : SocketHandle} (rejected : (registry.accept fd).1 ≠ .Registered) (framed : Framed registry) :
    Framed (registry.accept fd).2 ∧ unfinishedOf (registry.accept fd).2 = unfinishedOf registry := by
  have find : ∀ x, (registry.accept fd).2.find x = registry.find x := by
    intro x
    by_cases full : registry.connections.length ≥ registry.maxConnections.toNat
    · rw [ConnectionRegistry.accept,if_pos full]
      rfl
    · rw [ConnectionRegistry.accept,if_neg full] at rejected
      exact absurd rfl rejected
  constructor
  · intro x framer found
    rw [find] at found
    exact framed x framer found
  · funext x
    rw [unfinishedOf,find,unfinishedOf]

theorem onReadable_unknown {fd : SocketHandle} (unknown : unfinishedOf registry fd = none) (bytes : List UInt8) :
    registry.onReadable fd bytes = some (false,[],registry) := by
  rw [unfinishedOf,Option.map_eq_none_iff] at unknown
  rw [ConnectionRegistry.onReadable,unknown]

/-- A read on an open connection reads its bytes one by one. -/
theorem onReadable_spec (framed : Framed registry) {fd : SocketHandle} {unfinished : List UInt8}
    (isOpen : unfinishedOf registry fd = some unfinished) (bytes : List UInt8) :
    ∃ registry', registry.onReadable fd bytes =
        some ((readBytes unfinished bytes).2.isSome,(readBytes unfinished bytes).1,registry') ∧
      Framed registry' ∧
      unfinishedOf registry' = Function.update (unfinishedOf registry) fd (readBytes unfinished bytes).2 := by
  obtain ⟨framer,found,rfl⟩ := Option.map_eq_some_iff.mp isOpen
  obtain ⟨after,reads⟩ := consume_reads (framed fd framer found) bytes
  rw [ConnectionRegistry.onReadable,found]
  cases ended : (readBytes (framer.bytes framer.len) bytes).2 with
  | none =>
    rw [ended] at reads
    refine ⟨(registry.withFramer fd after).teardown fd .OversizeFrame,by simp [reads.1],?_,?_⟩
    · intro x other found'
      rw [find_teardown,find_withFramer] at found'
      split_ifs at found' with same
      exact framed x other found'
    · funext x
      rw [unfinishedOf,find_teardown,find_withFramer,Function.update_apply]
      split_ifs with same
      · rfl
      · rfl
  | some last =>
    rw [ended] at reads
    refine ⟨registry.withFramer fd after,by simp [reads.1],?_,?_⟩
    · intro x other found'
      rw [find_withFramer,found] at found'
      split_ifs at found' with same
      · obtain rfl : after = other := Option.some.inj found'
        rw [reads.2.held]
        exact reads.2
      · exact framed x other found'
    · funext x
      rw [unfinishedOf,find_withFramer,found,Function.update_apply]
      split_ifs with same
      · rw [Option.map_some,Option.map_some,reads.2.held]
      · rfl

/-- The messages that the bytes complete on a connection, none if it is not open. -/
def completed (unfinished : Option (List UInt8)) (bytes : List UInt8) : List BinaryMessage :=
  match unfinished with
  | none => []
  | some unfinished => (readBytes unfinished bytes).1

theorem onReadable_completed (framed : Framed registry) (fd : SocketHandle) (bytes : List UInt8) :
    ∃ isOpen registry', registry.onReadable fd bytes =
        some (isOpen,completed (unfinishedOf registry fd) bytes,registry') ∧
      Framed registry' ∧ unfinishedOf registry' = Function.update (unfinishedOf registry) fd
        ((unfinishedOf registry fd).bind (fun unfinished => (readBytes unfinished bytes).2)) := by
  cases isOpen : unfinishedOf registry fd with
  | none =>
    refine ⟨false,registry,onReadable_unknown isOpen bytes,framed,?_⟩
    rw [Option.bind_none,← isOpen,Function.update_eq_self]
  | some unfinished =>
    obtain ⟨registry',read,framed',after⟩ := onReadable_spec framed isOpen bytes
    exact ⟨_,registry',read,framed',after⟩
end

/-! ### One read -/

section
variable {capacities : Capacities}

/-- The invariant of an operational pipeline between two calls. -/
structure Serving (s : ServerPipeline capacities) : Prop where
  running : Running s.processor [] []
  ready : s.processor.operational = true
  framed : Framed s.registry

theorem serving_new (maxConnections : UInt32) : Serving (ServerPipeline.new maxConnections : ServerPipeline capacities) := by
  refine ⟨running_new,rfl,?_⟩
  intro fd framer found
  cases found

/-- The pushes that the rings refuse while a read is handled: of the messages that it
    completes by the command ring, and of the answers to those that were taken by the
    event ring. -/
def refused (s : ServerPipeline capacities) (fd : SocketHandle) (bytes : List UInt8) : Nat :=
  if !s.processor.operational then 0
  else
    match s.registry.onReadable fd bytes with
    | none => 0
    | some (_,msgs,_) =>
      let offered := (s.processor.ingress.offerAll msgs).1
      match answerAll s.processor.engine (taken offered) with
      | none => refusals offered
      | some (answers,_) => refusals offered + refusals (s.processor.egress.offerAll answers.flatten).1

/-- A read: what fits of the completed messages is answered, what fits of the
    answers is sent back to the socket, and the rest is refused and counted. -/
theorem submitClientBytes_spec {s : ServerPipeline capacities} (serving : Serving s) (fd : SocketHandle)
    (bytes : List UInt8) :
    ∃ answers status s',
      answerAll s.processor.engine ((completed (unfinishedOf s.registry fd) bytes).take capacities.ingress.size) =
        some (answers,s'.processor.engine) ∧
      s.submitClientBytes fd bytes = some (status,framesFor fd (answers.flatten.take capacities.egress.size),s') ∧
      Serving s' ∧
      unfinishedOf s'.registry = Function.update (unfinishedOf s.registry) fd
        ((unfinishedOf s.registry fd).bind (fun unfinished => (readBytes unfinished bytes).2)) ∧
      s'.processor.processedCount = s.processor.processedCount + UInt64.ofNat answers.length ∧
      s'.ingressBackpressureCount = s.ingressBackpressureCount +
        UInt64.ofNat ((completed (unfinishedOf s.registry fd) bytes).length - capacities.ingress.size) ∧
      s'.processor.egressOverflowCount =
        s.processor.egressOverflowCount + UInt64.ofNat (answers.flatten.length - capacities.egress.size) ∧
      refused s fd bytes = (completed (unfinishedOf s.registry fd) bytes).length - capacities.ingress.size +
        (answers.flatten.length - capacities.egress.size) := by
  obtain ⟨isOpen,registry,read,framed,after⟩ := onReadable_completed serving.framed fd bytes
  generalize completed (unfinishedOf s.registry fd) bytes = msgs at read ⊢
  have running₀ : Running ({ s with registry := registry } : ServerPipeline capacities).processor [] [] := serving.running
  obtain ⟨ingress,delivered,running₁⟩ := deliver_spec running₀ msgs
  have fits := running₁.ingress.length_le
  obtain ⟨answers,engine',p,answered,ran,running₂,same,ready,count,lost⟩ :=
    processAllFrom_spec running₁ serving.ready (Nat.lt_succ_of_le fits)
  obtain ⟨_,_,answered',_,length,ranged⟩ := answerAll_orderly running₁.orderly
    (([] ++ msgs).take capacities.ingress.size)
  rw [answered] at answered'
  obtain ⟨rfl,rfl⟩ := Prod.mk.inj (Option.some.inj answered')
  rw [List.nil_append] at answered length count running₂
  have rangedHere : ∀ e ∈ answers.flatten.take capacities.egress.size, InRange e :=
    fun e m => ranged e (List.mem_of_mem_take m)
  have short : (answers.flatten.take capacities.egress.size).length < capacities.egress.size + 1 :=
    Nat.lt_succ_of_le (List.length_take_le _ _)
  obtain ⟨egress,drained,running₃⟩ := drainEventsFrom_spec
    (s := { ({ s with registry := registry } : ServerPipeline capacities) with
            processor := p
            ingressBackpressureCount := s.ingressBackpressureCount + UInt64.ofNat (0 + msgs.length - capacities.ingress.size) })
    running₂ rangedHere fd short
  refine ⟨answers,if isOpen then .Ok else .Closed,
    { processor := { p with egress := egress }
      registry := registry
      ingressBackpressureCount := s.ingressBackpressureCount + UInt64.ofNat (0 + msgs.length - capacities.ingress.size)
      responsesEmitted := s.responsesEmitted + UInt64.ofNat (answers.flatten.take capacities.egress.size).length },
    ?_,?_,⟨running₃,ready,framed⟩,after,?_,?_,?_,?_⟩
  · rw [← same] at answered
    exact answered
  · rw [ServerPipeline.submitClientBytes,serving.ready]
    simp only [Bool.not_true,Bool.false_eq_true,if_false,read,Option.bind_eq_bind,Option.bind_some,delivered,
      EngineProcessor.processAll,ran,ServerPipeline.drainEvents,List.length_nil]
    rw [drained]
    rfl
  · rw [length]
    exact count
  · simp only [Nat.zero_add]
  · simp only [List.length_nil,Nat.zero_add] at lost
    exact lost
  · obtain ⟨commands,few⟩ := running₀.ingress.offerAll_fits msgs
    obtain ⟨_,beyond⟩ := running₀.egress.offerAll_fits answers.flatten
    simp only [List.nil_append,List.length_nil,Nat.zero_add] at commands few beyond
    simp only [refused,serving.ready,read,commands,answered,few,beyond,Bool.not_true,Bool.false_eq_true,if_false]
end

end HyperMatch.DataPath
