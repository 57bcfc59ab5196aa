import HyperMatch.Routing

/-!
Whether every command is answered in full. A command is answered by its trades and
one terminator, an acknowledgement or a reject with its order id. With the default
capacities a read can complete more commands than the command ring holds, and its
commands can cause more events than the event ring holds; then terminators are lost.
The events of a read are counted beforehand, on the resting orders (`workload`).
-/
namespace HyperMatch.Terminators
open HyperMatch.Wire HyperMatch.OrderBook HyperMatch.BookLayout HyperMatch.MatchingEngine HyperMatch.Matching HyperMatch.Processing
open HyperMatch.FrameBuffer HyperMatch.DataPath HyperMatch.Routing
open HyperMatch.WireFormat (bytesOf bytesOf_eq bytesOf_length typeLength messageTypes)
set_option linter.unusedSimpArgs false

/-! ### Streams of messages -/

theorem decode_bytesOf {msg : BinaryMessage} (ranged : InRange msg) : CppCodec.decode (bytesOf msg) = .ok msg := by
  have decided := Codecs.decode_decided (bytesOf msg)
  rw [WireFormat.fault_bytesOf ranged] at decided
  obtain ⟨other,read,_,same⟩ := decided
  obtain rfl := WireFormat.bytesOf_injective same
  rw [← Codecs.cppDecode_eq,WireFormat.cppDecode] at read
  cases decoded : CppCodec.decode (bytesOf msg) with
  | error e =>
    rw [decoded] at read
    cases read
  | ok found =>
    rw [decoded] at read
    exact congrArg _ (Except.ok.inj read)

theorem frameLength_bytesOf (msg : BinaryMessage) : frameLength ((bytesOf msg).headD 0) = some (bytesOf msg).length := by
  rw [bytesOf_length,bytesOf_eq,List.headD_cons]
  generalize messageType msg = type
  cases type <;> decide

/-- The frames of messages are read back as these messages. -/
theorem readBytes_messages (msgs : List BinaryMessage) (ranged : ∀ msg ∈ msgs, InRange msg) :
    readBytes [] (msgs.flatMap bytesOf) = (msgs,some []) := by
  induction msgs with
  | nil => rfl
  | cons msg rest ih =>
    have frame := readBytes_frame [] (bytesOf msg) (by rw [bytesOf_eq]; simp) (frameLength_bytesOf msg) rfl (rest.flatMap bytesOf)
    rw [List.nil_append,decode_bytesOf (ranged msg List.mem_cons_self)] at frame
    rw [List.flatMap_cons,frame,ih (fun m inside => ranged m (List.mem_cons_of_mem _ inside))]

/-! ### Counting events -/

/-- The resting orders at the front of a walk that an order crosses. -/
def crossed (incoming : NewOrder) (walk : List Entry) : List Entry :=
  walk.takeWhile (fun e => priceCrosses incoming.side incoming.priceTicks e.priceTicks)

/-- The number of resting orders that a quantity reaches: those ahead of them do not
    use it up. -/
def touched (walk : List Entry) (quantity : Nat) : Nat :=
  (List.range walk.length).countP (fun k => ((walk.take k).map (fun e => e.remainingQty.toNat)).sum < quantity)

theorem touched_zero (walk : List Entry) : touched walk 0 = 0 := by
  rw [touched,List.countP_eq_zero]
  simp

theorem touched_cons (e : Entry) (walk : List Entry) {quantity : Nat} (some : 0 < quantity) :
    touched (e :: walk) quantity = 1 + touched walk (quantity - e.remainingQty.toNat) := by
  rw [touched,List.length_cons,List.range_succ_eq_map,List.countP_cons,List.countP_map,touched]
  have later : ((fun k => decide ((((e :: walk).take k).map (fun e => e.remainingQty.toNat)).sum < quantity)) ∘ Nat.succ) =
      fun k => decide (((walk.take k).map (fun e => e.remainingQty.toNat)).sum < quantity - e.remainingQty.toNat) := by
    funext k
    simp only [Function.comp_apply,Nat.succ_eq_add_one,List.take_succ_cons,List.map_cons,List.sum_cons,decide_eq_decide]
    omega
  rw [later]
  simp only [List.take_zero,List.map_nil,List.sum_nil,some,decide_true,if_true]
  exact Nat.add_comm _ _

/-- A sweep makes one trade with each resting order that it reaches. -/
theorem sweep_length (incoming : NewOrder) (walk : List Entry) (execSeq : UInt64) (remaining : UInt32) :
    (sweep incoming walk execSeq remaining).1.length = touched (crossed incoming walk) remaining.toNat := by
  induction walk generalizing execSeq remaining with
  | nil => rfl
  | cons e rest ih =>
    obtain ⟨left,rests⟩ := sub_stdMin_toNat remaining e.remainingQty
    rcases sweep_cons incoming e rest execSeq remaining with ⟨some,crosses,gone,swept⟩ | ⟨some,crosses,kept,swept⟩ | ⟨stops,swept⟩
    · have used : (remaining - stdMin remaining e.remainingQty).toNat = remaining.toNat - e.remainingQty.toNat := by
        rw [gone,UInt32.toNat_zero] at rests
        omega
      rw [crossed,List.takeWhile_cons,if_pos crosses,touched_cons _ _ (UInt32.lt_iff_toNat_lt.mp some),← used,swept,
        List.length_cons,ih,crossed]
      exact Nat.add_comm _ _
    · have used : remaining.toNat - e.remainingQty.toNat = 0 := by
        have more : (e.remainingQty - stdMin remaining e.remainingQty).toNat ≠ 0 := by
          rw [← UInt32.toNat_zero]
          exact fun same => kept (UInt32.toNat_inj.mp same)
        omega
      rw [crossed,List.takeWhile_cons,if_pos crosses,touched_cons _ _ (UInt32.lt_iff_toNat_lt.mp some),used,touched_zero,
        swept]
      rfl
    · rw [swept]
      by_cases some : remaining > 0
      · rw [crossed,List.takeWhile_cons,if_neg (fun crosses => stops ⟨some,crosses⟩)]
        rfl
      · obtain rfl : remaining = 0 := UInt32.le_zero_iff.mp (UInt32.not_lt.mp some)
        exact (touched_zero _).symm

section
variable {maxOrders maxPriceLevels : PoolCapacity}

/-- The number of events that answer a message: a terminator, and a trade for each
    resting order that a new order reaches. -/
def eventCount (ex : Exchange) : BinaryMessage → Nat
  | .newOrder m =>
    if validateNewOrder m = none then touched (crossed m (ex.walks (opposite m.side))) m.quantity.toNat + 1 else 1
  | _ => 1

/-- The resting orders after a message. -/
def exchangeAfter (maxOrders maxPriceLevels : PoolCapacity) (ex : Exchange) : BinaryMessage → Exchange
  | .newOrder m => if validateNewOrder m = none then (ex.newOrder maxOrders maxPriceLevels m).2 else ex
  | .cancelOrder c => (ex.cancel c.orderId).2
  | _ => ex

/-- The number of events that answer a sequence of messages. -/
def workload (maxOrders maxPriceLevels : PoolCapacity) (ex : Exchange) : List BinaryMessage → Nat
  | [] => 0
  | msg :: rest => eventCount ex msg + workload maxOrders maxPriceLevels (exchangeAfter maxOrders maxPriceLevels ex msg) rest

theorem eventCount_pos (ex : Exchange) (msg : BinaryMessage) : 0 < eventCount ex msg := by
  unfold eventCount
  split
  · split_ifs <;> omega
  · exact Nat.one_pos

theorem length_le_workload (maxOrders maxPriceLevels : PoolCapacity) (ex : Exchange) (msgs : List BinaryMessage) :
    msgs.length ≤ workload maxOrders maxPriceLevels ex msgs := by
  induction msgs generalizing ex with
  | nil => exact Nat.le_refl _
  | cons msg rest ih =>
    have here := eventCount_pos ex msg
    have later := ih (exchangeAfter maxOrders maxPriceLevels ex msg)
    rw [workload,List.length_cons]
    omega

/-! ### Terminators -/

/-- The order id of a command. -/
def commandId : BinaryMessage → Option UInt64
  | .newOrder m => some m.orderId
  | .cancelOrder c => some c.orderId
  | _ => none

/-- The events are trades of the command and one acknowledgement or reject of it. -/
def Terminates (msg : BinaryMessage) (events : List BinaryMessage) : Prop :=
  ∃ id last, ∃ trades : List Trade, commandId msg = some id ∧ events = trades.map .trade ++ [last] ∧
    (∀ t ∈ trades, t.incomingId = id) ∧ ((∃ kind, last = .ack ⟨id,kind⟩) ∨ ∃ reason, last = .reject ⟨id,reason⟩)

section
variable {engine engine' : MatchingEngine maxOrders maxPriceLevels} {events : List BinaryMessage}

/-- A message is answered by as many events as are counted for it; a command by its
    trades and a terminator. -/
theorem answer_counted (orderly : Orderly engine) {msg : BinaryMessage} (answered : answer engine msg = some (events,engine')) :
    events.length = eventCount (view engine) msg ∧ view engine' = exchangeAfter maxOrders maxPriceLevels (view engine) msg ∧
      ((commandId msg).isSome → Terminates msg events) := by
  cases msg with
  | newOrder m =>
    rcases answer_newOrder orderly m with ⟨reason,invalid,ran⟩ | ⟨valid,after,ran,_,viewed⟩
    · rw [answered] at ran
      obtain ⟨rfl,rfl⟩ := Prod.mk.inj (Option.some.inj ran)
      rw [eventCount,exchangeAfter,invalid]
      exact ⟨rfl,rfl,fun _ => ⟨m.orderId,_,[],rfl,rfl,by simp,.inr ⟨reason,rfl⟩⟩⟩
    · rw [answered] at ran
      obtain ⟨rfl,rfl⟩ := Prod.mk.inj (Option.some.inj ran)
      rw [eventCount,exchangeAfter,if_pos valid,if_pos valid,List.length_append,List.length_map,Exchange.sweptBy,sweep_length]
      refine ⟨rfl,viewed,fun _ => ⟨m.orderId,_,_,rfl,rfl,?_,.inl ⟨.Accepted,rfl⟩⟩⟩
      intro t inside
      exact (sweep_trades m (orderly.sound.positive _) inside).1
  | cancelOrder c =>
    rcases answer_cancelOrder orderly c with ⟨e,after,ran,_,taken⟩ | ⟨reason,ran,missing⟩
    · rw [answered] at ran
      obtain ⟨rfl,rfl⟩ := Prod.mk.inj (Option.some.inj ran)
      rw [exchangeAfter,taken]
      exact ⟨rfl,rfl,fun _ => ⟨c.orderId,_,[],rfl,rfl,by simp,.inl ⟨.Cancelled,rfl⟩⟩⟩
    · rw [answered] at ran
      obtain ⟨rfl,rfl⟩ := Prod.mk.inj (Option.some.inj ran)
      rw [exchangeAfter,missing]
      exact ⟨rfl,rfl,fun _ => ⟨c.orderId,_,[],rfl,rfl,by simp,.inr ⟨reason,rfl⟩⟩⟩
  | trade t =>
    obtain ⟨rfl,rfl⟩ := Prod.mk.inj (Option.some.inj answered)
    exact ⟨rfl,rfl,fun command => by cases command⟩
  | ack a =>
    obtain ⟨rfl,rfl⟩ := Prod.mk.inj (Option.some.inj answered)
    exact ⟨rfl,rfl,fun command => by cases command⟩
  | reject r =>
    obtain ⟨rfl,rfl⟩ := Prod.mk.inj (Option.some.inj answered)
    exact ⟨rfl,rfl,fun command => by cases command⟩

/-- The answers to a sequence of messages are counted by its workload. -/
theorem answerAll_counted (orderly : Orderly engine) {msgs : List BinaryMessage} {answers : List (List BinaryMessage)}
    (answered : answerAll engine msgs = some (answers,engine')) :
    answers.flatten.length = workload maxOrders maxPriceLevels (view engine) msgs ∧
      ((∀ msg ∈ msgs, (commandId msg).isSome) → List.Forall₂ Terminates msgs answers) := by
  induction msgs generalizing engine answers with
  | nil =>
    obtain ⟨rfl,_⟩ := Prod.mk.inj (Option.some.inj answered)
    exact ⟨rfl,fun _ => .nil⟩
  | cons msg rest ih =>
    obtain ⟨events,engine₁,first,orderly₁,_⟩ := answer_orderly orderly msg
    obtain ⟨later,engine₂,ran,_⟩ := answerAll_orderly orderly₁ rest
    simp only [answerAll,first,ran,Option.bind_eq_bind,Option.bind_some,Option.pure_def] at answered
    obtain ⟨rfl,rfl⟩ := Prod.mk.inj (Option.some.inj answered)
    obtain ⟨count,viewed,terminates⟩ := answer_counted orderly first
    obtain ⟨count',terminated⟩ := ih orderly₁ ran
    constructor
    · rw [List.flatten_cons,List.length_append,count,count',viewed,workload]
    · intro commands
      exact .cons (terminates (commands msg List.mem_cons_self))
        (terminated (fun m inside => commands m (List.mem_cons_of_mem _ inside)))
end
end

/-! ### One read -/

section
variable {capacities : Capacities}

/-- For each command that the bytes complete, in their order, `out` is given the
    frames of all its trades and of its terminator. -/
def Settled (s : ServerPipeline capacities) (fd : SocketHandle) (bytes : List UInt8)
    (outs : List (SocketHandle × List UInt8)) : Prop :=
  ∃ answers engine', answerAll s.processor.engine (completed (unfinishedOf s.registry fd) bytes) = some (answers,engine') ∧
    List.Forall₂ Terminates (completed (unfinishedOf s.registry fd) bytes) answers ∧
    outs = framesFor fd answers.flatten

/-- Commands that do not all fit the command ring cause more events than those of
    the commands that do. -/
theorem answerAll_take_short {maxOrders maxPriceLevels : PoolCapacity} {engine engine₁ engine₂ : MatchingEngine maxOrders maxPriceLevels}
    (orderly : Orderly engine) {msgs : List BinaryMessage} {answers answers' : List (List BinaryMessage)} {size : Nat}
    (some : answerAll engine (msgs.take size) = .some (answers,engine₁)) (all : answerAll engine msgs = .some (answers',engine₂))
    (more : size < msgs.length) : answers.flatten.length < answers'.flatten.length := by
  obtain ⟨_,_,again,orderly₁,_,_⟩ := answerAll_orderly orderly (msgs.take size)
  rw [some] at again
  obtain ⟨rfl,rfl⟩ := Prod.mk.inj (Option.some.inj again)
  obtain ⟨later,engine₃,ran,_,_,_⟩ := answerAll_orderly orderly₁ (msgs.drop size)
  have count := (answerAll_counted orderly₁ ran).1
  have least := length_le_workload maxOrders maxPriceLevels (view engine₁) (msgs.drop size)
  rw [← List.take_append_drop size msgs,answerAll_append,some] at all
  simp only [Option.bind_eq_bind,Option.bind_some,ran,Option.pure_def] at all
  obtain ⟨rfl,_⟩ := Prod.mk.inj (Option.some.inj all)
  rw [List.flatten_append,List.length_append]
  rw [List.length_drop] at least
  omega

/-- A read settles its commands when they and their events fit the rings, and only
    then. -/
theorem submitClientBytes_settles_iff {s : ServerPipeline capacities} (serving : Serving s) (fd : SocketHandle)
    (bytes : List UInt8) (commands : ∀ msg ∈ completed (unfinishedOf s.registry fd) bytes, (commandId msg).isSome) :
    ∃ status outs s', s.submitClientBytes fd bytes = some (status,outs,s') ∧
      (Settled s fd bytes outs ↔
        (completed (unfinishedOf s.registry fd) bytes).length ≤ capacities.ingress.size ∧
        workload capacities.orders capacities.levels (view s.processor.engine) (completed (unfinishedOf s.registry fd) bytes) ≤
          capacities.egress.size) := by
  obtain ⟨answers,status,s',answered,submitted,_⟩ := submitClientBytes_spec serving fd bytes
  refine ⟨status,_,s',submitted,?_⟩
  rw [Settled]
  generalize completed (unfinishedOf s.registry fd) bytes = msgs at *
  have orderly := serving.running.orderly
  constructor
  · rintro ⟨answers',engine',all,_,same⟩
    have lengths := congrArg List.length same
    rw [framesFor,framesFor,List.length_map,List.length_map,List.length_take] at lengths
    have count := (answerAll_counted orderly all).1
    by_cases fits : msgs.length ≤ capacities.ingress.size
    · rw [List.take_of_length_le fits,all] at answered
      obtain ⟨rfl,_⟩ := Prod.mk.inj (Option.some.inj answered)
      exact ⟨fits,by omega⟩
    · have fewer := answerAll_take_short orderly answered all (Nat.lt_of_not_le fits)
      omega
  · rintro ⟨fits,few⟩
    rw [List.take_of_length_le fits] at answered
    obtain ⟨count,terminated⟩ := answerAll_counted orderly answered
    refine ⟨answers,_,answered,terminated commands,?_⟩
    rw [List.take_of_length_le (by omega)]

/-- With the default capacities: whatever calls a pipeline has seen, a read whose
    frames are all commands settles every one of them exactly when there are at most
    4096 commands and trades, taken together. -/
theorem every_command_terminated_iff {maxConnections : UInt32} {s : ServerPipeline defaultCapacities}
    (reached : Reached maxConnections s) (ready : s.processor.operational = true) (fd : SocketHandle) (bytes : List UInt8)
    (commands : ∀ msg ∈ completed (unfinishedOf s.registry fd) bytes, (commandId msg).isSome) :
    ∃ status outs s', s.submitClientBytes fd bytes = some (status,outs,s') ∧
      (Settled s fd bytes outs ↔
        workload kDefaultMaxOrders kDefaultMaxPriceLevels (view s.processor.engine)
          (completed (unfinishedOf s.registry fd) bytes) ≤ 4096) := by
  obtain ⟨status,outs,s',submitted,settled⟩ :=
    submitClientBytes_settles_iff ((reached_idle reached).serving ready) fd bytes commands
  refine ⟨status,outs,s',submitted,settled.trans ?_⟩
  have least := length_le_workload kDefaultMaxOrders kDefaultMaxPriceLevels (view s.processor.engine)
    (completed (unfinishedOf s.registry fd) bytes)
  exact ⟨fun both => both.2,fun few => ⟨least.trans few,few⟩⟩
end

/-- A pipeline with one connection, on socket 7. -/
def oneClient : ServerPipeline defaultCapacities := ((ServerPipeline.new 1).accept 7).2

theorem oneClient_reached : Reached 1 oneClient := .act (.accept 7) .new rfl

theorem oneClient_completed (msgs : List BinaryMessage) (ranged : ∀ msg ∈ msgs, InRange msg) :
    completed (unfinishedOf oneClient.registry 7) (msgs.flatMap bytesOf) = msgs := by
  rw [show unfinishedOf oneClient.registry 7 = some [] from rfl,completed,readBytes_messages msgs ranged]

/-- An order that rests, one that trades with it and rests itself, and three cancellations,
    one of them of an order that never was. -/
def fiveCommands : List BinaryMessage :=
  [.newOrder ⟨1,.Buy,100,5,1⟩,.newOrder ⟨2,.Sell,90,7,2⟩,.cancelOrder ⟨2⟩,.cancelOrder ⟨1⟩,.cancelOrder ⟨9⟩]

theorem every_command_terminated_five_commands :
    ∃ status outs s', oneClient.submitClientBytes 7 (fiveCommands.flatMap bytesOf) = some (status,outs,s') ∧
      Settled oneClient 7 (fiveCommands.flatMap bytesOf) outs := by
  have ranged : ∀ msg ∈ fiveCommands, InRange msg := by decide
  have messages := oneClient_completed fiveCommands ranged
  obtain ⟨status,outs,s',submitted,settled⟩ := every_command_terminated_iff oneClient_reached rfl 7 (fiveCommands.flatMap bytesOf)
    (by rw [messages]; decide)
  refine ⟨status,outs,s',submitted,settled.mpr ?_⟩
  rw [messages]
  decide +kernel

/-- A read of 36873 bytes that holds 4097 cancellations. -/
def manyCancels : List BinaryMessage := List.replicate 4097 (.cancelOrder ⟨1⟩)

/-- The command ring refuses the last of 4097 cancellations: it is not answered. -/
theorem last_cancel_unanswered :
    Reached 1 oneClient ∧ oneClient.processor.operational = true ∧ oneClient.registry.isRegistered 7 = true ∧
      (manyCancels.flatMap bytesOf).length ≤ 65536 ∧
      readBytes [] (manyCancels.flatMap bytesOf) = (manyCancels,some []) ∧ (∀ msg ∈ manyCancels, (commandId msg).isSome) ∧
      ∃ status outs s', oneClient.submitClientBytes 7 (manyCancels.flatMap bytesOf) = some (status,outs,s') ∧
        outs.length < manyCancels.length ∧ ¬ Settled oneClient 7 (manyCancels.flatMap bytesOf) outs := by
  have ranged : ∀ msg ∈ manyCancels, InRange msg := by
    intro msg inside
    rw [List.eq_of_mem_replicate inside]
    trivial
  have commands : ∀ msg ∈ manyCancels, (commandId msg).isSome := by
    intro msg inside
    rw [List.eq_of_mem_replicate inside]
    rfl
  have length : manyCancels.length = 4097 := List.length_replicate
  refine ⟨oneClient_reached,rfl,rfl,?_,readBytes_messages _ ranged,commands,?_⟩
  · rw [List.length_flatMap,manyCancels,List.map_replicate,List.sum_replicate_nat,bytesOf_length]
    decide
  · have serving := (reached_idle oneClient_reached).serving rfl
    have messages := oneClient_completed manyCancels ranged
    obtain ⟨answers,_,_,_,sent,_⟩ := submitClientBytes_spec serving 7 (manyCancels.flatMap bytesOf)
    obtain ⟨status,outs,s',submitted,settled⟩ :=
      submitClientBytes_settles_iff serving 7 (manyCancels.flatMap bytesOf) (by rw [messages]; exact commands)
    rw [submitted] at sent
    obtain ⟨_,rest⟩ := Prod.mk.inj (Option.some.inj sent)
    obtain ⟨rfl,_⟩ := Prod.mk.inj rest
    refine ⟨status,_,s',submitted,?_,?_⟩
    · rw [framesFor,List.length_map,length]
      exact Nat.lt_succ_of_le (List.length_take_le _ _)
    · rw [settled,messages,length]
      intro both
      exact absurd both.1 (by decide)

end HyperMatch.Terminators
