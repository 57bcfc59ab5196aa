import HyperMatch.DataPath

/-!
The processing loop as two bounded queues. Whatever calls are made, the messages that
were dispatched and those that wait are the submissions that were taken, and the events
that were popped and those that wait are the events that were emitted and taken; both
rings refuse exactly when they are full. Invalid messages are rejected in their place
and leave nothing else behind.
-/
namespace HyperMatch.Processing
open HyperMatch.Wire HyperMatch.OrderBook HyperMatch.MatchingEngine HyperMatch.RingBuffer
open HyperMatch.EngineProcessor (invalidMessageOrderId kInvalidMessageReason)
open HyperMatch.DataPath (answerAll answerAll_append answerAll_orderly)
set_option linter.unusedSimpArgs false

variable {capacities : Capacities}

/-- A call on a processor that has been started. -/
inductive Use where
  | submit (msg : BinaryMessage)
  | processNext
  | nextEvent
  deriving Repr, DecidableEq

/-- What calls have shown: the submissions, the messages that were dispatched, the
    events that were emitted for them, and the events that were popped. -/
structure Account where
  submitted : List (Offer BinaryMessage) := []
  dispatched : List BinaryMessage := []
  emitted : List (Offer BinaryMessage) := []
  popped : List BinaryMessage := []
  deriving Repr, DecidableEq

/-- A call, and what it shows. -/
def observe (p : EngineProcessor capacities) (account : Account) : Use → Option (Account × EngineProcessor capacities)
  | .submit msg =>
    let (done,after) := p.submit msg
    some ({ account with submitted := account.submitted ++ [⟨msg,p.ingress.size,done⟩] },after)
  | .processNext => do
    let (done,after) ← p.processNext
    match done,p.ingress.tryPop.1 with
    | true,some msg => do
      let (events,_) ← answer p.engine msg
      return ({ account with
        dispatched := account.dispatched ++ [msg]
        emitted := account.emitted ++ (p.egress.offerAll events).1 },after)
    | _,_ => return (account,after)
  | .nextEvent =>
    let (event,after) := p.nextEvent
    some ({ account with popped := account.popped ++ event.toList },after)

def observeAll (p : EngineProcessor capacities) (account : Account) : List Use → Option (Account × EngineProcessor capacities)
  | [] => some (account,p)
  | use :: rest => do
    let (account,p) ← observe p account use
    observeAll p account rest

/-! ### One call -/

section
variable {p : EngineProcessor capacities}

theorem answerAll_concat {maxOrders maxPriceLevels : PoolCapacity}
    {engine engine' engine'' : MatchingEngine maxOrders maxPriceLevels} {msgs : List BinaryMessage} {msg : BinaryMessage}
    {answers : List (List BinaryMessage)} {events : List BinaryMessage}
    (first : answerAll engine msgs = some (answers,engine')) (last : answer engine' msg = some (events,engine'')) :
    answerAll engine (msgs ++ [msg]) = some (answers ++ [events],engine'') := by
  rw [answerAll_append,first]
  simp [answerAll,last]

/-- The calls so far, from a processor with these messages in its rings. -/
structure Accounted (p₀ : EngineProcessor capacities) (ins₀ outs₀ : List BinaryMessage) (account : Account)
    (p : EngineProcessor capacities) (ins outs : List BinaryMessage) (answers : List (List BinaryMessage)) : Prop where
  running : Running p ins outs
  ready : p.operational = true
  submissions : account.dispatched ++ ins = ins₀ ++ taken account.submitted
  full : ∀ o ∈ account.submitted, o.taken = false ↔ o.held = capacities.ingress.size
  answered : answerAll p₀.engine account.dispatched = some (answers,p.engine)
  emitted : account.emitted.map Offer.value = answers.flatten
  events : account.popped ++ outs = outs₀ ++ taken account.emitted
  lost : ∀ o ∈ account.emitted, o.taken = false ↔ o.held = capacities.egress.size
  processed : p.processedCount = p₀.processedCount + UInt64.ofNat account.dispatched.length
  overflow : p.egressOverflowCount = p₀.egressOverflowCount + UInt64.ofNat (refusals account.emitted)
  errors : p.errorEventCount = p₀.errorEventCount + UInt64.ofNat (account.dispatched.countP invalidCommand)

variable {p₀ : EngineProcessor capacities} {ins₀ outs₀ ins outs : List BinaryMessage} {account : Account}
  {answers : List (List BinaryMessage)}

theorem Accounted.submit (so : Accounted p₀ ins₀ outs₀ account p ins outs answers) (msg : BinaryMessage) :
    ∃ account' p' ins', observe p account (.submit msg) = some (account',p') ∧
      Accounted p₀ ins₀ outs₀ account' p' ins' outs answers := by
  obtain ⟨done,ingress,pushed,refused,_,holds⟩ := so.running.ingress.tryPush msg
  have submitted : p.submit msg = (done,{ p with ingress := ingress }) := by simp [EngineProcessor.submit,pushed]
  refine ⟨_,_,ins ++ if done then [msg] else [],by simp only [observe,submitted]; rfl,?_⟩
  constructor
  · exact ⟨so.running.orderly,holds,so.running.egress⟩
  · exact so.ready
  · have one : taken [(⟨msg,p.ingress.size,done⟩ : Offer BinaryMessage)] = if done then [msg] else [] := by
      cases done <;> simp [taken]
    rw [taken_append,one,← List.append_assoc,so.submissions,List.append_assoc]
  · intro o inside
    rcases List.mem_append.mp inside with old | new
    · exact so.full o old
    · rw [List.mem_singleton.mp new]
      exact refused
  · exact so.answered
  · exact so.emitted
  · exact so.events
  · exact so.lost
  · exact so.processed
  · exact so.overflow
  · exact so.errors

theorem Accounted.processNext (so : Accounted p₀ ins₀ outs₀ account p ins outs answers) :
    ∃ account' p' ins' outs' answers', observe p account .processNext = some (account',p') ∧
      Accounted p₀ ins₀ outs₀ account' p' ins' outs' answers' := by
  cases ins with
  | nil =>
    have idle := so.running.processNext_idle (.inr rfl)
    exact ⟨account,p,[],outs,answers,by simp [observe,idle],so⟩
  | cons msg rest =>
    obtain ⟨events,engine',answered,orderly',_⟩ := answer_orderly so.running.orderly msg
    obtain ⟨ingress,popped,holds⟩ := so.running.ingress.tryPop_front
    obtain ⟨named,refused,holds'⟩ := so.running.egress.offerAll events
    have ran : p.processNext = some (true,
        { p with
          engine := engine'
          ingress := ingress
          egress := (p.egress.offerAll events).2
          processedCount := p.processedCount + 1
          errorEventCount := p.errorEventCount + (if invalidCommand msg then 1 else 0)
          egressOverflowCount := p.egressOverflowCount + UInt64.ofNat (refusals (p.egress.offerAll events).1) }) := by
      rw [EngineProcessor.processNext,if_neg (by simp [so.ready]),popped]
      simp [dispatch_eq,answered,emitAll_offers]
    refine ⟨_,_,rest,outs ++ taken (p.egress.offerAll events).1,answers ++ [events],
      by simp only [observe,ran,popped,answered,Option.bind_eq_bind,Option.bind_some]; rfl,?_⟩
    constructor
    · exact ⟨orderly',holds,holds'⟩
    · exact so.ready
    · rw [List.append_assoc]
      exact so.submissions
    · exact so.full
    · exact answerAll_concat so.answered answered
    · simp [so.emitted,named]
    · rw [taken_append,← List.append_assoc,so.events,List.append_assoc]
    · intro o inside
      rcases List.mem_append.mp inside with old | new
      · exact so.lost o old
      · exact refused o new
    · simp only [so.processed,List.length_append,List.length_singleton,UInt64.ofNat_add,UInt64.ofNat_one,UInt64.add_assoc]
    · simp only [so.overflow,refusals_append,UInt64.ofNat_add,UInt64.add_assoc]
    · have one : (if invalidCommand msg then 1 else 0 : UInt64) = UInt64.ofNat (if invalidCommand msg then 1 else 0) := by
        split_ifs <;> rfl
      simp only [so.errors,one,List.countP_append,List.countP_singleton,UInt64.ofNat_add,UInt64.add_assoc]

theorem Accounted.nextEvent (so : Accounted p₀ ins₀ outs₀ account p ins outs answers) :
    ∃ account' p' outs', observe p account .nextEvent = some (account',p') ∧
      Accounted p₀ ins₀ outs₀ account' p' ins outs' answers := by
  cases outs with
  | nil =>
    have none := so.running.nextEvent_empty
    exact ⟨account,p,[],by simp [observe,none],so⟩
  | cons event rest =>
    obtain ⟨egress,popped,running⟩ := so.running.nextEvent
    refine ⟨_,_,rest,by simp only [observe,popped]; rfl,?_⟩
    refine ⟨running,so.ready,so.submissions,so.full,so.answered,so.emitted,?_,so.lost,so.processed,so.overflow,so.errors⟩
    rw [← so.events]
    simp

theorem Accounted.uses (so : Accounted p₀ ins₀ outs₀ account p ins outs answers) (uses : List Use) :
    ∃ account' p' ins' outs' answers', observeAll p account uses = some (account',p') ∧
      Accounted p₀ ins₀ outs₀ account' p' ins' outs' answers' := by
  induction uses generalizing account p ins outs answers with
  | nil => exact ⟨account,p,ins,outs,answers,rfl,so⟩
  | cons use rest ih =>
    have one : ∃ account' p' ins' outs' answers', observe p account use = some (account',p') ∧
        Accounted p₀ ins₀ outs₀ account' p' ins' outs' answers' := by
      cases use with
      | submit msg =>
        obtain ⟨account',p',ins',ran,so'⟩ := so.submit msg
        exact ⟨account',p',ins',outs,answers,ran,so'⟩
      | processNext => exact so.processNext
      | nextEvent =>
        obtain ⟨account',p',outs',ran,so'⟩ := so.nextEvent
        exact ⟨account',p',ins,outs',answers,ran,so'⟩
    obtain ⟨account₁,p₁,ins₁,outs₁,answers₁,ran,so₁⟩ := one
    obtain ⟨account',p',ins',outs',answers',later,so'⟩ := ih so₁
    refine ⟨account',p',ins',outs',answers',?_,so'⟩
    simp [observeAll,ran,later]

theorem accounted_start (running : Running p ins outs) (ready : p.operational = true) :
    Accounted p ins outs {} p ins outs [] := by
  have none (count : UInt64) : count = count + UInt64.ofNat 0 := (UInt64.add_zero count).symm
  refine ⟨running,ready,?_,?_,rfl,rfl,?_,?_,none _,none _,none _⟩
  · simp [taken]
  · intro o inside
    cases inside
  · simp [taken]
  · intro o inside
    cases inside
end

/-! ### The queues -/

section
variable {start : List (Call capacities)} {p₀ : EngineProcessor capacities}

theorem accounted_of_reached (reached : calls EngineProcessor.new start = some p₀) (ready : p₀.operational = true)
    (uses : List Use) : ∃ account p ins outs answers, observeAll p₀ {} uses = some (account,p) ∧
      Accounted p₀ p₀.ingress.contents p₀.egress.contents account p ins outs answers := by
  obtain ⟨p',ins₀,outs₀,ran,running⟩ := calls_running running_new start
  cases reached.symm.trans ran
  have first := running.ingress.elements
  have second := running.egress.elements
  subst first second
  exact (accounted_start running ready).uses uses

/-- Any calls on a processor that has been started. A ring that refuses is full, and
    then nothing changes; every message and every event that was taken is dispatched or
    popped once, in order, or waits; the counts are those of the account. -/
theorem loop_is_fifo (reached : calls EngineProcessor.new start = some p₀) (ready : p₀.operational = true)
    (uses : List Use) : ∃ account p answers, observeAll p₀ {} uses = some (account,p) ∧
      account.dispatched ++ p.ingress.contents = p₀.ingress.contents ++ taken account.submitted ∧
      (∀ o ∈ account.submitted, o.taken = false ↔ o.held = capacities.ingress.size) ∧
      (∀ msg, (p.submit msg).1 = false → (p.submit msg).2 = p) ∧
      answerAll p₀.engine account.dispatched = some (answers,p.engine) ∧
      account.emitted.map Offer.value = answers.flatten ∧
      account.popped ++ p.egress.contents = p₀.egress.contents ++ taken account.emitted ∧
      (∀ o ∈ account.emitted, o.taken = false ↔ o.held = capacities.egress.size) ∧
      p.processedCount = p₀.processedCount + UInt64.ofNat account.dispatched.length ∧
      p.egressOverflowCount = p₀.egressOverflowCount + UInt64.ofNat (refusals account.emitted) := by
  obtain ⟨account,p,ins,outs,answers,ran,so⟩ := accounted_of_reached reached ready uses
  refine ⟨account,p,answers,ran,?_,so.full,?_,so.answered,so.emitted,?_,so.lost,so.processed,so.overflow⟩
  · rw [so.running.ingress.elements]
    exact so.submissions
  · intro msg
    obtain ⟨done,ingress,pushed,_,same,_⟩ := so.running.ingress.tryPush msg
    simp only [EngineProcessor.submit,pushed]
    intro refused
    rw [same refused]
  · rw [so.running.egress.elements]
    exact so.events

end

/-- Rings of one place. -/
def single : Capacities := ⟨.four,.four,⟨1,Nat.one_pos⟩,⟨1,Nat.one_pos⟩⟩

def crossing : List Use :=
  [.submit (.newOrder ⟨1,.Sell,100,5,1⟩),.submit (.newOrder ⟨3,.Sell,100,5,3⟩),.processNext,.nextEvent,
    .submit (.newOrder ⟨2,.Buy,100,5,2⟩),.processNext]

/-- The second ask finds the ring full; of the trade and the acknowledgement of the bid
    only the trade is kept. -/
theorem loop_is_fifo_crossing :
    ∃ account p, observeAll (EngineProcessor.new : EngineProcessor single) {} crossing = some (account,p) ∧
      account.dispatched ++ p.ingress.contents = taken account.submitted ∧
      account.popped ++ p.egress.contents = taken account.emitted ∧
      account.dispatched = [.newOrder ⟨1,.Sell,100,5,1⟩,.newOrder ⟨2,.Buy,100,5,2⟩] ∧
      account.popped = [.ack ⟨1,.Accepted⟩] ∧ p.egress.contents = [.trade ⟨1,100,5,2,1⟩] ∧ p.egressOverflowCount = 1 := by
  have facts : (observeAll (EngineProcessor.new : EngineProcessor single) {} crossing).map (fun r =>
      (r.1.dispatched,r.1.popped,r.2.egress.contents)) =
      some ([.newOrder ⟨1,.Sell,100,5,1⟩,.newOrder ⟨2,.Buy,100,5,2⟩],[.ack ⟨1,.Accepted⟩],[.trade ⟨1,100,5,2,1⟩]) := by
    decide +kernel
  have lost : (observeAll (EngineProcessor.new : EngineProcessor single) {} crossing).map (fun r =>
      r.2.egressOverflowCount) = some 1 := by decide +kernel
  have reached : calls (EngineProcessor.new : EngineProcessor single) [] = some EngineProcessor.new := rfl
  obtain ⟨account,p,_,ran,submissions,_,_,_,_,events,_⟩ := loop_is_fifo reached rfl crossing
  rw [ran] at facts lost
  simp only [Option.map_some,Option.some.injEq,Prod.mk.injEq] at facts lost
  obtain ⟨dispatched,popped,kept⟩ := facts
  exact ⟨account,p,ran,submissions,events,dispatched,popped,kept,lost⟩

/-! ### Invalid messages -/

/-- A sequence of messages into which others have been inserted; these are marked. -/
def original (plan : List (BinaryMessage × Bool)) : List BinaryMessage := (plan.filter (fun m => !m.2)).map Prod.fst
def extended (plan : List (BinaryMessage × Bool)) : List BinaryMessage := plan.map Prod.fst

/-- What an invalid message is answered with. -/
def rejectOf : BinaryMessage → BinaryMessage
  | .newOrder m => .reject ⟨m.orderId,(validateNewOrder m).getD kInvalidMessageReason⟩
  | msg => .reject ⟨invalidMessageOrderId msg,kInvalidMessageReason⟩

/-- The answers of the original sequence with a reject in the place of each inserted
    message. -/
def weave : List (BinaryMessage × Bool) → List (List BinaryMessage) → List (List BinaryMessage)
  | [],_ => []
  | (msg,true) :: rest,answers => [rejectOf msg] :: weave rest answers
  | (_,false) :: rest,answers => answers.head?.toList ++ weave rest answers.tail

section
variable {maxOrders maxPriceLevels : PoolCapacity} {engine engine' : MatchingEngine maxOrders maxPriceLevels}

theorem answer_invalid (engine : MatchingEngine maxOrders maxPriceLevels) {msg : BinaryMessage}
    (invalid : invalidCommand msg = true) : answer engine msg = some ([rejectOf msg],engine) := by
  cases msg with
  | newOrder m =>
    obtain ⟨reason,checked⟩ := Option.isSome_iff_exists.mp invalid
    simp [answer,processNewOrderChecked,checked,rejectOf]
  | cancelOrder c => cases invalid
  | trade t => rfl
  | ack a => rfl
  | reject r => rfl

theorem answerAll_weave {plan : List (BinaryMessage × Bool)}
    (invalid : ∀ m ∈ plan, m.2 = true → invalidCommand m.1 = true) {answers : List (List BinaryMessage)}
    (ran : answerAll engine (original plan) = some (answers,engine')) :
    answerAll engine (extended plan) = some (weave plan answers,engine') := by
  induction plan generalizing engine answers with
  | nil =>
    obtain ⟨rfl,rfl⟩ := Prod.mk.inj (Option.some.inj ran)
    rfl
  | cons head rest ih =>
    obtain ⟨msg,inserted⟩ := head
    have later : ∀ m ∈ rest, m.2 = true → invalidCommand m.1 = true :=
      fun m inside => invalid m (List.mem_cons_of_mem _ inside)
    cases inserted with
    | true =>
      have answered := answer_invalid engine (invalid (msg,true) List.mem_cons_self rfl)
      have done := ih later ran
      simp only [extended] at done
      simp [extended,answerAll,answered,done,weave]
    | false =>
      simp only [original,List.filter_cons,Bool.not_false,if_true,List.map_cons,answerAll,Option.bind_eq_bind,
        Option.bind_eq_some_iff] at ran
      obtain ⟨⟨events,engine₁⟩,answered,⟨rest',engine₂⟩,ran',same⟩ := ran
      obtain ⟨rfl,rfl⟩ := Prod.mk.inj (Option.some.inj same)
      have done := ih later ran'
      simp only [extended] at done
      simp [extended,answerAll,answered,done,weave]
end

/-- Two runs of one processor, in which no event is refused; the second one dispatches
    the messages of the first and invalid ones between them. Each of these is answered
    with one reject in its place, and the rest of the events and the engine are the same. -/
theorem invalid_messages_invisible {start : List (Call capacities)} {p₀ p p' : EngineProcessor capacities}
    {plan : List (BinaryMessage × Bool)} {uses uses' : List Use} {account account' : Account}
    (reached : calls EngineProcessor.new start = some p₀) (ready : p₀.operational = true)
    (invalid : ∀ m ∈ plan, m.2 = true → invalidCommand m.1 = true)
    (ran : observeAll p₀ {} uses = some (account,p)) (ran' : observeAll p₀ {} uses' = some (account',p'))
    (dispatched : account.dispatched = original plan) (dispatched' : account'.dispatched = extended plan)
    (kept : ∀ o ∈ account.emitted, o.taken = true) (kept' : ∀ o ∈ account'.emitted, o.taken = true) :
    (∃ answers, answerAll p₀.engine (original plan) = some (answers,p.engine) ∧ answers.length = (original plan).length ∧
      account.popped ++ p.egress.contents = p₀.egress.contents ++ answers.flatten ∧
      account'.popped ++ p'.egress.contents = p₀.egress.contents ++ (weave plan answers).flatten) ∧
    p'.engine = p.engine ∧
    p.errorEventCount = p₀.errorEventCount + UInt64.ofNat ((original plan).countP invalidCommand) ∧
    p'.errorEventCount = p₀.errorEventCount + UInt64.ofNat ((extended plan).countP invalidCommand) := by
  obtain ⟨_,_,_,_,answers,found,so⟩ := accounted_of_reached reached ready uses
  cases ran.symm.trans found
  obtain ⟨_,_,_,_,answers',found',so'⟩ := accounted_of_reached reached ready uses'
  cases ran'.symm.trans found'
  have first := so.answered
  have second := so'.answered
  rw [dispatched] at first
  rw [dispatched',answerAll_weave invalid first] at second
  obtain ⟨rfl,engine⟩ := Prod.mk.inj (Option.some.inj second)
  obtain ⟨_,_,_,ran₀,running⟩ := calls_running running_new start
  cases reached.symm.trans ran₀
  obtain ⟨_,_,answered,_,length,_⟩ := answerAll_orderly running.orderly (original plan)
  cases first.symm.trans answered
  refine ⟨⟨answers,first,length,?_,?_⟩,engine.symm,?_,?_⟩
  · rw [so.running.egress.elements,so.events,taken_all kept,so.emitted]
  · rw [so'.running.egress.elements,so'.events,taken_all kept',so'.emitted]
  · rw [so.errors,dispatched]
  · rw [so'.errors,dispatched']

/-- An order without quantity and an acknowledgement before, and a price of zero behind
    an order that rests. -/
def strewn : List (BinaryMessage × Bool) :=
  [(.newOrder ⟨7,.Buy,100,0,1⟩,true),(.newOrder ⟨1,.Sell,100,5,1⟩,false),(.ack ⟨4,.Accepted⟩,true),
    (.newOrder ⟨8,.Buy,0,5,1⟩,true)]

def feed (msgs : List BinaryMessage) : List Use := msgs.flatMap (fun msg => [.submit msg,.processNext,.nextEvent])

theorem invalid_messages_invisible_strewn :
    ∃ account account' : Account, ∃ p p' : EngineProcessor single,
      observeAll EngineProcessor.new {} (feed (original strewn)) = some (account,p) ∧
      observeAll EngineProcessor.new {} (feed (extended strewn)) = some (account',p') ∧
      account.popped = [.ack ⟨1,.Accepted⟩] ∧
      account'.popped = [.reject ⟨7,.InvalidQuantity⟩,.ack ⟨1,.Accepted⟩,.reject ⟨4,.IntegrityViolation⟩,
        .reject ⟨8,.InvalidPrice⟩] ∧
      p'.engine = p.engine ∧ p'.errorEventCount = 3 := by
  have facts : (observeAll (EngineProcessor.new : EngineProcessor single) {} (feed (original strewn))).map (fun r =>
      decide (r.1.popped = [.ack ⟨1,.Accepted⟩] ∧ r.1.dispatched = original strewn ∧
        ∀ o ∈ r.1.emitted, o.taken = true)) = some true := by decide +kernel
  have facts' : (observeAll (EngineProcessor.new : EngineProcessor single) {} (feed (extended strewn))).map (fun r =>
      decide (r.1.popped = [.reject ⟨7,.InvalidQuantity⟩,.ack ⟨1,.Accepted⟩,.reject ⟨4,.IntegrityViolation⟩,
          .reject ⟨8,.InvalidPrice⟩] ∧ r.1.dispatched = extended strewn ∧
        ∀ o ∈ r.1.emitted, o.taken = true)) = some true := by decide +kernel
  obtain ⟨⟨account,p⟩,ran,first⟩ := Option.map_eq_some_iff.mp facts
  obtain ⟨⟨account',p'⟩,ran',second⟩ := Option.map_eq_some_iff.mp facts'
  obtain ⟨popped,dispatched,kept⟩ := of_decide_eq_true first
  obtain ⟨popped',dispatched',kept'⟩ := of_decide_eq_true second
  have reached : calls (EngineProcessor.new : EngineProcessor single) [] = some EngineProcessor.new := rfl
  obtain ⟨_,engine,_,errors⟩ :=
    invalid_messages_invisible reached rfl (by decide) ran ran' dispatched dispatched' kept kept'
  exact ⟨account,account',p,p',ran,ran',popped,popped',engine,errors⟩

end HyperMatch.Processing
