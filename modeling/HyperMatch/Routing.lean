import HyperMatch.Conservation
import HyperMatch.DataPath

/-!
What many connections send, in the order in which their bytes arrive. Each byte on
an open connection extends the frame of that connection and may complete it; the
pipeline answers the completed messages in this order and sends every answer to the
socket that completed its message.
-/
namespace HyperMatch.Routing
open HyperMatch.Wire HyperMatch.OrderBook HyperMatch.MatchingEngine HyperMatch.Processing HyperMatch.FrameBuffer
open HyperMatch.DataPath
open HyperMatch.WireFormat (bytesOf)
set_option linter.unusedSimpArgs false

/-! ### Arrivals -/

/-- A connection is opened or closed on a socket, or a byte arrives there. -/
inductive Arrival where
  | opened (fd : SocketHandle)
  | closed (fd : SocketHandle)
  | byte (fd : SocketHandle) (byte : UInt8)
  deriving Repr, DecidableEq

/-- A message, and the connection and socket of the byte that completes it.
    Connections are numbered as they are opened. -/
structure Completion where
  connection : Nat
  fd : SocketHandle
  msg : BinaryMessage
  deriving Repr, DecidableEq

/-- The open connections with their unfinished frames. -/
structure Wires where
  lines : SocketHandle → Option (Nat × List UInt8)
  opened : Nat

def Wires.new : Wires := ⟨fun _ => none,0⟩

def arrive (w : Wires) : Arrival → List Completion × Wires
  | .opened fd => ([],⟨Function.update w.lines fd (some (w.opened,[])),w.opened + 1⟩)
  | .closed fd => ([],{ w with lines := Function.update w.lines fd none })
  | .byte fd byte =>
    match w.lines fd with
    | none => ([],w)
    | some (n,unfinished) =>
      match readByte unfinished byte with
      | none => ([],{ w with lines := Function.update w.lines fd none })
      | some (unfinished,msg) =>
        (msg.toList.map (fun m => ⟨n,fd,m⟩),{ w with lines := Function.update w.lines fd (some (n,unfinished)) })

/-- The completions of a sequence of arrivals. -/
def arriveAll (w : Wires) : List Arrival → List Completion × Wires
  | [] => ([],w)
  | a :: rest => ((arrive w a).1 ++ (arriveAll (arrive w a).2 rest).1,(arriveAll (arrive w a).2 rest).2)

theorem arriveAll_append (w : Wires) (first second : List Arrival) :
    arriveAll w (first ++ second) =
      ((arriveAll w first).1 ++ (arriveAll (arriveAll w first).2 second).1,(arriveAll (arriveAll w first).2 second).2) := by
  induction first generalizing w with
  | nil => rfl
  | cons a rest ih => simp only [List.cons_append,arriveAll,ih,List.append_assoc]

/-- Bytes on one socket. -/
theorem arriveAll_bytes (w : Wires) (fd : SocketHandle) (bytes : List UInt8) :
    arriveAll w (bytes.map (.byte fd)) =
      match w.lines fd with
      | none => ([],w)
      | some (n,unfinished) =>
        ((readBytes unfinished bytes).1.map (fun m => ⟨n,fd,m⟩),
          { w with lines := Function.update w.lines fd ((readBytes unfinished bytes).2.map (fun last => (n,last))) }) := by
  induction bytes generalizing w with
  | nil =>
    cases here : w.lines fd with
    | none => rfl
    | some line =>
      simp only [List.map_nil,arriveAll,readBytes,Option.map_some]
      rw [← here,Function.update_eq_self]
  | cons byte rest ih =>
    rw [List.map_cons,arriveAll,ih]
    cases here : w.lines fd with
    | none => simp [arrive,here]
    | some line =>
      obtain ⟨n,unfinished⟩ := line
      cases read : readByte unfinished byte with
      | none => simp [arrive,here,read,readBytes]
      | some r => simp [arrive,here,read,readBytes]

/-! ### The stream of a connection -/

/-- The bytes on a socket until a connection is closed or opened there. -/
def bytesUntilClosed (fd : SocketHandle) : List Arrival → List UInt8
  | [] => []
  | .opened g :: rest => if g = fd then [] else bytesUntilClosed fd rest
  | .closed g :: rest => if g = fd then [] else bytesUntilClosed fd rest
  | .byte g byte :: rest => if g = fd then byte :: bytesUntilClosed fd rest else bytesUntilClosed fd rest

/-- The bytes of the connection that is opened after that many others. -/
def streamOf : Nat → List Arrival → List UInt8
  | _,[] => []
  | 0,.opened fd :: rest => bytesUntilClosed fd rest
  | n+1,.opened _ :: rest => streamOf n rest
  | n,.closed _ :: rest => streamOf n rest
  | n,.byte _ _ :: rest => streamOf n rest

/-- The messages of one connection. -/
def madeBy (n : Nat) (completions : List Completion) : List BinaryMessage :=
  (completions.filter (fun c => decide (c.connection = n))).map Completion.msg

theorem madeBy_append (n : Nat) (first second : List Completion) :
    madeBy n (first ++ second) = madeBy n first ++ madeBy n second := by
  rw [madeBy,List.filter_append,List.map_append]
  rfl

theorem madeBy_map (n k : Nat) (fd : SocketHandle) (msgs : List BinaryMessage) :
    madeBy n (msgs.map (fun m => ⟨k,fd,m⟩)) = if k = n then msgs else [] := by
  rw [madeBy,List.filter_map,List.map_map]
  split_ifs with same
  · rw [List.filter_eq_self.mpr (by simp [same])]
    simp [Function.comp_def]
  · rw [List.filter_eq_nil_iff.mpr (by simp [same])]
    rfl

/-- Open connections have numbers that were given out, each its own. -/
structure Numbered (w : Wires) : Prop where
  given : ∀ fd n unfinished, w.lines fd = some (n,unfinished) → n < w.opened
  apart : ∀ fd g n unfinished other, w.lines fd = some (n,unfinished) → w.lines g = some (n,other) → fd = g

theorem numbered_new : Numbered Wires.new := by
  constructor
  · intro fd n unfinished line
    cases line
  · intro fd g n unfinished other line
    cases line

/-- A line that is closed, or goes on under its number. -/
theorem Numbered.update {w : Wires} (numbered : Numbered w) {fd : SocketHandle} {new : Option (Nat × List UInt8)}
    (same : ∀ n unfinished, new = some (n,unfinished) → ∃ before, w.lines fd = some (n,before)) :
    Numbered { w with lines := Function.update w.lines fd new } := by
  have old : ∀ g n unfinished, Function.update w.lines fd new g = some (n,unfinished) →
      ∃ before, w.lines g = some (n,before) := by
    intro g n unfinished line
    by_cases here : g = fd
    · subst here
      rw [Function.update_self] at line
      exact same n unfinished line
    · rw [Function.update_of_ne here] at line
      exact ⟨unfinished,line⟩
  constructor
  · intro g n unfinished line
    obtain ⟨before,was⟩ := old g n unfinished line
    exact numbered.given g n before was
  · intro g h n unfinished other line line'
    obtain ⟨before,was⟩ := old g n unfinished line
    obtain ⟨before',was'⟩ := old h n other line'
    exact numbered.apart g h n before before' was was'

theorem arrive_numbered {w : Wires} (numbered : Numbered w) (a : Arrival) : Numbered (arrive w a).2 := by
  cases a with
  | opened fd =>
    have cases : ∀ g n unfinished, Function.update w.lines fd (some (w.opened,[])) g = some (n,unfinished) →
        (g = fd ∧ n = w.opened) ∨ w.lines g = some (n,unfinished) := by
      intro g n unfinished line
      by_cases here : g = fd
      · subst here
        rw [Function.update_self] at line
        exact .inl ⟨rfl,(Prod.mk.inj (Option.some.inj line)).1.symm⟩
      · rw [Function.update_of_ne here] at line
        exact .inr line
    constructor
    · intro g n unfinished line
      rcases cases g n unfinished line with ⟨_,rfl⟩ | old
      · exact Nat.lt_succ_self _
      · exact Nat.lt_succ_of_lt (numbered.given g n unfinished old)
    · intro g h n unfinished other line line'
      rcases cases g n unfinished line with ⟨rfl,rfl⟩ | old
      · rcases cases h _ other line' with ⟨rfl,_⟩ | old'
        · rfl
        · exact absurd (numbered.given h _ other old') (Nat.lt_irrefl _)
      · rcases cases h n other line' with ⟨rfl,rfl⟩ | old'
        · exact absurd (numbered.given g _ unfinished old) (Nat.lt_irrefl _)
        · exact numbered.apart g h n unfinished other old old'
  | closed fd => exact numbered.update (fun n unfinished line => by cases line)
  | byte fd byte =>
    cases here : w.lines fd with
    | none => simpa [arrive,here] using numbered
    | some line =>
      obtain ⟨n,unfinished⟩ := line
      cases read : readByte unfinished byte with
      | none =>
        simp only [arrive,here,read]
        exact numbered.update (fun m after line => by cases line)
      | some r =>
        simp only [arrive,here,read]
        refine numbered.update ?_
        intro m after line
        obtain ⟨rfl,_⟩ := Prod.mk.inj (Option.some.inj line)
        exact ⟨unfinished,here⟩

/-! ### What a connection completes -/

section
variable {w : Wires} {n : Nat}

theorem arriveAll_cons (w : Wires) (a : Arrival) (rest : List Arrival) :
    madeBy n (arriveAll w (a :: rest)).1 = madeBy n (arrive w a).1 ++ madeBy n (arriveAll (arrive w a).2 rest).1 := by
  rw [arriveAll,madeBy_append]

/-- A byte of another connection completes nothing of this one, opens nothing, and
    leaves the lines of other sockets alone. -/
theorem arrive_byte_other (fd : SocketHandle) (byte : UInt8) (other : ∀ unfinished, w.lines fd ≠ some (n,unfinished)) :
    madeBy n (arrive w (.byte fd byte)).1 = [] ∧ (arrive w (.byte fd byte)).2.opened = w.opened ∧
      (∀ g ≠ fd, (arrive w (.byte fd byte)).2.lines g = w.lines g) ∧
      ∀ unfinished, (arrive w (.byte fd byte)).2.lines fd ≠ some (n,unfinished) := by
  cases here : w.lines fd with
  | none => simp [arrive,here,madeBy]
  | some line =>
    obtain ⟨k,unfinished⟩ := line
    have apart : k ≠ n := by
      rintro rfl
      exact other unfinished here
    cases read : readByte unfinished byte with
    | none =>
      simp only [arrive,here,read,Function.update_self]
      exact ⟨rfl,trivial,fun g away => Function.update_of_ne away _ _,by simp⟩
    | some r =>
      simp only [arrive,here,read,Function.update_self]
      refine ⟨by rw [madeBy_map,if_neg apart],trivial,fun g away => Function.update_of_ne away _ _,?_⟩
      intro after same
      exact apart (Prod.mk.inj (Option.some.inj same)).1

/-- A connection that is closed completes nothing any more. -/
theorem madeBy_closed (given : n < w.opened) (closed : ∀ fd unfinished, w.lines fd ≠ some (n,unfinished))
    (arrivals : List Arrival) : madeBy n (arriveAll w arrivals).1 = [] := by
  induction arrivals generalizing w with
  | nil => rfl
  | cons a rest ih =>
    rw [arriveAll_cons]
    cases a with
    | opened fd =>
      refine ih (Nat.lt_succ_of_lt given) ?_
      intro g unfinished
      by_cases here : g = fd
      · simp only [arrive,here,Function.update_self]
        intro same
        exact absurd (Prod.mk.inj (Option.some.inj same)).1 (Nat.ne_of_gt given)
      · simp only [arrive,Function.update_of_ne here]
        exact closed g unfinished
    | closed fd =>
      refine ih given ?_
      intro g unfinished
      by_cases here : g = fd
      · simp [arrive,here]
      · simp only [arrive,Function.update_of_ne here]
        exact closed g unfinished
    | byte fd byte =>
      obtain ⟨nothing,opened,others,still⟩ := arrive_byte_other fd byte (closed fd)
      rw [nothing,List.nil_append]
      refine ih (by rw [opened]; exact given) ?_
      intro g unfinished
      by_cases here : g = fd
      · rw [here]
        exact still unfinished
      · rw [others g here]
        exact closed g unfinished

/-- Without the line that has its number a connection is closed. -/
theorem Numbered.closed_of_update (numbered : Numbered w) {fd : SocketHandle} {unfinished : List UInt8}
    (line : w.lines fd = some (n,unfinished)) {new : Option (Nat × List UInt8)} (gone : ∀ after, new ≠ some (n,after)) :
    ∀ g after, Function.update w.lines fd new g ≠ some (n,after) := by
  intro g after
  by_cases here : g = fd
  · rw [here,Function.update_self]
    exact gone after
  · rw [Function.update_of_ne here]
    intro same
    exact here (numbered.apart g fd n after unfinished same line)

/-- An open connection completes what its socket brings until it is closed. -/
theorem madeBy_open (numbered : Numbered w) {fd : SocketHandle} {unfinished : List UInt8}
    (line : w.lines fd = some (n,unfinished)) (arrivals : List Arrival) :
    madeBy n (arriveAll w arrivals).1 = (readBytes unfinished (bytesUntilClosed fd arrivals)).1 := by
  have given := numbered.given fd n unfinished line
  induction arrivals generalizing w unfinished with
  | nil => rfl
  | cons a rest ih =>
    have numbered' := arrive_numbered numbered a
    rw [arriveAll_cons]
    cases a with
    | opened g =>
      rw [bytesUntilClosed]
      split_ifs with here
      · subst here
        refine madeBy_closed (Nat.lt_succ_of_lt given) (numbered.closed_of_update line ?_) rest
        intro after same
        exact absurd (Prod.mk.inj (Option.some.inj same)).1 (Nat.ne_of_gt given)
      · refine ih numbered' ?_ (Nat.lt_succ_of_lt given)
        simp only [arrive,Function.update_of_ne (Ne.symm here)]
        exact line
    | closed g =>
      rw [bytesUntilClosed]
      split_ifs with here
      · subst here
        exact madeBy_closed (w := ⟨Function.update w.lines g none,w.opened⟩) given
          (numbered.closed_of_update line (fun after => by simp)) rest
      · refine ih numbered' ?_ given
        simp only [arrive,Function.update_of_ne (Ne.symm here)]
        exact line
    | byte g byte =>
      rw [bytesUntilClosed]
      split_ifs with here
      · subst here
        rw [readBytes]
        cases read : readByte unfinished byte with
        | none =>
          simp only [arrive,line,read]
          exact madeBy_closed (w := ⟨Function.update w.lines g none,w.opened⟩) given
            (numbered.closed_of_update line (fun after => by simp)) rest
        | some r =>
          simp only [arrive,line,read] at numbered' ⊢
          rw [madeBy_map,if_pos rfl]
          exact congrArg (r.2.toList ++ ·) (ih numbered' (Function.update_self _ _ _) given)
      · have other : ∀ after, w.lines g ≠ some (n,after) := by
          intro after same
          exact here (numbered.apart g fd n after unfinished same line)
        obtain ⟨nothing,opened,others,_⟩ := arrive_byte_other g byte other
        rw [nothing,List.nil_append]
        refine ih numbered' ?_ (by rw [opened]; exact given)
        rw [others fd (Ne.symm here)]
        exact line

/-- A connection that is opened later completes what its own stream brings. -/
theorem madeBy_later (numbered : Numbered w) (k : Nat) (arrivals : List Arrival) :
    madeBy (w.opened + k) (arriveAll w arrivals).1 = (readBytes [] (streamOf k arrivals)).1 := by
  induction arrivals generalizing w k with
  | nil => cases k <;> rfl
  | cons a rest ih =>
    have numbered' := arrive_numbered numbered a
    rw [arriveAll_cons]
    cases a with
    | opened fd =>
      cases k with
      | zero => exact madeBy_open numbered' (Function.update_self _ _ _) rest
      | succ k =>
        have later := ih numbered' k
        simp only [arrive,Nat.add_assoc,Nat.add_comm 1 k] at later
        exact later
    | closed fd => cases k <;> exact ih numbered' _
    | byte fd byte =>
      have other : ∀ after, w.lines fd ≠ some (w.opened + k,after) := by
        intro after same
        have given := numbered.given fd _ after same
        omega
      obtain ⟨nothing,opened,_,_⟩ := arrive_byte_other fd byte other
      have later := ih numbered' k
      rw [opened] at later
      rw [nothing,List.nil_append,later]
      cases k <;> rfl
end

/-! ### Runs -/

/-- A call on a pipeline that is started. -/
inductive Action where
  | accept (fd : SocketHandle)
  | teardown (fd : SocketHandle) (reason : TeardownReason)
  | submitClientBytes (fd : SocketHandle) (bytes : List UInt8)
  deriving Repr, DecidableEq

section
variable {capacities : Capacities}

/-- What `out` is given, and the pipeline after the call. -/
def act (s : ServerPipeline capacities) :
    Action → Option (List (SocketHandle × List UInt8) × ServerPipeline capacities)
  | .accept fd => some ([],(s.accept fd).2)
  | .teardown fd reason => some ([],s.teardown fd reason)
  | .submitClientBytes fd bytes => (s.submitClientBytes fd bytes).map Prod.snd

/-- A call of a run. -/
structure Step (capacities : Capacities) where
  before : ServerPipeline capacities
  action : Action
  outs : List (SocketHandle × List UInt8)
  after : ServerPipeline capacities

/-- The calls of a run and the pipeline at its end. -/
def serve (s : ServerPipeline capacities) : List Action → Option (List (Step capacities) × ServerPipeline capacities)
  | [] => some ([],s)
  | action :: rest => do
    let (outs,after) ← act s action
    let (steps,last) ← serve after rest
    return (⟨s,action,outs,after⟩ :: steps,last)

/-- The descriptor that `accept` is given is not registered. -/
def Fresh (s : ServerPipeline capacities) : Action → Prop
  | .accept fd => s.registry.isRegistered fd = false
  | _ => True

instance (s : ServerPipeline capacities) (action : Action) : Decidable (Fresh s action) :=
  match action with
  | .accept fd => inferInstanceAs (Decidable (s.registry.isRegistered fd = false))
  | .teardown _ _ => .isTrue trivial
  | .submitClientBytes _ _ => .isTrue trivial

/-- The rings take every push of the call. -/
def Taken (s : ServerPipeline capacities) : Action → Prop
  | .submitClientBytes fd bytes => refused s fd bytes = 0
  | _ => True

instance (s : ServerPipeline capacities) (action : Action) : Decidable (Taken s action) :=
  match action with
  | .submitClientBytes fd bytes => inferInstanceAs (Decidable (refused s fd bytes = 0))
  | .accept _ => .isTrue trivial
  | .teardown _ _ => .isTrue trivial

/-- What arrives with a call. -/
def arrivals (s : ServerPipeline capacities) : Action → List Arrival
  | .accept fd => if (s.accept fd).1 = .Registered then [.opened fd] else []
  | .teardown fd _ => [.closed fd]
  | .submitClientBytes fd bytes => bytes.map (.byte fd)

/-- A pipeline as it is before its first connection. -/
def started (maxConnections : UInt32) (configs : List (EngineConfig capacities)) : ServerPipeline capacities :=
  configs.foldl (fun s config => (s.initializeWith config).2) (ServerPipeline.new maxConnections)

/-- The pipelines that any sequence of calls can lead to. -/
inductive Reached (maxConnections : UInt32) : ServerPipeline capacities → Prop where
  | new : Reached maxConnections (ServerPipeline.new maxConnections)
  | initializeWith {s : ServerPipeline capacities} (config : EngineConfig capacities) :
    Reached maxConnections s → Reached maxConnections (s.initializeWith config).2
  | act {s s' : ServerPipeline capacities} {outs : List (SocketHandle × List UInt8)} (action : Action) :
    Reached maxConnections s → act s action = some (outs,s') → Reached maxConnections s'

/-- The invariant of a pipeline between two calls, operational or not. -/
structure Idle (s : ServerPipeline capacities) : Prop where
  running : Running s.processor [] []
  framed : Framed s.registry

theorem Idle.serving {s : ServerPipeline capacities} (idle : Idle s) (ready : s.processor.operational = true) :
    Serving s := ⟨idle.running,ready,idle.framed⟩

theorem idle_of_serving {s : ServerPipeline capacities} (serving : Serving s) : Idle s := ⟨serving.running,serving.framed⟩

theorem accept_framed {registry : ConnectionRegistry} (framed : Framed registry) (fd : SocketHandle) :
    Framed (registry.accept fd).2 := by
  by_cases registered : (registry.accept fd).1 = .Registered
  · cases fresh : registry.isRegistered fd with
    | false => exact (accept_registered registered fresh framed).1
    | true =>
      -- The entry that is there stays.
      intro x framer found
      refine framed x framer ?_
      rw [← found]
      by_cases full : registry.connections.length ≥ registry.maxConnections.toNat
      · rw [ConnectionRegistry.accept,if_pos full] at registered
        cases registered
      · rw [ConnectionRegistry.accept,if_neg full,fresh]
        rfl
  · exact (accept_rejected registered framed).1

theorem submitClientBytes_stopped {s : ServerPipeline capacities} (stopped : s.processor.operational = false)
    (fd : SocketHandle) (bytes : List UInt8) : s.submitClientBytes fd bytes = some (.Closed,[],s) := by
  rw [ServerPipeline.submitClientBytes,stopped]
  rfl

/-- Every call returns. -/
theorem act_returns {s : ServerPipeline capacities} (idle : Idle s) (action : Action) :
    ∃ outs s', act s action = some (outs,s') ∧ Idle s' ∧ s'.processor.operational = s.processor.operational := by
  cases action with
  | accept fd => exact ⟨_,_,rfl,⟨idle.running,accept_framed idle.framed fd⟩,rfl⟩
  | teardown fd reason => exact ⟨_,_,rfl,⟨idle.running,idle.framed.teardown fd reason⟩,rfl⟩
  | submitClientBytes fd bytes =>
    cases ready : s.processor.operational with
    | false =>
      refine ⟨[],s,?_,idle,ready⟩
      rw [act,submitClientBytes_stopped ready]
      rfl
    | true =>
      obtain ⟨answers,status,s',_,submitted,serving',_⟩ := submitClientBytes_spec (idle.serving ready) fd bytes
      refine ⟨framesFor fd (answers.flatten.take capacities.egress.size),s',?_,idle_of_serving serving',serving'.ready⟩
      rw [act,submitted]
      rfl

theorem reached_idle {maxConnections : UInt32} {s : ServerPipeline capacities} (reached : Reached maxConnections s) :
    Idle s := by
  induction reached with
  | new => exact idle_of_serving (serving_new maxConnections)
  | initializeWith config _ ih => exact ⟨ih.running.initializeWith config,ih.framed⟩
  | act action _ acted ih =>
    obtain ⟨outs,s',returned,idle,_⟩ := act_returns ih action
    rw [acted] at returned
    obtain ⟨_,rfl⟩ := Prod.mk.inj (Option.some.inj returned)
    exact idle
end

/-! ### What a run sends -/

/-- The frames of the answers, each for the socket that completed the message. -/
def framesOf (completions : List Completion) (answers : List (List BinaryMessage)) : List (SocketHandle × List UInt8) :=
  (completions.zip answers).flatMap (fun r => framesFor r.1.fd r.2)

/-- The engine answers the completed messages one after the other, and all the
    answers are sent. -/
def Answered {maxOrders maxPriceLevels : PoolCapacity} (engine : MatchingEngine maxOrders maxPriceLevels)
    (completions : List Completion) (outs : List (SocketHandle × List UInt8))
    (engine' : MatchingEngine maxOrders maxPriceLevels) : Prop :=
  ∃ answers, answerAll engine (completions.map Completion.msg) = some (answers,engine') ∧
    answers.length = completions.length ∧ outs = framesOf completions answers

section
variable {maxOrders maxPriceLevels : PoolCapacity} {engine engine₁ engine₂ : MatchingEngine maxOrders maxPriceLevels}

theorem answered_nil : Answered engine [] [] engine := ⟨[],rfl,rfl,rfl⟩

theorem Answered.append {completions later : List Completion} {outs outs' : List (SocketHandle × List UInt8)}
    (answered : Answered engine completions outs engine₁) (answered' : Answered engine₁ later outs' engine₂) :
    Answered engine (completions ++ later) (outs ++ outs') engine₂ := by
  obtain ⟨answers,ran,length,rfl⟩ := answered
  obtain ⟨answers',ran',length',rfl⟩ := answered'
  refine ⟨answers ++ answers',?_,?_,?_⟩
  · rw [List.map_append,answerAll_append,ran]
    simp [ran']
  · rw [List.length_append,List.length_append,length,length']
  · rw [framesOf,framesOf,framesOf,List.zip_append length.symm,List.flatMap_append]

/-- Messages that are all completed on one socket. -/
theorem framesOf_map (n : Nat) (fd : SocketHandle) {msgs : List BinaryMessage} {answers : List (List BinaryMessage)}
    (length : answers.length = msgs.length) :
    framesOf (msgs.map (fun m => ⟨n,fd,m⟩)) answers = framesFor fd answers.flatten := by
  induction msgs generalizing answers with
  | nil =>
    obtain rfl := List.eq_nil_of_length_eq_zero length
    rfl
  | cons msg rest ih =>
    obtain ⟨events,later,rfl⟩ := List.exists_cons_of_length_eq_add_one length
    have tail := ih (show later.length = rest.length by simpa using length)
    rw [framesOf] at tail ⊢
    rw [List.map_cons,List.zip_cons_cons,List.flatMap_cons,tail,List.flatten_cons,framesFor,framesFor,framesFor,
      List.map_append]
end

section
variable {capacities : Capacities} {s : ServerPipeline capacities} {w : Wires}

/-- The connections of a pipeline are the open lines, with the same unfinished
    frames. -/
def Lines (s : ServerPipeline capacities) (w : Wires) : Prop :=
  ∀ fd, unfinishedOf s.registry fd = (w.lines fd).map Prod.snd

/-- The lines after a socket's line has changed. -/
theorem Lines.update {s' : ServerPipeline capacities} (lines : Lines s w) {fd : SocketHandle} {line : Option (Nat × List UInt8)}
    (changed : unfinishedOf s'.registry = Function.update (unfinishedOf s.registry) fd (line.map Prod.snd)) (opened : Nat) :
    Lines s' ⟨Function.update w.lines fd line,opened⟩ := by
  intro x
  rw [changed]
  by_cases here : x = fd
  · rw [here]
    simp only [Function.update_self]
  · rw [Function.update_of_ne here]
    simp only [Function.update_of_ne here]
    exact lines x

/-- A call whose pushes are all taken answers the messages that it completes. -/
theorem act_routes {s' : ServerPipeline capacities} {action : Action} {outs : List (SocketHandle × List UInt8)} (serving : Serving s)
    (lines : Lines s w) (acted : act s action = some (outs,s')) (fresh : Fresh s action)
    (taken : Taken s action) :
    Answered s.processor.engine (arriveAll w (arrivals s action)).1 outs s'.processor.engine ∧
      s'.processor.processedCount =
        s.processor.processedCount + UInt64.ofNat (arriveAll w (arrivals s action)).1.length ∧
      Lines s' (arriveAll w (arrivals s action)).2 := by
  cases action with
  | accept fd =>
    obtain ⟨rfl,rfl⟩ := Prod.mk.inj (Option.some.inj acted)
    rw [arrivals]
    split_ifs with registered
    · refine ⟨answered_nil,(UInt64.add_zero _).symm,?_⟩
      exact lines.update (accept_registered registered fresh serving.framed).2 _
    · refine ⟨answered_nil,(UInt64.add_zero _).symm,?_⟩
      intro x
      exact (congrFun (accept_rejected registered serving.framed).2 x).trans (lines x)
  | teardown fd reason =>
    obtain ⟨rfl,rfl⟩ := Prod.mk.inj (Option.some.inj acted)
    exact ⟨answered_nil,(UInt64.add_zero _).symm,lines.update (unfinishedOf_teardown fd reason) _⟩
  | submitClientBytes fd bytes =>
    obtain ⟨answers,status,s₁,answered,submitted,_,after,count,_,_,lost⟩ := submitClientBytes_spec serving fd bytes
    rw [Taken,lost] at taken
    rw [act,submitted] at acted
    obtain ⟨rfl,rfl⟩ := Prod.mk.inj (Option.some.inj acted)
    rw [List.take_of_length_le (by omega)] at answered
    obtain ⟨_,_,again,_,length,_⟩ := answerAll_orderly serving.running.orderly (completed (unfinishedOf s.registry fd) bytes)
    rw [answered] at again
    obtain ⟨rfl,_⟩ := Prod.mk.inj (Option.some.inj again)
    rw [List.take_of_length_le (by omega),arrivals]
    simp only [arriveAll_bytes]
    rw [lines fd] at after answered length
    cases here : w.lines fd with
    | none =>
      rw [here] at after answered length
      obtain rfl := List.eq_nil_of_length_eq_zero length
      refine ⟨⟨[],answered,rfl,rfl⟩,count,?_⟩
      intro x
      rw [after,← lines x]
      by_cases same : x = fd
      · rw [same,Function.update_self,lines fd,here]
        rfl
      · rw [Function.update_of_ne same]
    | some line =>
      obtain ⟨n,unfinished⟩ := line
      rw [here] at after answered length
      refine ⟨⟨answers,?_,?_,(framesOf_map n fd length).symm⟩,?_,?_⟩
      · rw [List.map_map]
        exact (congrArg _ (List.map_id _)).trans answered
      · rw [List.length_map]
        exact length
      · rw [List.length_map,count,length]
        rfl
      · refine lines.update ?_ _
        rw [after,Option.map_map]
        exact congrArg _ Option.map_id'.symm
end

section
variable {capacities : Capacities}

/-- Every run returns, and between its calls both rings are empty. -/
theorem serve_returns {s : ServerPipeline capacities} (idle : Idle s) (actions : List Action) :
    ∃ steps last, serve s actions = some (steps,last) ∧ ∀ r ∈ steps, Idle r.after := by
  induction actions generalizing s with
  | nil => exact ⟨[],s,rfl,by simp⟩
  | cons action rest ih =>
    obtain ⟨outs,after,acted,idle',_⟩ := act_returns idle action
    obtain ⟨steps,last,served,between⟩ := ih idle'
    refine ⟨⟨s,action,outs,after⟩ :: steps,last,by simp [serve,acted,served],?_⟩
    intro r inside
    rcases List.mem_cons.mp inside with rfl | old
    · exact idle'
    · exact between r old

theorem Idle.rings_empty {s : ServerPipeline capacities} (idle : Idle s) :
    s.processor.ingress.empty = true ∧ s.processor.egress.empty = true := by
  rw [RingBuffer.empty,RingBuffer.empty,idle.running.ingress.length,idle.running.egress.length]
  exact ⟨rfl,rfl⟩

/-- What arrives during a run. -/
def arrivalsOf (steps : List (Step capacities)) : List Arrival := steps.flatMap (fun r => arrivals r.before r.action)

theorem arrivalsOf_cons (s after : ServerPipeline capacities) (action : Action) (outs : List (SocketHandle × List UInt8))
    (steps : List (Step capacities)) :
    arrivalsOf (⟨s,action,outs,after⟩ :: steps) = arrivals s action ++ arrivalsOf steps := by
  rw [arrivalsOf,List.flatMap_cons]
  rfl

/-- The calls of `accept` are given fresh descriptors, and no push is refused. -/
structure Undisturbed (steps : List (Step capacities)) : Prop where
  fresh : ∀ r ∈ steps, Fresh r.before r.action
  taken : ∀ r ∈ steps, Taken r.before r.action

/-- An undisturbed run answers the messages that arrive, each where it came from. -/
theorem serve_routes {s last : ServerPipeline capacities} {w : Wires} {actions : List Action} {steps : List (Step capacities)}
    (serving : Serving s) (lines : Lines s w) (served : serve s actions = some (steps,last))
    (undisturbed : Undisturbed steps) :
    Answered s.processor.engine (arriveAll w (arrivalsOf steps)).1 (steps.flatMap Step.outs) last.processor.engine ∧
      last.processor.processedCount =
        s.processor.processedCount + UInt64.ofNat (arriveAll w (arrivalsOf steps)).1.length ∧
      Lines last (arriveAll w (arrivalsOf steps)).2 := by
  induction actions generalizing s w steps with
  | nil =>
    obtain ⟨rfl,rfl⟩ := Prod.mk.inj (Option.some.inj served)
    exact ⟨answered_nil,(UInt64.add_zero _).symm,lines⟩
  | cons action rest ih =>
    obtain ⟨outs,after,acted,idle,same⟩ := act_returns (idle_of_serving serving) action
    obtain ⟨later,_,served',_⟩ := serve_returns idle rest
    simp only [serve,acted,served',Option.bind_eq_bind,Option.bind_some,Option.pure_def] at served
    obtain ⟨rfl,rfl⟩ := Prod.mk.inj (Option.some.inj served)
    obtain ⟨fresh,taken⟩ := undisturbed
    obtain ⟨answered,count,lines'⟩ :=
      act_routes serving lines acted (fresh _ List.mem_cons_self) (taken _ List.mem_cons_self)
    obtain ⟨answered',count',lines''⟩ := ih (idle.serving (same.trans serving.ready)) lines' served'
      ⟨fun r inside => fresh r (List.mem_cons_of_mem _ inside),fun r inside => taken r (List.mem_cons_of_mem _ inside)⟩
    rw [arrivalsOf_cons,List.flatMap_cons,arriveAll_append]
    refine ⟨answered.append answered',?_,lines''⟩
    rw [List.length_append,count',count,UInt64.add_assoc,UInt64.ofNat_add]

/-- A pipeline is started without connections. -/
theorem started_idle (maxConnections : UInt32) (configs : List (EngineConfig capacities)) :
    Idle (started maxConnections configs) ∧ (started maxConnections configs).registry = ConnectionRegistry.new maxConnections ∧
      (started maxConnections configs).processor.processedCount = 0 := by
  rw [started]
  have begins : Idle (ServerPipeline.new maxConnections : ServerPipeline capacities) :=
    idle_of_serving (serving_new maxConnections)
  refine List.foldlRecOn configs _ (motive := fun s => Idle s ∧ s.registry = ConnectionRegistry.new maxConnections ∧
    s.processor.processedCount = 0) ⟨begins,rfl,rfl⟩ ?_
  rintro s ⟨idle,fresh,none⟩ config _
  refine ⟨⟨idle.running.initializeWith config,idle.framed⟩,fresh,?_⟩
  rw [← none,ServerPipeline.initializeWith,EngineProcessor.initializeWith]
  split_ifs <;> rfl

/-- Whatever the calls of a run and the connections in it: between the calls both
    rings are empty, and when no push is refused, the engine has answered exactly
    the messages that were completed, in the order of the bytes that completed them;
    every answer was encoded and sent to the socket that completed its message; and
    the messages of each connection are those that its own bytes spell out. -/
theorem messages_answered_where_completed (capacities : Capacities) (maxConnections : UInt32)
    (configs : List (EngineConfig capacities)) (actions : List Action)
    (ready : (started maxConnections configs).processor.operational = true) :
    ∃ steps last, serve (started maxConnections configs) actions = some (steps,last) ∧
      (∀ r ∈ steps, r.after.processor.ingress.empty = true ∧ r.after.processor.egress.empty = true) ∧
      (Undisturbed steps →
        (∃ answers, answerAll (started maxConnections configs).processor.engine
            ((arriveAll Wires.new (arrivalsOf steps)).1.map Completion.msg) = some (answers,last.processor.engine) ∧
          answers.length = (arriveAll Wires.new (arrivalsOf steps)).1.length ∧
          (∀ e ∈ answers.flatten, ∃ written frame,
            CppCodec.encode e (List.replicate CppCodec.kMaxMessageLen 0) = (.ok written,frame) ∧
            frame.take written = bytesOf e) ∧
          steps.flatMap Step.outs = framesOf (arriveAll Wires.new (arrivalsOf steps)).1 answers) ∧
        last.processor.processedCount = UInt64.ofNat (arriveAll Wires.new (arrivalsOf steps)).1.length ∧
        (∀ fd, last.registry.isRegistered fd = ((arriveAll Wires.new (arrivalsOf steps)).2.lines fd).isSome) ∧
        ∀ n, madeBy n (arriveAll Wires.new (arrivalsOf steps)).1 =
          (readBytes [] (streamOf n (arrivalsOf steps))).1) := by
  obtain ⟨idle,registry,none⟩ := started_idle maxConnections configs
  have serving := idle.serving ready
  have lines : Lines (started maxConnections configs) Wires.new := by
    intro fd
    rw [registry]
    rfl
  obtain ⟨steps,last,served,between⟩ := serve_returns idle actions
  refine ⟨steps,last,served,fun r inside => (between r inside).rings_empty,?_⟩
  intro undisturbed
  obtain ⟨⟨answers,answered,length,sent⟩,count,lines'⟩ := serve_routes serving lines served undisturbed
  obtain ⟨_,_,again,_,_,ranged⟩ := answerAll_orderly serving.running.orderly
    ((arriveAll Wires.new (arrivalsOf steps)).1.map Completion.msg)
  rw [answered] at again
  obtain ⟨rfl,rfl⟩ := Prod.mk.inj (Option.some.inj again)
  refine ⟨⟨answers,answered,length,fun e inside => encode_event (ranged e inside),sent⟩,?_,?_,?_⟩
  · rw [count,none,UInt64.zero_add]
  · intro fd
    rw [isRegistered_eq,lines' fd,Option.isSome_map]
  · intro n
    have made := madeBy_later numbered_new n (arrivalsOf steps)
    rw [show Wires.new.opened = 0 from rfl,Nat.zero_add] at made
    exact made
end

/-- Socket 7 is used again after a connection that left part of a frame, while a
    frame arrives on socket 8 in two parts. -/
def reuse : List Action :=
  [.accept 7,.submitClientBytes 7 [1,2,3],.teardown 7 .PeerClosed,.accept 7,.accept 8,
    .submitClientBytes 8 ((bytesOf (.cancelOrder ⟨9⟩)).take 4),.submitClientBytes 7 (bytesOf (.cancelOrder ⟨5⟩)),
    .submitClientBytes 8 ((bytesOf (.cancelOrder ⟨9⟩)).drop 4)]

theorem messages_answered_where_completed_reuse :
    ∃ steps last answers, serve (started 2 [] : ServerPipeline small) reuse = some (steps,last) ∧
      Undisturbed steps ∧
      steps.flatMap Step.outs = framesOf [⟨1,7,.cancelOrder ⟨5⟩⟩,⟨2,8,.cancelOrder ⟨9⟩⟩] answers ∧
      last.processor.processedCount = 2 ∧ (readBytes [] (streamOf 1 (arrivalsOf steps))).1 = [.cancelOrder ⟨5⟩] := by
  obtain ⟨steps,last,served,_,routed⟩ := messages_answered_where_completed small 2 [] reuse rfl
  have facts : (serve (started 2 [] : ServerPipeline small) reuse).map (fun r =>
      (r.1.all (fun q => decide (Fresh q.before q.action)),r.1.all (fun q => decide (Taken q.before q.action)),
        (arriveAll Wires.new (arrivalsOf r.1)).1)) =
      some (true,true,[⟨1,7,.cancelOrder ⟨5⟩⟩,⟨2,8,.cancelOrder ⟨9⟩⟩]) := by decide
  rw [served,Option.map_some,Option.some.injEq,Prod.mk.injEq,Prod.mk.injEq] at facts
  obtain ⟨fresh,taken,completions⟩ := facts
  have undisturbed : Undisturbed steps := by
    refine ⟨?_,?_⟩
    · intro r inside
      simpa using List.all_eq_true.mp fresh r inside
    · intro r inside
      simpa using List.all_eq_true.mp taken r inside
  obtain ⟨⟨answers,_,_,_,sent⟩,count,_,made⟩ := routed undisturbed
  rw [completions] at sent count
  refine ⟨steps,last,answers,served,undisturbed,sent,count,?_⟩
  rw [← made 1,completions]
  rfl

end HyperMatch.Routing
