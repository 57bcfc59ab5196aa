import HyperMatch.Market

/-!
Time priority by arrival. A market that never looks at the stamps of its orders
puts a new one behind all of its price (`byArrival`). As long as stamps increase
from one new order to the next, the engine's market answers as that one does: only
the order of arrival counts. The accepted part of a history, with other increasing
stamps, therefore rebuilds the engine.
-/
namespace HyperMatch.Matching
open HyperMatch.Wire HyperMatch.OrderBook HyperMatch.BookLayout HyperMatch.MatchingEngine

variable {maxOrders maxPriceLevels : PoolCapacity}

/-! ### Without stamps -/

/-- An order and a command without their stamps. -/
def unstamped (e : Entry) : Entry := { e with seq := 0 }
def unstampedCommand : Command → Command
  | .newOrder m => .newOrder { m with seq := 0 }
  | .cancelOrder c => .cancelOrder c

/-- The stamp of a new order. -/
def stamp : Command → Option UInt64
  | .newOrder m => some m.seq
  | .cancelOrder _ => none

/-- A better price alone. -/
def PriceFirst (side : Side) (a b : Entry) : Prop := priceRanksFirst side a.priceTicks b.priceTicks = true

instance (side : Side) (a b : Entry) : Decidable (PriceFirst side a b) := inferInstanceAs (Decidable (_ = true))

/-- Put an order behind those of its price, unless there is no room for it. -/
def putBehind (maxOrders maxPriceLevels : PoolCapacity) (walks : Side → List Entry) (new : Entry) : Side → List Entry :=
  if NoRoom maxOrders maxPriceLevels walks new.side new.priceTicks then walks
  else Function.update walks new.side ((walks new.side).orderedInsert (PriceFirst new.side) new)

def Exchange.arrive (maxOrders maxPriceLevels : PoolCapacity) (ex : Exchange) (incoming : NewOrder) :
    List Trade × Exchange :=
  ((ex.sweptBy incoming).1,
    { walks :=
        if (ex.sweptBy incoming).2.1 > 0 then
          putBehind maxOrders maxPriceLevels (ex.traded incoming) (unstamped (remainder incoming (ex.sweptBy incoming).2.1))
        else ex.traded incoming
      nextExecSeq := ex.nextExecSeq + UInt64.ofNat (ex.sweptBy incoming).1.length })

def Exchange.unstamped (ex : Exchange) : Exchange :=
  { ex with walks := fun s => (ex.walks s).map Matching.unstamped }

def Market.unstamped (market : Market) : Market := { market with exchange := market.exchange.unstamped }

/-- The market that goes by arrival. -/
def Market.byArrival (maxOrders maxPriceLevels : PoolCapacity) (market : Market) : Command → Outcome × Market
  | .newOrder m =>
    match validateNewOrder m with
    | some reason => ({ accepted := false, rejects := [⟨m.orderId,reason⟩] },market)
    | none =>
      ({ accepted := true, trades := (market.exchange.arrive maxOrders maxPriceLevels m).1 },
        { exchange := (market.exchange.arrive maxOrders maxPriceLevels m).2
          retired := (market.exchange.filledBy m).foldl (RetiredIdSet.recorded maxOrders.size) market.retired })
  | .cancelOrder c => market.cancelOrder maxOrders c

/-- A sweep does not look at the stamp of the order. -/
theorem sweep_stamp (m : NewOrder) (q : UInt64) (walk : List Entry) (execSeq : UInt64) (remaining : UInt32) :
    sweep { m with seq := q } walk execSeq remaining = sweep m walk execSeq remaining := by
  induction walk generalizing execSeq remaining with
  | nil => rfl
  | cons e rest ih => simp only [sweep,ih,tradeOf]

theorem filled_stamp (m : NewOrder) (q : UInt64) (walk : List Entry) (remaining : UInt32) :
    filled { m with seq := q } walk remaining = filled m walk remaining := by
  induction walk generalizing remaining with
  | nil => rfl
  | cons e rest ih => simp only [filled,ih]

/-- Arrival is all that the market looks at. -/
theorem byArrival_unstamped (market : Market) (command : Command) :
    market.byArrival maxOrders maxPriceLevels (unstampedCommand command) =
      market.byArrival maxOrders maxPriceLevels command := by
  cases command with
  | newOrder m =>
    have valid : validateNewOrder { m with seq := 0 } = validateNewOrder m := rfl
    simp only [unstampedCommand,Market.byArrival,valid,Exchange.arrive,Exchange.filledBy,Exchange.traded,
      Exchange.sweptBy,sweep_stamp,filled_stamp]
    rfl
  | cancelOrder c => rfl

theorem byArrival_inert (maxOrders maxPriceLevels : PoolCapacity) :
    Market.Inert (Market.byArrival maxOrders maxPriceLevels) := by
  intro market command refused
  cases command with
  | newOrder m =>
    rw [Market.byArrival] at refused ⊢
    split at refused
    · rfl
    · cases refused
  | cancelOrder c => exact Market.step_inert maxOrders maxPriceLevels market (.cancelOrder c) refused

/-! ### Stamps that increase -/

theorem sweep_unstamped (incoming : NewOrder) (walk : List Entry) (execSeq : UInt64) (remaining : UInt32) :
    sweep incoming (walk.map unstamped) execSeq remaining =
      ((sweep incoming walk execSeq remaining).1,(sweep incoming walk execSeq remaining).2.1,
        (sweep incoming walk execSeq remaining).2.2.map unstamped) := by
  induction walk generalizing execSeq remaining with
  | nil => rfl
  | cons e rest ih =>
    rw [List.map_cons,sweep,sweep]
    have qty : (unstamped e).remainingQty = e.remainingQty := rfl
    have price : (unstamped e).priceTicks = e.priceTicks := rfl
    have trade : ∀ q, tradeOf incoming execSeq q (unstamped e) = tradeOf incoming execSeq q e := fun q => rfl
    simp only [qty,price,trade,ih]
    split_ifs
    · rfl
    · rfl
    · rfl

theorem filled_unstamped (incoming : NewOrder) (walk : List Entry) (remaining : UInt32) :
    filled incoming (walk.map unstamped) remaining = filled incoming walk remaining := by
  induction walk generalizing remaining with
  | nil => rfl
  | cons e rest ih =>
    rw [List.map_cons,filled,filled,ih]
    rfl

theorem noRoom_unstamped (walks : Side → List Entry) (side : Side) (price : UInt64) :
    NoRoom maxOrders maxPriceLevels (fun s => (walks s).map unstamped) side price ↔
      NoRoom maxOrders maxPriceLevels walks side price := by
  have count : ∀ l : List Entry, priceCount (l.map unstamped) = priceCount l := by
    intro l
    rw [priceCount,List.map_map]
    rfl
  simp only [NoRoom,count,List.length_map,List.forall_mem_map]
  rfl

/-- An order with the last stamp goes behind those of its price. -/
theorem orderedInsert_last {new : Entry} {walk : List Entry} (last : ∀ e ∈ walk, e.seq < new.seq) (side : Side) :
    (walk.orderedInsert (Outranks side) new).map unstamped =
      (walk.map unstamped).orderedInsert (PriceFirst side) (unstamped new) := by
  induction walk with
  | nil => rfl
  | cons e rest ih =>
    have later := last e List.mem_cons_self
    have same : Outranks side new e ↔ PriceFirst side (unstamped new) (unstamped e) := by
      constructor
      · rintro (better | ⟨_,before⟩)
        · exact better
        · rw [before_iff] at before
          rw [UInt64.lt_iff_toNat_lt] at later
          omega
      · exact .inl
    rw [List.orderedInsert,List.map_cons,List.orderedInsert]
    by_cases first : Outranks side new e
    · rw [if_pos first,if_pos (same.mp first)]
      rfl
    · rw [if_neg first,if_neg (fun better => first (same.mpr better)),List.map_cons,
        ih (fun a m => last a (List.mem_cons_of_mem _ m))]

/-- Putting an order with the last stamp to rest. -/
theorem putBehind_unstamped {walks : Side → List Entry} {new : Entry} (last : ∀ e ∈ walks new.side, e.seq < new.seq) :
    putBehind maxOrders maxPriceLevels (fun s => (walks s).map unstamped) (unstamped new) =
      fun s => (putToRest maxOrders maxPriceLevels walks new s).map unstamped := by
  by_cases full : NoRoom maxOrders maxPriceLevels walks new.side new.priceTicks
  · have crowded : NoRoom maxOrders maxPriceLevels (fun s => (walks s).map unstamped) (unstamped new).side
        (unstamped new).priceTicks := (noRoom_unstamped walks new.side new.priceTicks).mpr full
    rw [putBehind,if_pos crowded,putToRest,if_pos full]
  · have free : ¬ NoRoom maxOrders maxPriceLevels (fun s => (walks s).map unstamped) (unstamped new).side
        (unstamped new).priceTicks := fun crowded => full ((noRoom_unstamped walks new.side new.priceTicks).mp crowded)
    rw [putBehind,if_neg free,putToRest,if_neg full]
    funext s
    have side : (unstamped new).side = new.side := rfl
    rw [side]
    by_cases same : s = new.side
    · subst same
      rw [Function.update_self,Function.update_self]
      exact (orderedInsert_last last new.side).symm
    · rw [Function.update_of_ne same,Function.update_of_ne same]

section
variable {ex : Exchange}

theorem sweptBy_unstamped (ex : Exchange) (incoming : NewOrder) :
    ex.unstamped.sweptBy incoming = ((ex.sweptBy incoming).1,(ex.sweptBy incoming).2.1,
      (ex.sweptBy incoming).2.2.map unstamped) :=
  sweep_unstamped incoming _ _ _

theorem traded_unstamped (ex : Exchange) (incoming : NewOrder) :
    ex.unstamped.traded incoming = fun s => (ex.traded incoming s).map unstamped := by
  funext s
  rw [Exchange.traded,Exchange.traded,sweptBy_unstamped]
  by_cases same : s = opposite incoming.side
  · subst same
    rw [Function.update_self,Function.update_self]
  · rw [Function.update_of_ne same,Function.update_of_ne same]
    rfl

/-- A new order with the last stamp. -/
theorem arrive_unstamped {incoming : NewOrder} (last : ∀ e ∈ ex.walks incoming.side, e.seq < incoming.seq) :
    ex.unstamped.arrive maxOrders maxPriceLevels incoming =
      ((ex.newOrder maxOrders maxPriceLevels incoming).1,(ex.newOrder maxOrders maxPriceLevels incoming).2.unstamped) := by
  have own : ex.traded incoming incoming.side = ex.walks incoming.side :=
    Function.update_of_ne (opposite_ne incoming.side).symm _ _
  rw [Exchange.arrive,sweptBy_unstamped,traded_unstamped]
  refine Prod.ext rfl (Exchange.ext ?_ rfl)
  simp only [Exchange.newOrder,Exchange.unstamped]
  by_cases some : (ex.sweptBy incoming).2.1 > 0
  · rw [if_pos some,if_pos some]
    refine putBehind_unstamped ?_
    change ∀ e ∈ ex.traded incoming incoming.side, e.seq < incoming.seq
    rw [own]
    exact last
  · rw [if_neg some,if_neg some]

theorem cancel_unstamped (ex : Exchange) (orderId : UInt64) :
    ex.unstamped.cancel orderId = ((ex.cancel orderId).1.map unstamped,(ex.cancel orderId).2.unstamped) := by
  have found : ∀ s, ex.unstamped.find orderId s = (ex.find orderId s).map unstamped := by
    intro s
    rw [Exchange.find,Exchange.find,Exchange.unstamped,List.find?_map]
    rfl
  have without : ∀ s, ex.unstamped.without orderId s = (ex.without orderId s).unstamped := by
    intro s
    refine Exchange.ext ?_ rfl
    funext t
    simp only [Exchange.without,Exchange.unstamped]
    by_cases same : t = s
    · subst same
      rw [Function.update_self,Function.update_self,List.eraseP_map]
      rfl
    · rw [Function.update_of_ne same,Function.update_of_ne same]
  rw [Exchange.cancel,Exchange.cancel,found,found]
  cases ex.find orderId .Buy with
  | some e => simp only [Option.map_some,without]
  | none =>
    cases ex.find orderId .Sell with
    | some e => simp only [Option.map_some,Option.map_none,without]
    | none => rfl

theorem filledBy_unstamped (ex : Exchange) (incoming : NewOrder) : ex.unstamped.filledBy incoming = ex.filledBy incoming :=
  filled_unstamped incoming _ _
end

/-! ### Histories -/

/-- Whoever rests carries one of the stamps. -/
def Stamped (stamps : List UInt64) (market : Market) : Prop := ∀ s, ∀ e ∈ market.exchange.walks s, e.seq ∈ stamps

theorem stamped_empty : Stamped [] Market.empty := by
  rintro s e ⟨⟩

theorem stamps_cons (stamps : List UInt64) (command : Command) (rest : List Command) :
    stamps ++ (command :: rest).filterMap stamp = stamps ++ (stamp command).toList ++ rest.filterMap stamp := by
  rw [List.append_assoc,List.filterMap_cons]
  cases stamp command with
  | none => rfl
  | some q => rfl

section
variable {market : Market} {stamps : List UInt64}

theorem step_stamped (maxOrders maxPriceLevels : PoolCapacity) (stamped : Stamped stamps market) (command : Command) :
    Stamped (stamps ++ (stamp command).toList) (market.step maxOrders maxPriceLevels command).2 := by
  intro s e m
  cases command with
  | newOrder incoming =>
    rw [Market.step,Market.newOrder] at m
    split at m
    · exact List.mem_append_left _ (stamped s e m)
    · rcases newOrder_entries maxOrders maxPriceLevels m with ⟨_,rfl⟩ | ⟨old,inWalk,same,_⟩
      · exact List.mem_append_right _ List.mem_cons_self
      · rw [← same]
        exact List.mem_append_left _ (stamped s old inWalk)
  | cancelOrder c =>
    rw [Market.step,Market.cancelOrder] at m
    split at m
    · rename_i taken
      exact List.mem_append_left _ (stamped s e (cancel_entries taken m))
    · exact List.mem_append_left _ (stamped s e m)

theorem cancelOrder_unstamped (maxOrders : PoolCapacity) (market : Market) (c : CancelOrder) :
    market.unstamped.cancelOrder maxOrders c =
      ((market.cancelOrder maxOrders c).1,(market.cancelOrder maxOrders c).2.unstamped) := by
  have cancelled := cancel_unstamped market.exchange c.orderId
  rw [Market.cancelOrder,Market.cancelOrder]
  simp only [Market.unstamped,cancelled]
  cases taken : market.exchange.cancel c.orderId with
  | mk entry after =>
    cases entry with
    | some e => rfl
    | none => rfl

/-- One command whose stamp, if it has one, is the last. -/
theorem step_byArrival (stamped : Stamped stamps market) {command : Command}
    (last : ∀ q ∈ stamp command, ∀ p ∈ stamps, p < q) :
    market.unstamped.byArrival maxOrders maxPriceLevels command =
      ((market.step maxOrders maxPriceLevels command).1,(market.step maxOrders maxPriceLevels command).2.unstamped) := by
  cases command with
  | newOrder m =>
    have behind : ∀ e ∈ market.exchange.walks m.side, e.seq < m.seq :=
      fun e inside => last m.seq rfl e.seq (stamped m.side e inside)
    cases checked : validateNewOrder m with
    | some reason => simp only [Market.byArrival,Market.step,Market.newOrder,checked]
    | none =>
      simp only [Market.byArrival,Market.step,Market.newOrder,checked,Market.unstamped,arrive_unstamped behind,
        filledBy_unstamped]
  | cancelOrder c => exact cancelOrder_unstamped maxOrders market c

/-- With increasing stamps only the order of arrival counts. -/
theorem answers_byArrival (stamped : Stamped stamps market) {commands : List Command}
    (increasing : (stamps ++ commands.filterMap stamp).Pairwise (· < ·)) :
    Market.answers (Market.byArrival maxOrders maxPriceLevels) market.unstamped commands =
      ((Market.answers (Market.step maxOrders maxPriceLevels) market commands).1,
        (Market.answers (Market.step maxOrders maxPriceLevels) market commands).2.unstamped) := by
  induction commands generalizing market stamps with
  | nil => rfl
  | cons command rest ih =>
    rw [stamps_cons] at increasing
    have last : ∀ q ∈ stamp command, ∀ p ∈ stamps, p < q := by
      intro q given p earlier
      have first := (List.pairwise_append.mp increasing).1
      exact (List.pairwise_append.mp first).2.2 p earlier q (Option.mem_toList.mpr given)
    simp only [Market.answers,step_byArrival stamped last,
      ih (step_stamped maxOrders maxPriceLevels stamped command) increasing]
end

/-! ### The accepted part of a history -/

/-- The commands that were accepted. -/
def acceptedOf (commands : List Command) (outcomes : List Outcome) : List Command :=
  ((commands.zip outcomes).filter (fun p => p.2.accepted)).map Prod.fst

theorem acceptedOf_cons (command : Command) (rest : List Command) (outcome : Outcome) (later : List Outcome) :
    acceptedOf (command :: rest) (outcome :: later) =
      if outcome.accepted then command :: acceptedOf rest later else acceptedOf rest later := by
  rw [acceptedOf,List.zip_cons_cons,List.filter_cons]
  split_ifs
  · rfl
  · rfl

/-- Commands that are not accepted may be left out. -/
theorem answers_accepted {answer : Market → Command → Outcome × Market} (inert : Market.Inert answer) (market : Market)
    (commands : List Command) :
    Market.answers answer market (acceptedOf commands (Market.answers answer market commands).1) =
      ((Market.answers answer market commands).1.filter (fun o => o.accepted),(Market.answers answer market commands).2) := by
  induction commands generalizing market with
  | nil => rfl
  | cons command rest ih =>
    rw [Market.answers,acceptedOf_cons]
    cases kept : (answer market command).1.accepted with
    | true =>
      rw [if_pos rfl,Market.answers,List.filter_cons_of_pos (by exact kept),ih]
    | false =>
      have still := inert market command kept
      rw [if_neg (by simp),List.filter_cons_of_neg (by simp [kept]),still]
      exact ih market

theorem answers_map {answer : Market → Command → Outcome × Market} {f : Command → Command}
    (same : ∀ market command, answer market (f command) = answer market command) (market : Market)
    (commands : List Command) : Market.answers answer market (commands.map f) = Market.answers answer market commands := by
  induction commands generalizing market with
  | nil => rfl
  | cons command rest ih => simp only [List.map_cons,Market.answers,same,ih]

theorem outcome_trades (maxOrders maxPriceLevels : PoolCapacity) (market : Market) (command : Command)
    (refused : (market.step maxOrders maxPriceLevels command).1.accepted = false) :
    (market.step maxOrders maxPriceLevels command).1.trades = [] := by
  cases command with
  | newOrder m =>
    rw [Market.step,Market.newOrder] at refused ⊢
    split at refused
    · rfl
    · cases refused
  | cancelOrder c =>
    rw [Market.step,Market.cancelOrder]
    split
    · rfl
    · rfl

/-- What is not accepted trades nothing. -/
theorem answers_trades (maxOrders maxPriceLevels : PoolCapacity) (market : Market) (commands : List Command) :
    ((Market.answers (Market.step maxOrders maxPriceLevels) market commands).1.filter (fun o => o.accepted)).flatMap
        Outcome.trades =
      (Market.answers (Market.step maxOrders maxPriceLevels) market commands).1.flatMap Outcome.trades := by
  induction commands generalizing market with
  | nil => rfl
  | cons command rest ih =>
    rw [Market.answers,List.flatMap_cons,← ih]
    cases kept : (market.step maxOrders maxPriceLevels command).1.accepted with
    | true => rw [List.filter_cons_of_pos (by exact kept),List.flatMap_cons]
    | false =>
      rw [List.filter_cons_of_neg (by simp [kept]),outcome_trades maxOrders maxPriceLevels market command kept]
      rfl

/-- Two histories with increasing stamps whose accepted parts differ in nothing
    but the stamps lead to markets that differ in nothing else. -/
theorem answers_restamped {commands replayed : List Command} (increasing : (commands.filterMap stamp).Pairwise (· < ·))
    (increasing' : (replayed.filterMap stamp).Pairwise (· < ·))
    (restamped : replayed.map unstampedCommand = (acceptedOf commands
      (Market.answers (Market.step maxOrders maxPriceLevels) Market.empty commands).1).map unstampedCommand) :
    (Market.answers (Market.step maxOrders maxPriceLevels) Market.empty replayed).1 =
        (Market.answers (Market.step maxOrders maxPriceLevels) Market.empty commands).1.filter (fun o => o.accepted) ∧
      (Market.answers (Market.step maxOrders maxPriceLevels) Market.empty replayed).2.unstamped =
        (Market.answers (Market.step maxOrders maxPriceLevels) Market.empty commands).2.unstamped := by
  have live : Market.answers (Market.byArrival maxOrders maxPriceLevels) Market.empty.unstamped commands = _ :=
    answers_byArrival stamped_empty (by rw [List.nil_append]; exact increasing)
  have again : Market.answers (Market.byArrival maxOrders maxPriceLevels) Market.empty.unstamped replayed = _ :=
    answers_byArrival stamped_empty (by rw [List.nil_append]; exact increasing')
  have accepted := answers_accepted (byArrival_inert maxOrders maxPriceLevels) Market.empty.unstamped commands
  rw [← answers_map byArrival_unstamped] at again
  rw [restamped,answers_map byArrival_unstamped] at again
  rw [live] at accepted
  simp only at accepted
  rw [accepted] at again
  exact ⟨(congrArg Prod.fst again).symm,(congrArg Prod.snd again).symm⟩

/-- Markets that differ in nothing but stamps answer cancellations alike. -/
theorem answers_cancels {market market' : Market} (same : market'.unstamped = market.unstamped)
    (cancels : List CancelOrder) :
    (Market.answers (Market.step maxOrders maxPriceLevels) market' (cancels.map .cancelOrder)).1 =
      (Market.answers (Market.step maxOrders maxPriceLevels) market (cancels.map .cancelOrder)).1 := by
  induction cancels generalizing market market' with
  | nil => rfl
  | cons c rest ih =>
    have one := cancelOrder_unstamped maxOrders market c
    have two := cancelOrder_unstamped maxOrders market' c
    rw [same,one] at two
    obtain ⟨answer,after⟩ := Prod.mk.inj two
    rw [List.map_cons,Market.answers,Market.answers]
    exact List.cons_eq_cons.mpr ⟨answer.symm,ih after.symm⟩

/-- After any history with increasing stamps, its accepted part under any other
    increasing stamps, run on a new engine of the same capacities: every command is
    accepted and answered as it was, the same trades are made, and the book and the
    identifiers that later cancellations are told about are the same. -/
theorem replay_reproduces {commands replayed : List Command} {outcomes : List Outcome}
    {engine : MatchingEngine maxOrders maxPriceLevels} (ran : run MatchingEngine.new commands = some (outcomes,engine))
    (increasing : (commands.filterMap stamp).Pairwise (· < ·))
    (restamped : replayed.map unstampedCommand = (acceptedOf commands outcomes).map unstampedCommand)
    (increasing' : (replayed.filterMap stamp).Pairwise (· < ·)) :
    ∃ outcomes' engine', run (MatchingEngine.new : MatchingEngine maxOrders maxPriceLevels) replayed =
        some (outcomes',engine') ∧
      outcomes' = outcomes.filter (fun o => o.accepted) ∧ (∀ o ∈ outcomes', o.accepted = true) ∧
      outcomes'.flatMap Outcome.trades = outcomes.flatMap Outcome.trades ∧
      (∀ s, (resting engine'.book s).map (fun e => (e.orderId,e.side,e.priceTicks,e.remainingQty)) =
        (resting engine.book s).map (fun e => (e.orderId,e.side,e.priceTicks,e.remainingQty))) ∧
      (∀ id, engine'.retired.contains id = engine.retired.contains id) ∧
      ∀ cancels : List CancelOrder, (run engine' (cancels.map .cancelOrder)).map Prod.fst =
        (run engine (cancels.map .cancelOrder)).map Prod.fst := by
  have start : Shows (MatchingEngine.new : MatchingEngine maxOrders maxPriceLevels) Market.empty := shows_new
  obtain ⟨rfl,shown⟩ := shows_of_run ran
  obtain ⟨same,market⟩ := answers_restamped increasing increasing' restamped
  obtain ⟨engine',ran',shown'⟩ := run_shows start replayed
  refine ⟨_,engine',ran',same,?_,?_,?_,?_,?_⟩
  · rw [same]
    intro o m
    exact (List.mem_filter.mp m).2
  · rw [same]
    exact answers_trades maxOrders maxPriceLevels Market.empty commands
  · intro s
    have walks := congrArg (fun m => (m.exchange.walks s).map (fun e => (e.orderId,e.side,e.priceTicks,e.remainingQty))) market
    simp only [Market.unstamped,Exchange.unstamped,List.map_map] at walks
    rw [shown.walks,shown'.walks]
    exact walks
  · intro id
    have retired := congrArg Market.retired market
    simp only [Market.unstamped] at retired
    rw [shown.contains,shown'.contains,retired]
  · intro cancels
    obtain ⟨_,later,_⟩ := run_shows shown (cancels.map .cancelOrder)
    obtain ⟨_,later',_⟩ := run_shows shown' (cancels.map .cancelOrder)
    rw [later,later',Option.map_some,Option.map_some,answers_cancels market]

/-- An ask, an order without quantity, a bid that takes a part of the ask, a
    cancellation of nobody and one of the ask; then the ask, the bid and the last
    cancellation again with other stamps. -/
theorem replay_reproduces_three_of_five :
    ∃ outcomes engine outcomes' engine',
      run (MatchingEngine.new : MatchingEngine .four .four)
        [.newOrder ⟨1,.Sell,100,5,3⟩,.newOrder ⟨2,.Sell,100,0,4⟩,.newOrder ⟨3,.Buy,100,2,7⟩,.cancelOrder ⟨9⟩,
          .cancelOrder ⟨1⟩] = some (outcomes,engine) ∧
      run (MatchingEngine.new : MatchingEngine .four .four)
        [.newOrder ⟨1,.Sell,100,5,0⟩,.newOrder ⟨3,.Buy,100,2,1⟩,.cancelOrder ⟨1⟩] = some (outcomes',engine') ∧
      outcomes' = outcomes.filter (fun o => o.accepted) := by
  have start : Shows (MatchingEngine.new : MatchingEngine .four .four) Market.empty := shows_new
  obtain ⟨engine,ran,_⟩ := run_shows start [.newOrder ⟨1,.Sell,100,5,3⟩,.newOrder ⟨2,.Sell,100,0,4⟩,
    .newOrder ⟨3,.Buy,100,2,7⟩,.cancelOrder ⟨9⟩,.cancelOrder ⟨1⟩]
  obtain ⟨outcomes',engine',ran',same,_⟩ := replay_reproduces ran (by decide)
    (show [Command.newOrder ⟨1,.Sell,100,5,0⟩,.newOrder ⟨3,.Buy,100,2,1⟩,.cancelOrder ⟨1⟩].map unstampedCommand = _
      by decide) (by decide)
  exact ⟨_,engine,outcomes',engine',ran,ran',same⟩

end HyperMatch.Matching
