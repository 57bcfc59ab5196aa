import HyperMatch.Ledger
import HyperMatch.Market

/-!
How orders leave the book and what the engine remembers of them. A cancellation
takes one order out; whether the identifier is gone depends on how many orders
rested under it. A resting order that is filled or cancelled is recorded as
retired; an order that is filled on arrival never is.
-/
namespace HyperMatch.Matching
open HyperMatch.Wire HyperMatch.OrderBook HyperMatch.BookLayout HyperMatch.MatchingEngine

variable {maxOrders maxPriceLevels : PoolCapacity}

theorem mem_idsOf {walks : Side → List Entry} {id : UInt64} :
    id ∈ idsOf walks ↔ ∃ s, ∃ e ∈ walks s, e.orderId = id := by
  rw [idsOf,List.mem_map]
  constructor
  · rintro ⟨e,inside,same⟩
    rcases List.mem_append.mp inside with bid | ask
    · exact ⟨.Buy,e,bid,same⟩
    · exact ⟨.Sell,e,ask,same⟩
  · rintro ⟨s,e,inside,same⟩
    refine ⟨e,?_,same⟩
    cases s
    · exact List.mem_append_left _ inside
    · exact List.mem_append_right _ inside

/-! ### A cancelled identifier -/

/-- Whatever commands come, as long as no new order has the identifier: nobody
    rests under it and nobody trades with it. -/
def StaysAway (engine : MatchingEngine maxOrders maxPriceLevels) (id : UInt64) : Prop :=
  ∀ later outcomes last, (∀ m, .newOrder m ∈ later → m.orderId ≠ id) → run engine later = some (outcomes,last) →
    (∀ s, ∀ e ∈ resting last.book s, e.orderId ≠ id) ∧ ∀ o ∈ outcomes, ∀ t ∈ o.trades, t.restingId ≠ id

/-- Who is absent stays absent and trades with nobody. -/
theorem step_absent {market : Market} (positive : ∀ s, ∀ e ∈ market.exchange.walks s, 0 < e.remainingQty) {id : UInt64}
    (absent : ∀ s, ∀ e ∈ market.exchange.walks s, e.orderId ≠ id) {command : Command}
    (other : ∀ m, command = .newOrder m → m.orderId ≠ id) :
    (∀ s, ∀ e ∈ (market.step maxOrders maxPriceLevels command).2.exchange.walks s, e.orderId ≠ id) ∧
      ∀ t ∈ (market.step maxOrders maxPriceLevels command).1.trades, t.restingId ≠ id := by
  cases command with
  | newOrder m =>
    cases checked : validateNewOrder m with
    | some reason =>
      simp only [Market.step,Market.newOrder,checked]
      exact ⟨absent,fun t inside => by cases inside⟩
    | none =>
      simp only [Market.step,Market.newOrder,checked]
      constructor
      · intro s e inside
        rcases newOrder_entries maxOrders maxPriceLevels inside with ⟨_,rfl⟩ | ⟨old,inWalk,same,_⟩
        · exact other m rfl
        · rw [← same]
          exact absent s old inWalk
      · intro t inside
        obtain ⟨_,_,e,inWalk,named,_⟩ := sweep_trades m (positive (opposite m.side)) inside
        rw [named]
        exact absent _ e inWalk
  | cancelOrder c =>
    rw [Market.step,Market.cancelOrder]
    split
    · rename_i taken
      exact ⟨fun s e inside => absent s e (cancel_entries taken inside),fun t inside => by cases inside⟩
    · exact ⟨absent,fun t inside => by cases inside⟩

theorem staysAway_of_absent {engine : MatchingEngine maxOrders maxPriceLevels} {market : Market}
    (shown : Shows engine market) {id : UInt64} (absent : ∀ s, ∀ e ∈ resting engine.book s, e.orderId ≠ id) :
    StaysAway engine id := by
  intro later
  induction later generalizing engine market with
  | nil =>
    intro outcomes last _ ran
    obtain ⟨rfl,rfl⟩ := Prod.mk.inj (Option.some.inj ran)
    exact ⟨absent,fun o inside => by cases inside⟩
  | cons command rest ih =>
    intro outcomes last others ran
    obtain ⟨middle,stepped,next⟩ := step_shows shown command
    have walks : ∀ s, ∀ e ∈ market.exchange.walks s, e.orderId ≠ id := fun s e inside =>
      absent s e (by rw [shown.walks]; exact inside)
    have positive : ∀ s, ∀ e ∈ market.exchange.walks s, 0 < e.remainingQty := fun s e inside =>
      shown.sound.positive s e (by rw [shown.walks]; exact inside)
    obtain ⟨absent',quiet⟩ := step_absent positive walks
      (fun m here => others m (here ▸ List.mem_cons_self))
    obtain ⟨engine',ran',_⟩ := run_shows next rest
    obtain ⟨gone,silent⟩ := ih next (fun s e inside => absent' s e (by rw [← next.walks]; exact inside)) _ engine'
      (fun m inside => others m (List.mem_cons_of_mem _ inside)) ran'
    rw [run,stepped] at ran
    simp only [Option.bind_eq_bind,Option.bind_some,ran'] at ran
    obtain ⟨rfl,rfl⟩ := Prod.mk.inj (Option.some.inj ran)
    refine ⟨gone,?_⟩
    intro o inside
    rcases List.mem_cons.mp inside with rfl | rest
    · exact quiet
    · exact silent o rest

/-- After an acknowledged cancellation in any run the identifier stays away if and
    only if exactly one order rested under it before. -/
theorem cancelled_staysAway_iff {commands : List Command} {outcomes : List Outcome}
    {engine after : MatchingEngine maxOrders maxPriceLevels} (ran : run MatchingEngine.new commands = some (outcomes,engine))
    {cancel : CancelOrder} {outcome : Outcome} (cancelled : engine.processCancelOrder cancel = some (outcome,after))
    (acked : outcome.acks = [⟨cancel.orderId,.Cancelled⟩]) :
    StaysAway after cancel.orderId ↔ (idsOf (resting engine.book)).count cancel.orderId = 1 := by
  obtain ⟨_,shown⟩ := shows_of_run ran
  obtain ⟨_,stepped,next⟩ := step_shows shown (.cancelOrder cancel)
  obtain ⟨_,rfl⟩ := Prod.mk.inj (Option.some.inj (cancelled.symm.trans stepped))
  rcases processCancelOrder_spec shown.sound cancel with ⟨e,engine',done,_,taken,_⟩ | ⟨known,_,refused,_⟩
  · obtain ⟨_,rfl⟩ := Prod.mk.inj (Option.some.inj (cancelled.symm.trans done))
    have perm := idsOf_cancel taken
    have counted : (idsOf (resting engine.book)).count cancel.orderId =
        (idsOf (resting after.book)).count cancel.orderId + 1 := by
      rw [show resting engine.book = (view engine).walks from rfl,perm.count_eq,List.count_cons_self]
      rfl
    rw [counted]
    constructor
    · intro away
      obtain ⟨absent,_⟩ := away [] [] after (fun m inside => by cases inside) rfl
      have missing : cancel.orderId ∉ idsOf (resting after.book) := by
        rw [mem_idsOf]
        rintro ⟨s,e,inside,same⟩
        exact absent s e inside same
      rw [List.count_eq_zero_of_not_mem missing]
    · intro one
      have missing : cancel.orderId ∉ idsOf (resting after.book) :=
        List.count_eq_zero.mp (by omega)
      refine staysAway_of_absent next ?_
      intro s e inside same
      exact missing (mem_idsOf.mpr ⟨s,e,inside,same⟩)
  · obtain ⟨rfl,_⟩ := Prod.mk.inj (Option.some.inj (cancelled.symm.trans refused))
    cases acked

/-- Two bids at one price, of which an ask takes a part of the first, and another ask. -/
def bidsAndAsks : List Command :=
  [.newOrder ⟨1,.Buy,100,5,0⟩,.newOrder ⟨2,.Buy,100,4,1⟩,.newOrder ⟨3,.Sell,100,2,2⟩,.newOrder ⟨4,.Sell,105,1,3⟩]

/-- The bid that has traded is cancelled: an ask that comes later trades with the other one
    only. The ask is cancelled as well. -/
theorem cancelled_staysAway_bid_and_ask :
    ∃ (outcomes : List Outcome) (engine after last : MatchingEngine .four .four),
      run MatchingEngine.new bidsAndAsks = some (outcomes,engine) ∧
      engine.processCancelOrder ⟨1⟩ = some ({ accepted := true, acks := [⟨1,.Cancelled⟩] },after) ∧ StaysAway after 1 ∧
      run after [.newOrder ⟨5,.Sell,90,9,4⟩] = some ([{ accepted := true, trades := [⟨2,100,4,5,2⟩] }],last) ∧
      (∀ s, ∀ e ∈ resting last.book s, e.orderId ≠ 1) ∧
      ∃ (outcomes' : List Outcome) (engine' after' : MatchingEngine .four .four),
        run MatchingEngine.new (bidsAndAsks ++ [.cancelOrder ⟨1⟩]) = some (outcomes',engine') ∧
        engine'.processCancelOrder ⟨4⟩ = some ({ accepted := true, acks := [⟨4,.Cancelled⟩] },after') ∧ StaysAway after' 4 := by
  have start : Shows (MatchingEngine.new : MatchingEngine .four .four) Market.empty := shows_new
  obtain ⟨engine,ran,shown⟩ := run_shows start bidsAndAsks
  obtain ⟨after,cancelled,shown₁⟩ := step_shows shown (.cancelOrder ⟨1⟩)
  obtain ⟨last,later,_⟩ := run_shows shown₁ [.newOrder ⟨5,.Sell,90,9,4⟩]
  obtain ⟨engine',ran',shown'⟩ := run_shows start (bidsAndAsks ++ [.cancelOrder ⟨1⟩])
  obtain ⟨after',cancelled',_⟩ := step_shows shown' (.cancelOrder ⟨4⟩)
  have one : (idsOf (resting engine.book)).count 1 = 1 := by
    rw [show resting engine.book = _ from funext shown.walks]
    decide +kernel
  have one' : (idsOf (resting engine'.book)).count 4 = 1 := by
    rw [show resting engine'.book = _ from funext shown'.walks]
    decide +kernel
  have away := (cancelled_staysAway_iff ran cancelled (by decide +kernel)).mpr one
  have away' := (cancelled_staysAway_iff ran' cancelled' (by decide +kernel)).mpr one'
  have told : ∀ m, .newOrder m ∈ [Command.newOrder ⟨5,.Sell,90,9,4⟩] → m.orderId ≠ 1 := by
    intro m inside
    cases List.mem_singleton.mp inside
    decide
  exact ⟨_,engine,after,last,ran,cancelled,away,later,(away _ _ last told later).1,_,engine',after',ran',cancelled',away'⟩

/-- Two bids under one identifier, of which one is cancelled: the other trades. -/
theorem cancelled_trades_again :
    ¬ ∀ (commands : List Command) (outcomes : List Outcome) (engine after : MatchingEngine .four .four)
        (cancel : CancelOrder) (outcome : Outcome), run MatchingEngine.new commands = some (outcomes,engine) →
      engine.processCancelOrder cancel = some (outcome,after) → outcome.acks = [⟨cancel.orderId,.Cancelled⟩] →
        StaysAway after cancel.orderId := by
  intro all
  have start : Shows (MatchingEngine.new : MatchingEngine .four .four) Market.empty := shows_new
  obtain ⟨engine,ran,shown⟩ := run_shows start [.newOrder ⟨1,.Buy,100,5,0⟩,.newOrder ⟨1,.Buy,100,5,1⟩]
  obtain ⟨after,cancelled,next⟩ := step_shows shown (.cancelOrder ⟨1⟩)
  obtain ⟨last,ran',_⟩ := run_shows next [.newOrder ⟨2,.Sell,100,5,2⟩]
  obtain ⟨_,silent⟩ := all _ _ engine after ⟨1⟩ _ ran cancelled (by decide) _ _ last
    (by intro m inside; cases List.mem_singleton.mp inside; decide) ran'
  exact silent { accepted := true, trades := [⟨1,100,5,2,1⟩] } (by decide) ⟨1,100,5,2,1⟩ List.mem_cons_self rfl

/-! ### Filled orders -/

/-- The resting quantity that crosses an incoming order. -/
def crossing (incoming : NewOrder) (walk : List Entry) : Nat :=
  held (walk.filter (fun e => priceCrosses incoming.side incoming.priceTicks e.priceTicks))

/-- Enough rests on the opposite side to fill the order when it arrives. -/
def FillsOnArrival (engine : MatchingEngine maxOrders maxPriceLevels) (incoming : NewOrder) : Prop :=
  incoming.quantity.toNat ≤ crossing incoming (resting engine.book (opposite incoming.side))

/-- A sweep takes what crosses, as far as the incoming order goes. -/
theorem sweep_left (incoming : NewOrder) {walk : List Entry}
    (sorted : walk.Pairwise (fun a b => ¬ Outranks (opposite incoming.side) b a)) (execSeq : UInt64) (remaining : UInt32) :
    (sweep incoming walk execSeq remaining).2.1.toNat = remaining.toNat - crossing incoming walk := by
  induction walk generalizing execSeq remaining with
  | nil => simp [sweep,crossing,held,heldBy]
  | cons e rest ih =>
    obtain ⟨first,sorted⟩ := List.pairwise_cons.mp sorted
    have left := (sub_stdMin_toNat remaining e.remainingQty)
    rcases sweep_cons incoming e rest execSeq remaining with ⟨_,crosses,gone,swept⟩ | ⟨_,crosses,kept,swept⟩ | ⟨closed,swept⟩
    · have later := ih sorted (execSeq + 1) (remaining - stdMin remaining e.remainingQty)
      rw [gone,UInt32.toNat_zero] at left
      rw [swept]
      simp only [crossing,held,List.filter_cons,crosses,if_true,heldBy] at later ⊢
      omega
    · have spent := left_when_kept kept
      rw [spent,UInt32.toNat_zero] at left
      rw [swept]
      simp only [crossing,held,List.filter_cons,crosses,if_true,heldBy,spent,UInt32.toNat_zero]
      omega
    · rw [swept]
      by_cases crosses : priceCrosses incoming.side incoming.priceTicks e.priceTicks = true
      · have none : remaining = 0 := by
          by_contra some
          exact closed ⟨pos_of_ne_zero some,crosses⟩
        simp [none]
      · have nobody : (e :: rest).filter (fun e => priceCrosses incoming.side incoming.priceTicks e.priceTicks) = [] := by
          rw [List.filter_eq_nil_iff]
          intro a inside
          rcases List.mem_cons.mp inside with rfl | later
          · exact crosses
          · exact not_crosses_worse incoming (fun better => first a later (.inl better)) crosses
        simp [crossing,nobody,held,heldBy]

theorem fillsOnArrival_iff {engine : MatchingEngine maxOrders maxPriceLevels} (sound : Sound engine) (incoming : NewOrder) :
    FillsOnArrival engine incoming ↔ ((view engine).sweptBy incoming).2.1 = 0 := by
  have left := sweep_left incoming (resting_sorted sound.good (opposite incoming.side)) engine.nextExecSeq incoming.quantity
  rw [FillsOnArrival,Exchange.sweptBy,← UInt32.toNat_inj,UInt32.toNat_zero]
  simp only [view]
  omega

/-- A sweep fills a first part of its walk. -/
theorem sweep_filled (incoming : NewOrder) (walk : List Entry) (execSeq : UInt64) (remaining : UInt32) :
    walk.map Entry.orderId =
      filled incoming walk remaining ++ (sweep incoming walk execSeq remaining).2.2.map Entry.orderId := by
  induction walk generalizing execSeq remaining with
  | nil => rfl
  | cons e rest ih =>
    rcases sweep_cons incoming e rest execSeq remaining with ⟨some,crosses,gone,swept⟩ | ⟨some,crosses,kept,swept⟩ | ⟨closed,swept⟩
    · rw [swept,filled,if_pos ⟨some,crosses⟩,if_pos gone,List.map_cons,List.cons_append,
        ih (execSeq + 1) (remaining - stdMin remaining e.remainingQty)]
    · rw [swept,filled,if_pos ⟨some,crosses⟩,if_neg kept]
      rfl
    · rw [swept,filled,if_neg closed]
      rfl

theorem idsOf_filled (ex : Exchange) (incoming : NewOrder) :
    (idsOf ex.walks).Perm (ex.filledBy incoming ++ idsOf (ex.traded incoming)) := by
  have swept := sweep_filled incoming (ex.walks (opposite incoming.side)) ex.nextExecSeq incoming.quantity
  have after := idsOf_perm (ex.traded incoming) (opposite incoming.side)
  have own : ex.traded incoming (opposite (opposite incoming.side)) = ex.walks (opposite (opposite incoming.side)) :=
    Function.update_of_ne (opposite_ne _) _ _
  rw [own,Exchange.traded,Function.update_self] at after
  refine (idsOf_perm ex.walks (opposite incoming.side)).trans ?_
  rw [swept,List.append_assoc]
  exact after.symm.append_left _

/-- Identifiers recorded one after another while there is room. -/
theorem foldl_recorded {capacity : Nat} {ids more : List UInt64} (apart : (ids ++ more).Nodup)
    (room : (ids ++ more).length ≤ capacity) : more.foldl (RetiredIdSet.recorded capacity) ids = ids ++ more := by
  induction more generalizing ids with
  | nil => simp
  | cons id rest ih =>
    have split : ids ++ id :: rest = (ids ++ [id]) ++ rest := by simp
    have missing : id ∉ ids := by
      rw [List.nodup_middle,List.nodup_cons] at apart
      exact fun inside => apart.1 (List.mem_append_left _ inside)
    have short : ids.length ≠ capacity := by
      rw [List.length_append,List.length_cons] at room
      omega
    rw [split] at apart room ⊢
    rw [List.foldl_cons,RetiredIdSet.recorded,if_neg missing,if_neg short]
    exact ih apart room

/-! ### What the engine remembers -/

/-- An order of the run that passed validation. -/
def Entered (commands : List Command) (m : NewOrder) : Prop := .newOrder m ∈ commands ∧ validateNewOrder m = none

/-- The order was filled on arrival. -/
def FilledAtOnce (records : List (Record maxOrders maxPriceLevels)) (m : NewOrder) : Prop :=
  ∃ r ∈ records, r.command = .newOrder m ∧ FillsOnArrival r.before m

/-- A cancellation of the identifier was acknowledged. -/
def withdrawn (records : List (Record maxOrders maxPriceLevels)) (id : UInt64) : Bool :=
  records.any (fun r => decide (r.command = .cancelOrder ⟨id⟩) && r.outcome.accepted)

/-- The order has left the system: its trades make up its quantity, or it was
    cancelled. -/
def hasLeft (records : List (Record maxOrders maxPriceLevels)) (m : NewOrder) : Bool :=
  decide (total (Record.charged m.orderId) records = m.quantity.toNat) || withdrawn records m.orderId

/-- The orders that have left the system. -/
def leavers (commands : List Command) (records : List (Record maxOrders maxPriceLevels)) : List UInt64 :=
  commands.filterMap (fun c => match c with
    | .newOrder m => if validateNewOrder m = none ∧ hasLeft records m = true then some m.orderId else none
    | .cancelOrder _ => none)

/-- The identifiers that a run has retired (`gone`), and where every order of the
    run is: in the book, retired, filled on arrival, or refused by the pools. -/
structure Remembers (commands : List Command) (records : List (Record maxOrders maxPriceLevels))
    (engine : MatchingEngine maxOrders maxPriceLevels) (market : Market) (gone : List UInt64) : Prop where
  balanced : Balanced commands records engine
  shown : Shows engine market
  listed : records.map Record.command = commands
  apart : (gone ++ idsOf (resting engine.book)).Nodup
  whole : ∀ id ∈ gone ++ idsOf (resting engine.book), total (Record.dropped id) records = 0 ∧
    ∃ m, Entered commands m ∧ m.orderId = id
  place : ∀ m, Entered commands m → m.orderId ∈ gone ++ idsOf (resting engine.book) ∨ FilledAtOnce records m ∨
    0 < total (Record.dropped m.orderId) records
  atOnce : ∀ m, Entered commands m → FilledAtOnce records m → total (Record.dropped m.orderId) records = 0 ∧
    m.orderId ∉ gone ++ idsOf (resting engine.book)
  cancelled : ∀ id, withdrawn records id = true → id ∈ gone
  retired : gone.length ≤ maxOrders.size → market.retired = gone

theorem remembers_new : Remembers [] [] (MatchingEngine.new : MatchingEngine maxOrders maxPriceLevels) Market.empty [] := by
  have empty : idsOf (resting (MatchingEngine.new : MatchingEngine maxOrders maxPriceLevels).book) = [] := by
    rw [show resting _ = _ from funext shows_new.walks]
    rfl
  refine ⟨balanced_new,shows_new,rfl,?_,?_,?_,?_,?_,fun _ => rfl⟩
  · rw [empty]
    exact List.nodup_nil
  · rw [empty]
    rintro id ⟨⟩
  · rintro m ⟨⟨⟩,_⟩
  · rintro m ⟨⟨⟩,_⟩
  · rintro id ⟨⟩

section
variable {commands : List Command} {records : List (Record maxOrders maxPriceLevels)}
  {engine : MatchingEngine maxOrders maxPriceLevels} {market : Market} {gone : List UInt64}

theorem withdrawn_concat (records : List (Record maxOrders maxPriceLevels)) (r : Record maxOrders maxPriceLevels) (id : UInt64) :
    withdrawn (records ++ [r]) id =
      (withdrawn records id || decide (r.command = .cancelOrder ⟨id⟩) && r.outcome.accepted) := by
  simp [withdrawn]

theorem FilledAtOnce.listed (remembers : Remembers commands records engine market gone) {m : NewOrder}
    (atOnce : FilledAtOnce records m) : .newOrder m ∈ commands := by
  obtain ⟨r,inside,command,_⟩ := atOnce
  rw [← remembers.listed,← command]
  exact List.mem_map_of_mem inside

/-- A record that changes neither the book nor what is retired. -/
theorem Remembers.idle (remembers : Remembers commands records engine market gone) {r : Record maxOrders maxPriceLevels}
    (balanced : Balanced (commands ++ [r.command]) (records ++ [r]) engine) (nobody : ∀ m, r.command = .newOrder m →
      validateNewOrder m ≠ none) (refused : r.outcome.accepted = false) (dropped : ∀ id, r.dropped id = 0) :
    Remembers (commands ++ [r.command]) (records ++ [r]) engine market gone := by
  have entered : ∀ m, Entered (commands ++ [r.command]) m → Entered commands m := by
    rintro m ⟨inside,valid⟩
    rcases List.mem_append.mp inside with old | last
    · exact ⟨old,valid⟩
    · exact absurd valid (nobody m (List.mem_singleton.mp last).symm)
  have atOnce : ∀ m, Entered commands m → FilledAtOnce (records ++ [r]) m → FilledAtOnce records m := by
    rintro m ⟨_,valid⟩ ⟨q,inside,command,fills⟩
    rcases List.mem_append.mp inside with old | last
    · exact ⟨q,old,command,fills⟩
    · rw [List.mem_singleton.mp last] at command
      exact absurd valid (nobody m command)
  refine ⟨balanced,remembers.shown,by rw [List.map_append,remembers.listed]; rfl,remembers.apart,?_,?_,?_,?_,
    remembers.retired⟩
  · intro id inside
    obtain ⟨none,m,⟨old,valid⟩,same⟩ := remembers.whole id inside
    rw [total_concat,none,dropped]
    exact ⟨rfl,m,⟨List.mem_append_left _ old,valid⟩,same⟩
  · intro m inside
    rw [total_concat,dropped,Nat.add_zero]
    rcases remembers.place m (entered m inside) with here | ⟨q,old,others⟩ | lost
    · exact .inl here
    · exact .inr (.inl ⟨q,List.mem_append_left _ old,others⟩)
    · exact .inr (.inr lost)
  · intro m inside filledAtOnce
    rw [total_concat,dropped,Nat.add_zero]
    exact remembers.atOnce m (entered m inside) (atOnce m (entered m inside) filledAtOnce)
  · intro id cancelled
    rw [withdrawn_concat,refused,Bool.and_false,Bool.or_false] at cancelled
    exact remembers.cancelled id cancelled

/-- The identifiers that a new order retires and leaves in the book: those that were
    there, with its own if a rest of it is put into the book. -/
theorem newOrder_place (sound : Sound engine) (m : NewOrder) (gone : List UInt64) :
    ∃ rested, ((gone ++ (view engine).filledBy m) ++ idsOf ((view engine).newOrder maxOrders maxPriceLevels m).2.walks).Perm
        (rested ++ (gone ++ idsOf (resting engine.book))) ∧
      ((rested = [] ∧ FillsOnArrival engine m ∧ droppedQty engine m = 0) ∨
        (rested = [] ∧ ¬ FillsOnArrival engine m ∧ 0 < droppedQty engine m) ∨
        (rested = [m.orderId] ∧ ¬ FillsOnArrival engine m ∧ droppedQty engine m = 0)) := by
  have swept : ((gone ++ (view engine).filledBy m) ++ idsOf ((view engine).traded m)).Perm
      (gone ++ idsOf (resting engine.book)) := by
    rw [List.append_assoc]
    exact (idsOf_filled (view engine) m).symm.append_left gone
  rw [fillsOnArrival_iff sound,droppedQty_eq sound]
  rcases newOrder_cases maxOrders maxPriceLevels (view engine) m with
    ⟨none,dropped,walks⟩ | ⟨some,_,dropped,walks⟩ | ⟨some,_,dropped,walks⟩
  · rw [walks]
    exact ⟨[],swept,.inl ⟨rfl,none,dropped⟩⟩
  · have left : 0 < ((view engine).sweptBy m).2.1.toNat := by rw [← UInt32.toNat_zero]; exact UInt32.lt_iff_toNat_lt.mp some
    rw [walks,dropped]
    refine ⟨[],swept,.inr (.inl ⟨rfl,?_,left⟩)⟩
    intro zero
    rw [zero] at some
    exact UInt32.lt_irrefl 0 some
  · refine ⟨[m.orderId],?_,.inr (.inr ⟨rfl,?_,dropped⟩)⟩
    · refine ((idsOf_rested rfl walks).append_left _).trans (List.perm_middle.trans ?_)
      exact swept.cons m.orderId
    · intro zero
      rw [zero] at some
      exact UInt32.lt_irrefl 0 some

/-- Nothing is on the books of an identifier that no order has had. -/
theorem Remembers.unused (remembers : Remembers commands records engine market gone) {m : NewOrder}
    (distinct : ((commands ++ [Command.newOrder m]).filterMap newOrderId).Nodup) :
    (∀ a, .newOrder a ∈ commands → a.orderId ≠ m.orderId) ∧ m.orderId ∉ gone ++ idsOf (resting engine.book) ∧
      total (Record.dropped m.orderId) records = 0 := by
  have others : ∀ a, .newOrder a ∈ commands → a.orderId ≠ m.orderId := by
    intro a inside same
    rw [List.filterMap_append,List.nodup_append] at distinct
    exact distinct.2.2 a.orderId (List.mem_filterMap.mpr ⟨_,inside,rfl⟩) m.orderId (by simp [newOrderId]) same
  refine ⟨others,?_,?_⟩
  · intro inside
    obtain ⟨_,a,⟨old,_⟩,same⟩ := remembers.whole m.orderId inside
    exact others a old same
  · have nothing : submitted m.orderId commands = 0 := by
      rw [submitted,List.sum_eq_zero_iff_forall_eq_nat]
      intro n inside
      obtain ⟨c,inCommands,rfl⟩ := List.mem_map.mp inside
      cases c with
      | newOrder a => rw [submittedBy,if_neg (fun both => others a inCommands both.1)]
      | cancelOrder c => rfl
    have ledger := remembers.balanced.ledger m.orderId
    omega

/-- An order that passes validation. -/
theorem Remembers.newOrder (remembers : Remembers commands records engine market gone) {m : NewOrder}
    (valid : validateNewOrder m = none) (distinct : ((commands ++ [Command.newOrder m]).filterMap newOrderId).Nodup)
    {outcome : Outcome} {engine' : MatchingEngine maxOrders maxPriceLevels}
    (balanced : Balanced (commands ++ [.newOrder m]) (records ++ [⟨engine,.newOrder m,outcome,engine'⟩]) engine')
    (shown : Shows engine' (market.step maxOrders maxPriceLevels (.newOrder m)).2) :
    Remembers (commands ++ [.newOrder m]) (records ++ [⟨engine,.newOrder m,outcome,engine'⟩]) engine'
      (market.step maxOrders maxPriceLevels (.newOrder m)).2 (gone ++ (view engine).filledBy m) := by
  obtain ⟨others,fresh,unrefused⟩ := remembers.unused distinct
  obtain ⟨rested,perm,settled⟩ := newOrder_place remembers.balanced.sound m gone
  have stepped : (market.step maxOrders maxPriceLevels (.newOrder m)).2 =
      ⟨((view engine).newOrder maxOrders maxPriceLevels m).2,
        ((view engine).filledBy m).foldl (RetiredIdSet.recorded maxOrders.size) market.retired⟩ := by
    rw [remembers.shown.viewed]
    simp only [Market.step,Market.newOrder,valid]
  have walks : resting engine'.book = ((view engine).newOrder maxOrders maxPriceLevels m).2.walks := by
    rw [show resting engine'.book = _ from funext shown.walks,stepped]
  rw [← walks] at perm
  have dropped : ∀ id, Record.dropped id (⟨engine,.newOrder m,outcome,engine'⟩ : Record maxOrders maxPriceLevels) =
      if m.orderId = id then droppedQty engine m else 0 := by
    intro id
    simp only [Record.dropped,valid,and_true]
  have apart : ((gone ++ (view engine).filledBy m) ++ idsOf (resting engine'.book)).Nodup := by
    rw [perm.nodup_iff]
    rcases settled with ⟨rfl,_⟩ | ⟨rfl,_⟩ | ⟨rfl,_⟩
    · exact remembers.apart
    · exact remembers.apart
    · exact List.nodup_cons.mpr ⟨fresh,remembers.apart⟩
  have old : ∀ id, id ∈ gone ++ idsOf (resting engine.book) →
      id ∈ (gone ++ (view engine).filledBy m) ++ idsOf (resting engine'.book) :=
    fun id inside => perm.mem_iff.mpr (List.mem_append_right _ inside)
  have new : ∀ id, id ∈ (gone ++ (view engine).filledBy m) ++ idsOf (resting engine'.book) →
      id ≠ m.orderId → id ∈ gone ++ idsOf (resting engine.book) := by
    intro id inside other
    rcases List.mem_append.mp (perm.mem_iff.mp inside) with here | there
    · rcases settled with ⟨rfl,_⟩ | ⟨rfl,_⟩ | ⟨rfl,_⟩
      · cases here
      · cases here
      · exact absurd (List.mem_singleton.mp here) other
    · exact there
  refine ⟨balanced,shown,by rw [List.map_append,remembers.listed]; rfl,apart,?_,?_,?_,?_,?_⟩
  · intro id inside
    rw [total_concat,dropped]
    by_cases own : id = m.orderId
    · subst own
      refine ⟨?_,m,⟨List.mem_append_right _ List.mem_cons_self,valid⟩,rfl⟩
      rw [unrefused,if_pos rfl]
      rcases settled with ⟨_,_,none⟩ | ⟨rfl,_⟩ | ⟨_,_,none⟩
      · rw [none]
      · exact absurd (perm.mem_iff.mp inside) fresh
      · rw [none]
    · obtain ⟨none,a,⟨earlier,ok⟩,same⟩ := remembers.whole id (new id inside own)
      rw [none,if_neg (Ne.symm own)]
      exact ⟨rfl,a,⟨List.mem_append_left _ earlier,ok⟩,same⟩
  · rintro a ⟨inside,ok⟩
    rw [total_concat,dropped]
    rcases List.mem_append.mp inside with earlier | last
    · rcases remembers.place a ⟨earlier,ok⟩ with here | ⟨q,inRecords,filledThen⟩ | lost
      · exact .inl (old _ here)
      · exact .inr (.inl ⟨q,List.mem_append_left _ inRecords,filledThen⟩)
      · exact .inr (.inr (by omega))
    · cases List.mem_singleton.mp last
      rcases settled with ⟨_,fills,_⟩ | ⟨_,_,lost⟩ | ⟨rfl,_⟩
      · exact .inr (.inl ⟨_,List.mem_append_right _ List.mem_cons_self,rfl,fills⟩)
      · rw [if_pos rfl]
        exact .inr (.inr (by omega))
      · exact .inl (perm.mem_iff.mpr (List.mem_append_left _ List.mem_cons_self))
  · rintro a ⟨_,ok⟩ ⟨q,inRecords,command,fills⟩
    rw [total_concat,dropped]
    rcases List.mem_append.mp inRecords with earlier | last
    · have filledThen : FilledAtOnce records a := ⟨q,earlier,command,fills⟩
      have inCommands := filledThen.listed remembers
      obtain ⟨none,missing⟩ := remembers.atOnce a ⟨inCommands,ok⟩ filledThen
      have other := others a inCommands
      rw [none,if_neg (Ne.symm other)]
      exact ⟨rfl,fun inside => missing (new a.orderId inside other)⟩
    · rw [List.mem_singleton.mp last] at command fills
      cases command
      rw [unrefused,if_pos rfl]
      rcases settled with ⟨rfl,_,none⟩ | ⟨_,not,_⟩ | ⟨_,not,_⟩
      · exact ⟨by rw [none],fun inside => fresh (perm.mem_iff.mp inside)⟩
      · exact absurd fills not
      · exact absurd fills not
  · intro id cancelled
    rw [withdrawn_concat] at cancelled
    simp only [reduceCtorEq,decide_false,Bool.false_and,Bool.or_false] at cancelled
    exact List.mem_append_left _ (remembers.cancelled id cancelled)
  · intro room
    rw [stepped]
    simp only
    have before := remembers.retired (by rw [List.length_append] at room; omega)
    rw [before]
    exact foldl_recorded (List.nodup_append.mp apart).1 room

/-- An acknowledged cancellation. -/
theorem Remembers.cancelOrder (remembers : Remembers commands records engine market gone) {c : CancelOrder} {e : Entry}
    {outcome : Outcome} {engine' : MatchingEngine maxOrders maxPriceLevels}
    (taken : (view engine).cancel c.orderId = (some e,view engine'))
    (balanced : Balanced (commands ++ [.cancelOrder c]) (records ++ [⟨engine,.cancelOrder c,outcome,engine'⟩]) engine')
    (shown : Shows engine' (market.step maxOrders maxPriceLevels (.cancelOrder c)).2) :
    Remembers (commands ++ [.cancelOrder c]) (records ++ [⟨engine,.cancelOrder c,outcome,engine'⟩]) engine'
      (market.step maxOrders maxPriceLevels (.cancelOrder c)).2 (gone ++ [c.orderId]) := by
  have perm : ((gone ++ [c.orderId]) ++ idsOf (resting engine'.book)).Perm (gone ++ idsOf (resting engine.book)) := by
    rw [List.append_assoc]
    exact (idsOf_cancel taken).symm.append_left gone
  have entered : ∀ m, Entered (commands ++ [.cancelOrder c]) m ↔ Entered commands m := by
    intro m
    simp [Entered]
  have dropped : ∀ id, Record.dropped id (⟨engine,.cancelOrder c,outcome,engine'⟩ : Record maxOrders maxPriceLevels) = 0 :=
    fun id => rfl
  have atOnce : ∀ m, FilledAtOnce (records ++ [⟨engine,.cancelOrder c,outcome,engine'⟩]) m ↔ FilledAtOnce records m := by
    intro m
    simp [FilledAtOnce,or_and_right,exists_or]
  have stepped : (market.step maxOrders maxPriceLevels (.cancelOrder c)).2.retired =
      RetiredIdSet.recorded maxOrders.size market.retired c.orderId := by
    rw [remembers.shown.viewed] at taken
    simp only [Market.step,Market.cancelOrder,taken]
  have apart := perm.nodup_iff.mpr remembers.apart
  refine ⟨balanced,shown,by rw [List.map_append,remembers.listed]; rfl,apart,?_,?_,?_,?_,?_⟩
  · intro id inside
    rw [total_concat,dropped,Nat.add_zero]
    obtain ⟨none,m,old,same⟩ := remembers.whole id (perm.mem_iff.mp inside)
    exact ⟨none,m,(entered m).mpr old,same⟩
  · intro m inside
    rw [total_concat,dropped,Nat.add_zero,atOnce,perm.mem_iff]
    exact remembers.place m ((entered m).mp inside)
  · intro m inside filledThen
    rw [total_concat,dropped,Nat.add_zero,perm.mem_iff]
    exact remembers.atOnce m ((entered m).mp inside) ((atOnce m).mp filledThen)
  · intro id cancelled
    rw [withdrawn_concat,Bool.or_eq_true,Bool.and_eq_true,decide_eq_true_eq] at cancelled
    rcases cancelled with earlier | ⟨here,_⟩
    · exact List.mem_append_left _ (remembers.cancelled id earlier)
    · cases here
      exact List.mem_append_right _ List.mem_cons_self
  · intro room
    have before := remembers.retired (by rw [List.length_append] at room; omega)
    rw [stepped,before]
    exact foldl_recorded (List.nodup_append.mp apart).1 room

/-- One call keeps the account of where orders are. -/
theorem step_remembers (remembers : Remembers commands records engine market gone) (command : Command)
    (distinct : ((commands ++ [command]).filterMap newOrderId).Nodup) :
    ∃ outcome engine' market' gone', step engine command = some (outcome,engine') ∧
      Remembers (commands ++ [command]) (records ++ [⟨engine,command,outcome,engine'⟩]) engine' market' gone' := by
  obtain ⟨engine',stepped,shown⟩ := step_shows remembers.shown command
  obtain ⟨_,_,stepped',balanced⟩ := step_balanced remembers.balanced command distinct
  obtain ⟨rfl,rfl⟩ := Prod.mk.inj (Option.some.inj (stepped.symm.trans stepped'))
  cases command with
  | newOrder m =>
    cases checked : validateNewOrder m with
    | none => exact ⟨_,engine',_,_,stepped,remembers.newOrder checked distinct balanced shown⟩
    | some reason =>
      rcases processNewOrderChecked_spec remembers.shown.sound m with ⟨_,_,ran⟩ | ⟨valid,_⟩
      · obtain ⟨answer,rfl⟩ := Prod.mk.inj (Option.some.inj (stepped.symm.trans ran))
        rw [answer] at balanced stepped
        refine ⟨_,engine',market,gone,stepped,remembers.idle (r := ⟨engine',.newOrder m,_,engine'⟩) balanced ?_ rfl ?_⟩
        · rintro a ⟨rfl⟩
          rw [checked]
          simp
        · intro id
          simp [Record.dropped,checked]
      · rw [valid] at checked
        cases checked
  | cancelOrder c =>
    rcases processCancelOrder_spec remembers.shown.sound c with ⟨e,after,ran,_,taken,_⟩ | ⟨known,_,ran,_⟩
    · obtain ⟨_,rfl⟩ := Prod.mk.inj (Option.some.inj (stepped.symm.trans ran))
      exact ⟨_,engine',_,_,stepped,remembers.cancelOrder taken balanced shown⟩
    · obtain ⟨answer,rfl⟩ := Prod.mk.inj (Option.some.inj (stepped.symm.trans ran))
      rw [answer] at balanced stepped
      exact ⟨_,engine',market,gone,stepped,remembers.idle (r := ⟨engine',.cancelOrder c,_,engine'⟩) balanced
        (fun m other => by cases other) rfl (fun id => rfl)⟩

theorem trace_remembers (remembers : Remembers commands records engine market gone) (more : List Command)
    (distinct : ((commands ++ more).filterMap newOrderId).Nodup) :
    ∃ later engine' market' gone', trace engine more = some (later,engine') ∧
      Remembers (commands ++ more) (records ++ later) engine' market' gone' := by
  induction more generalizing engine commands records market gone with
  | nil => exact ⟨[],engine,market,gone,rfl,by simpa using remembers⟩
  | cons command rest ih =>
    have split : commands ++ command :: rest = (commands ++ [command]) ++ rest := by simp
    have first : ((commands ++ [command]).filterMap newOrderId).Nodup := by
      rw [split,List.filterMap_append] at distinct
      exact (List.nodup_append.mp distinct).1
    obtain ⟨outcome,after,_,_,stepped,next⟩ := step_remembers remembers command first
    rw [split] at distinct
    obtain ⟨later,engine',market',gone',ran,last⟩ := ih next distinct
    refine ⟨⟨engine,command,outcome,after⟩ :: later,engine',market',gone',by simp [trace,stepped,ran],?_⟩
    rw [split]
    simpa using last
end

/-! ### Reasons of rejections -/

theorem heldIn_absent {walks : Side → List Entry} {id : UInt64} (absent : id ∉ idsOf walks) :
    heldIn (fun x => decide (x = id)) walks = 0 := by
  have none : ∀ s, heldBy (fun x => decide (x = id)) (walks s) = 0 :=
    fun s => heldBy_none (fun e m => decide_eq_false (fun same => absent (mem_idsOf.mpr ⟨s,e,m,same⟩)))
  rw [heldIn,none,none]

theorem cancelled_eq_zero {records : List (Record maxOrders maxPriceLevels)} {id : UInt64}
    (kept : withdrawn records id = false) : total (Record.cancelled id) records = 0 := by
  rw [total,List.sum_eq_zero_iff_forall_eq_nat]
  intro n inside
  obtain ⟨r,inRecords,rfl⟩ := List.mem_map.mp inside
  have here := List.any_eq_false.mp kept r inRecords
  rw [Record.cancelled]
  split
  · rfl
  · rename_i c command
    rw [if_neg]
    rintro ⟨rfl,accepted⟩
    simp [command,accepted] at here

section
variable {commands : List Command} {records : List (Record maxOrders maxPriceLevels)}
  {engine : MatchingEngine maxOrders maxPriceLevels} {market : Market} {gone : List UInt64}

/-- An order of which nothing was refused and nothing rests has left. -/
theorem Remembers.hasLeft (remembers : Remembers commands records engine market gone)
    (distinct : (commands.filterMap newOrderId).Nodup) {m : NewOrder} (entered : Entered commands m)
    (none : total (Record.dropped m.orderId) records = 0) (absent : m.orderId ∉ idsOf (resting engine.book)) :
    hasLeft records m = true := by
  have ledger := remembers.balanced.ledger m.orderId
  rw [submitted_unique distinct entered.1 entered.2,heldIn_absent absent,none] at ledger
  rw [Matching.hasLeft,Bool.or_eq_true]
  cases kept : withdrawn records m.orderId with
  | true => exact .inr rfl
  | false =>
    rw [cancelled_eq_zero kept] at ledger
    exact .inl (decide_eq_true (by omega))

theorem Remembers.gone_le (remembers : Remembers commands records engine market gone)
    (distinct : (commands.filterMap newOrderId).Nodup) : gone.length ≤ (leavers commands records).length := by
  obtain ⟨nodup,_,apart⟩ := List.nodup_append.mp remembers.apart
  refine (List.subperm_of_subset nodup ?_).length_le
  intro id inside
  obtain ⟨none,m,entered,rfl⟩ := remembers.whole id (List.mem_append_left _ inside)
  have left := remembers.hasLeft distinct entered none (fun resting => apart _ inside _ resting rfl)
  exact List.mem_filterMap.mpr ⟨_,entered.1,if_pos ⟨entered.2,left⟩⟩
end

/-- The cancellation is rejected for this reason. -/
def RejectedFor (engine : MatchingEngine maxOrders maxPriceLevels) (cancel : CancelOrder) (reason : RejectReason) : Prop :=
  engine.processCancelOrder cancel = some ({ accepted := false, rejects := [⟨cancel.orderId,reason⟩] },engine)

/-- The reason tells whether an order with the identifier has left or none ever
    entered. -/
def TellsTruth (commands : List Command) (records : List (Record maxOrders maxPriceLevels))
    (engine : MatchingEngine maxOrders maxPriceLevels) (cancel : CancelOrder) : Prop :=
  (∀ m, Entered commands m → m.orderId = cancel.orderId → hasLeft records m = true →
      RejectedFor engine cancel .NoLongerResting) ∧
    ((∀ m, Entered commands m → m.orderId ≠ cancel.orderId) → RejectedFor engine cancel .OrderNotFound)

/-- In every run with distinct identifiers of new orders and no more leavers than the
    set of retired identifiers holds, the cancellation of an identifier that does not
    rest is told the truth if and only if no order with it was filled on arrival. -/
theorem cancel_tellsTruth_iff {commands : List Command} (distinct : (commands.filterMap newOrderId).Nodup)
    {records : List (Record maxOrders maxPriceLevels)} {engine : MatchingEngine maxOrders maxPriceLevels}
    (ran : trace MatchingEngine.new commands = some (records,engine))
    (few : (leavers commands records).length ≤ maxOrders.size) {cancel : CancelOrder}
    (absent : ∀ s, ∀ e ∈ resting engine.book s, e.orderId ≠ cancel.orderId) :
    TellsTruth commands records engine cancel ↔
      ∀ m, Entered commands m → m.orderId = cancel.orderId → ¬ FilledAtOnce records m := by
  obtain ⟨_,_,market,gone,ran',remembers⟩ := trace_remembers remembers_new commands (by simpa using distinct)
  obtain ⟨rfl,rfl⟩ := Prod.mk.inj (Option.some.inj (ran.symm.trans ran'))
  rw [List.nil_append,List.nil_append] at remembers
  have missing : cancel.orderId ∉ idsOf (resting engine.book) := by
    rw [mem_idsOf]
    rintro ⟨s,e,inside,same⟩
    exact absent s e inside same
  have retired := remembers.retired (Nat.le_trans (remembers.gone_le distinct) few)
  have answer : RejectedFor engine cancel (if cancel.orderId ∈ gone then .NoLongerResting else .OrderNotFound) := by
    rcases processCancelOrder_spec remembers.shown.sound cancel with ⟨e,after,_,_,taken,_⟩ | ⟨known,asked,done,_⟩
    · have inside := (idsOf_cancel taken).mem_iff.mpr List.mem_cons_self
      exact absurd inside missing
    · rw [remembers.shown.contains,retired] at asked
      cases asked
      rw [RejectedFor,done]
      simp
  constructor
  · rintro ⟨truth,_⟩ m entered same filledThen
    obtain ⟨none,away⟩ := remembers.atOnce m entered filledThen
    have told := truth m entered same (remembers.hasLeft distinct entered none (by rw [same]; exact missing))
    rw [same] at away
    rw [if_neg (fun inside => away (List.mem_append_left _ inside)),RejectedFor,told] at answer
    simp at answer
  · intro slowly
    constructor
    · intro m entered same left
      have inside : cancel.orderId ∈ gone := by
        rw [← same]
        rcases remembers.place m entered with here | filledThen | lost
        · rcases List.mem_append.mp here with retired | resting
          · exact retired
          · rw [same] at resting
            exact absurd resting missing
        · exact absurd filledThen (slowly m entered same)
        · rw [hasLeft,Bool.or_eq_true,decide_eq_true_eq] at left
          rcases left with filled | cancelled
          · have ledger := remembers.balanced.ledger m.orderId
            rw [submitted_unique distinct entered.1 entered.2] at ledger
            omega
          · exact remembers.cancelled _ cancelled
      rw [if_pos inside] at answer
      exact answer
    · intro nobody
      have outside : cancel.orderId ∉ gone := by
        intro inside
        obtain ⟨_,m,entered,same⟩ := remembers.whole _ (List.mem_append_left _ inside)
        exact nobody m entered same
      rw [if_neg outside] at answer
      exact answer

/-- What the trace of an ask and of a bid that takes a part of it shows of the bid. -/
theorem trace_ask_and_bid :
    ∃ records engine, trace (MatchingEngine.new : MatchingEngine .four .four)
        [.newOrder ⟨1,.Sell,100,5,0⟩,.newOrder ⟨2,.Buy,100,2,1⟩] = some (records,engine) ∧
      (leavers [.newOrder ⟨1,.Sell,100,5,0⟩,.newOrder ⟨2,.Buy,100,2,1⟩] records).length ≤ 4 ∧
      hasLeft records ⟨2,.Buy,100,2,1⟩ = true ∧ idsOf (resting engine.book) = [1] ∧
      (engine.processCancelOrder ⟨2⟩).map Prod.fst = some { accepted := false, rejects := [⟨2,.OrderNotFound⟩] } := by
  obtain ⟨records,engine,_,_,ran,_⟩ := trace_remembers (remembers_new : Remembers [] []
    (MatchingEngine.new : MatchingEngine .four .four) _ _) [.newOrder ⟨1,.Sell,100,5,0⟩,.newOrder ⟨2,.Buy,100,2,1⟩] (by decide)
  have facts : (trace (MatchingEngine.new : MatchingEngine .four .four)
      [.newOrder ⟨1,.Sell,100,5,0⟩,.newOrder ⟨2,.Buy,100,2,1⟩]).map (fun r =>
        (decide ((leavers [.newOrder ⟨1,.Sell,100,5,0⟩,.newOrder ⟨2,.Buy,100,2,1⟩] r.1).length ≤ 4),
          hasLeft r.1 ⟨2,.Buy,100,2,1⟩,idsOf (resting r.2.book),(r.2.processCancelOrder ⟨2⟩).map Prod.fst)) =
      some (true,true,[1],some { accepted := false, rejects := [⟨2,.OrderNotFound⟩] }) := by decide
  rw [ran,Option.map_some] at facts
  simp only [Option.some.injEq,Prod.mk.injEq,decide_eq_true_eq] at facts
  exact ⟨records,engine,ran,facts⟩

/-- The bid is filled on arrival, and its cancellation is told that it was never
    there. -/
theorem cancel_after_fill_on_arrival :
    ¬ ∀ (commands : List Command) (records : List (Record .four .four)) (engine : MatchingEngine .four .four)
        (cancel : CancelOrder), (commands.filterMap newOrderId).Nodup →
      trace MatchingEngine.new commands = some (records,engine) → (leavers commands records).length ≤ PoolCapacity.four.size →
      (∀ s, ∀ e ∈ resting engine.book s, e.orderId ≠ cancel.orderId) → TellsTruth commands records engine cancel := by
  intro all
  obtain ⟨records,engine,ran,few,left,ids,answer⟩ := trace_ask_and_bid
  have absent : ∀ s, ∀ e ∈ resting engine.book s, e.orderId ≠ 2 := by
    intro s e inside same
    have named := mem_idsOf.mpr ⟨s,e,inside,same⟩
    rw [ids] at named
    exact absurd named (by decide)
  obtain ⟨truth,_⟩ := all _ records engine ⟨2⟩ (by decide) ran few absent
  have told := truth ⟨2,.Buy,100,2,1⟩ ⟨by decide,by decide⟩ rfl left
  rw [RejectedFor] at told
  rw [told,Option.map_some,Option.some.injEq] at answer
  simp only at answer
  exact absurd answer (by decide)

/-- Cancelling the ask's neighbour that never entered. -/
theorem cancel_tellsTruth_ask_and_bid :
    ∃ records engine, trace (MatchingEngine.new : MatchingEngine .four .four)
        [.newOrder ⟨1,.Sell,100,5,0⟩,.newOrder ⟨2,.Buy,100,2,1⟩] = some (records,engine) ∧
      TellsTruth [.newOrder ⟨1,.Sell,100,5,0⟩,.newOrder ⟨2,.Buy,100,2,1⟩] records engine ⟨3⟩ := by
  obtain ⟨records,engine,ran,few,_,ids,_⟩ := trace_ask_and_bid
  have absent : ∀ s, ∀ e ∈ resting engine.book s, e.orderId ≠ 3 := by
    intro s e inside same
    have named := mem_idsOf.mpr ⟨s,e,inside,same⟩
    rw [ids] at named
    exact absurd named (by decide)
  refine ⟨records,engine,ran,(cancel_tellsTruth_iff (by decide) ran few absent).mpr ?_⟩
  rintro m ⟨inside,_⟩ same
  rcases List.mem_cons.mp inside with here | later
  · cases here
    exact absurd same (by decide)
  · cases List.mem_singleton.mp later
    exact absurd same (by decide)

end HyperMatch.Matching
