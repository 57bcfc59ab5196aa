import HyperMatch.Sweeps

/-!
The ledger of a run. Each call is recorded with the engine before and after it; what
an order has traded, what of it rests, what of it was cancelled and what the pools
refused make up its submitted quantity, as long as the identifiers of new orders
are not used twice.
-/
namespace HyperMatch.Matching
open HyperMatch.Wire HyperMatch.OrderBook HyperMatch.BookLayout HyperMatch.MatchingEngine
set_option linter.unusedSimpArgs false

variable {maxOrders maxPriceLevels : PoolCapacity}

/-! ### Records -/

/-- One call: the engine it found, what it was and did, and the engine it left. -/
structure Record (maxOrders maxPriceLevels : PoolCapacity) where
  before : MatchingEngine maxOrders maxPriceLevels
  command : Command
  outcome : Outcome
  after : MatchingEngine maxOrders maxPriceLevels

/-- The records of a sequence of calls and the engine after them. -/
def trace (engine : MatchingEngine maxOrders maxPriceLevels) :
    List Command → Option (List (Record maxOrders maxPriceLevels) × MatchingEngine maxOrders maxPriceLevels)
  | [] => some ([],engine)
  | command :: rest => do
    let (outcome,after) ← step engine command
    let (records,last) ← trace after rest
    return (⟨engine,command,outcome,after⟩ :: records,last)

theorem run_eq_trace (engine : MatchingEngine maxOrders maxPriceLevels) (commands : List Command) :
    run engine commands = (trace engine commands).map (fun r => (r.1.map Record.outcome,r.2)) := by
  induction commands generalizing engine with
  | nil => rfl
  | cons command rest ih =>
    cases stepped : step engine command with
    | none => simp [run,trace,stepped]
    | some r =>
      rw [run,trace,stepped]
      simp only [Option.bind_eq_bind,Option.bind_some,ih]
      cases trace r.2 rest with
      | none => rfl
      | some later => rfl

/-- The quantity of the order with an identifier, if one rests. -/
def restingQty (engine : MatchingEngine maxOrders maxPriceLevels) (orderId : UInt64) : Nat :=
  match engine.book.findOrder orderId with
  | some node => if node = kNullNode then 0 else (engine.book.orderAt node).remainingQty.toNat
  | none => 0

/-- The quantity of everything that rests. -/
def bookQty (engine : MatchingEngine maxOrders maxPriceLevels) : Nat :=
  held (resting engine.book .Buy) + held (resting engine.book .Sell)

/-- What is left of a new order when the matching loop ends and `insert_order`
    returns false; the engine ignores that result. -/
def droppedQty (engine : MatchingEngine maxOrders maxPriceLevels) (incoming : NewOrder) : Nat :=
  match matchLoop incoming (maxOrders.size + 1) engine incoming.quantity with
  | some (_,remaining,engine) =>
    if remaining > 0 then
      match engine.book.insertOrder incoming.orderId incoming.side incoming.priceTicks incoming.seq remaining with
      | some (false,_) => remaining.toNat
      | _ => 0
    else 0
  | none => 0

namespace Record

/-- The trades of a record that name an order. -/
def charged (orderId : UInt64) (r : Record maxOrders maxPriceLevels) : Nat :=
  tradedBy (fun t => decide (t.incomingId = orderId) || decide (t.restingId = orderId)) r.outcome.trades

def cancelled (orderId : UInt64) (r : Record maxOrders maxPriceLevels) : Nat :=
  match r.command with
  | .newOrder _ => 0
  | .cancelOrder c => if c.orderId = orderId ∧ r.outcome.accepted = true then restingQty r.before orderId else 0

def dropped (orderId : UInt64) (r : Record maxOrders maxPriceLevels) : Nat :=
  match r.command with
  | .newOrder m => if m.orderId = orderId ∧ validateNewOrder m = none then droppedQty r.before m else 0
  | .cancelOrder _ => 0

end Record

/-- The sum of an amount over the records. -/
def total (amount : Record maxOrders maxPriceLevels → Nat) (records : List (Record maxOrders maxPriceLevels)) : Nat :=
  (records.map amount).sum

theorem total_concat (amount : Record maxOrders maxPriceLevels → Nat) (records : List (Record maxOrders maxPriceLevels))
    (r : Record maxOrders maxPriceLevels) : total amount (records ++ [r]) = total amount records + amount r := by
  simp [total]

/-- The identifier of a new order. -/
def newOrderId : Command → Option UInt64
  | .newOrder m => some m.orderId
  | .cancelOrder _ => none

/-- The quantity submitted under an identifier by orders that pass validation. -/
def submittedBy (orderId : UInt64) : Command → Nat
  | .newOrder m => if m.orderId = orderId ∧ validateNewOrder m = none then m.quantity.toNat else 0
  | .cancelOrder _ => 0
def submitted (orderId : UInt64) (commands : List Command) : Nat := (commands.map (submittedBy orderId)).sum

/-! ### The amounts of a sound engine -/

def idsOf (walks : Side → List Entry) : List UInt64 := (walks .Buy ++ walks .Sell).map Entry.orderId

theorem idsOf_perm (walks : Side → List Entry) (s : Side) :
    (idsOf walks).Perm ((walks s).map Entry.orderId ++ (walks (opposite s)).map Entry.orderId) := by
  rw [idsOf,List.map_append]
  cases s
  · exact List.Perm.refl _
  · exact List.perm_append_comm

section
variable {engine : MatchingEngine maxOrders maxPriceLevels}

theorem droppedQty_eq (sound : Sound engine) (incoming : NewOrder) :
    droppedQty engine incoming = (view engine).dropped maxOrders maxPriceLevels incoming := by
  obtain ⟨engine₁,ran,sound₁,resting₁,_⟩ := matchLoop_spec incoming sound rfl incoming.quantity
    (Nat.lt_succ_of_le (resting_length_le sound.good _))
  have traded : resting engine₁.book = (view engine).traded incoming := resting₁
  have left : (sweep incoming (resting engine.book (opposite incoming.side)) engine.nextExecSeq incoming.quantity).2.1 =
      ((view engine).sweptBy incoming).2.1 := rfl
  rw [droppedQty,ran]
  simp only [left]
  by_cases some : ((view engine).sweptBy incoming).2.1 > 0
  · rw [if_pos some,Exchange.dropped,← traded]
    rcases insertOrder_resting sound₁.good (remainder incoming ((view engine).sweptBy incoming).2.1) with
      ⟨full,refused⟩ | ⟨room,_,inserted,_⟩
    · simp only [remainder] at full refused
      rw [if_pos full,refused]
    · simp only [remainder] at room inserted
      rw [if_neg room,inserted]
  · have none : ((view engine).sweptBy incoming).2.1 = 0 := by
      by_contra other
      exact some (pos_of_ne_zero other)
    rw [if_neg some,Exchange.dropped,none]
    exact (ite_self 0).symm

theorem restingQty_eq_cancel (sound : Sound engine) (orderId : UInt64) :
    restingQty engine orderId = ((view engine).cancel orderId).1.elim 0 (fun e => e.remainingQty.toNat) := by
  rcases findOrder_sides sound orderId with ⟨_,node,found,proper,_,taken⟩ | ⟨missing,none⟩
  · rw [restingQty,found,taken]
    simp only [if_neg proper]
    rfl
  · rw [restingQty,missing,none]
    rfl
end

section
variable {ex ex' : Exchange} {orderId : UInt64}

theorem heldIn_cancel {e : Entry} (taken : ex.cancel orderId = (some e,ex')) (chosen : UInt64 → Bool) :
    heldIn chosen ex'.walks + (if chosen orderId then e.remainingQty.toNat else 0) = heldIn chosen ex.walks := by
  obtain ⟨same,s,xs,ys,split,walks⟩ := cancel_some taken
  rw [heldIn_side chosen _ s,heldIn_side chosen ex.walks s,walks,Function.update_self,
    Function.update_of_ne (opposite_ne s),split,heldBy_append,heldBy_append,heldBy,same]
  omega

theorem idsOf_cancel {e : Entry} (taken : ex.cancel orderId = (some e,ex')) : (idsOf ex.walks).Perm (orderId :: idsOf ex'.walks) := by
  obtain ⟨same,s,xs,ys,split,walks⟩ := cancel_some taken
  have before := idsOf_perm ex.walks s
  have after := idsOf_perm ex'.walks s
  rw [split,List.map_append,List.map_cons,same] at before
  rw [walks,Function.update_self,Function.update_of_ne (opposite_ne s),List.map_append] at after
  rw [walks]
  refine before.trans (((List.perm_middle).append_right _).trans ?_)
  exact after.symm.cons orderId

/-- Identifiers that nobody shares: what is found under one is all of it. -/
theorem heldIn_eq_cancel (apart : (idsOf ex.walks).Nodup) (orderId : UInt64) :
    heldIn (fun id => decide (id = orderId)) ex.walks =
      (ex.cancel orderId).1.elim 0 (fun e => e.remainingQty.toNat) := by
  cases taken : (ex.cancel orderId).1 with
  | none =>
    have others : ∀ s, heldBy (fun id => decide (id = orderId)) (ex.walks s) = 0 :=
      fun s => heldBy_none (fun e m => decide_eq_false (cancel_none taken s e m))
    rw [heldIn,others,others]
    rfl
  | some e =>
    have took : ex.cancel orderId = (some e,(ex.cancel orderId).2) := by rw [← taken]
    have before := heldIn_cancel took (fun id => decide (id = orderId))
    have gone := (idsOf_cancel took).nodup_iff.mp apart
    rw [List.nodup_cons,idsOf,List.mem_map,not_exists] at gone
    have others : ∀ s, heldBy (fun id => decide (id = orderId)) ((ex.cancel orderId).2.walks s) = 0 := by
      intro s
      refine heldBy_none (fun a m => decide_eq_false (fun same => gone.1 a ⟨?_,same⟩))
      cases s
      · exact List.mem_append_left _ m
      · exact List.mem_append_right _ m
    rw [heldIn,others,others] at before
    simpa using before.symm

/-- The identifiers once the rest of a new order is put into its walk. -/
theorem idsOf_rested {incoming : NewOrder} {left : Entry} (named : left.orderId = incoming.orderId) (walks : ex'.walks =
      Function.update (ex.traded incoming) incoming.side ((ex.walks incoming.side).orderedInsert (Outranks incoming.side) left)) :
    (idsOf ex'.walks).Perm (incoming.orderId :: idsOf (ex.traded incoming)) := by
  refine (idsOf_perm _ incoming.side).trans (List.Perm.trans ?_ ((idsOf_perm _ incoming.side).symm.cons _))
  rw [walks,Function.update_self,Function.update_of_ne (opposite_ne incoming.side),Exchange.traded,
    Function.update_of_ne (opposite_ne incoming.side).symm,← named]
  exact ((List.perm_orderedInsert _ _ _).map Entry.orderId).append_right _

theorem idsOf_newOrder (maxOrders maxPriceLevels : PoolCapacity) (incoming : NewOrder) (apart : (idsOf ex.walks).Nodup)
    (fresh : incoming.orderId ∉ idsOf ex.walks) :
    (idsOf (ex.newOrder maxOrders maxPriceLevels incoming).2.walks).Nodup := by
  have before := (idsOf_perm ex.walks incoming.side).nodup_iff.mp apart
  have kept : List.Subperm (idsOf (ex.traded incoming)) (idsOf ex.walks) := by
    have swept := sweep_ids incoming (ex.walks (opposite incoming.side)) ex.nextExecSeq incoming.quantity
    refine (idsOf_perm (ex.traded incoming) incoming.side).subperm.trans
      (List.Subperm.trans ?_ (idsOf_perm ex.walks incoming.side).symm.subperm)
    rw [Exchange.traded,Function.update_self,Function.update_of_ne (opposite_ne incoming.side).symm]
    exact (swept.append_left _).subperm
  have apart' : (idsOf (ex.traded incoming)).Nodup := by
    obtain ⟨ids,perm,sublist⟩ := kept
    exact perm.nodup_iff.mp (apart.sublist sublist)
  rcases newOrder_cases maxOrders maxPriceLevels ex incoming with ⟨_,_,walks⟩ | ⟨_,_,_,walks⟩ | ⟨_,_,_,walks⟩
  · rw [walks]; exact apart'
  · rw [walks]; exact apart'
  · have added := idsOf_rested rfl walks
    rw [added.nodup_iff,List.nodup_cons]
    exact ⟨fun inside => fresh (kept.subset inside),apart'⟩
end

/-! ### The invariant of a run -/

/-- The order of a trade's aggressor and that of its maker, among the new orders of
    a run. -/
def Between (commands : List Command) (t : Trade) : Prop :=
  ∃ a b : NewOrder, .newOrder a ∈ commands ∧ validateNewOrder a = none ∧ .newOrder b ∈ commands ∧
    validateNewOrder b = none ∧ t.incomingId = a.orderId ∧ t.restingId = b.orderId ∧ a.orderId ≠ b.orderId ∧
    b.side = opposite a.side

/-- The quantity in the book follows the new order of a record. -/
def Accounted (r : Record maxOrders maxPriceLevels) : Prop :=
  match r.command with
  | .newOrder m =>
    if validateNewOrder m = none then
      bookQty r.after + droppedQty r.before m + 2 * traded r.outcome.trades = bookQty r.before + m.quantity.toNat
    else r.after = r.before ∧ r.outcome.trades = []
  | .cancelOrder _ => r.outcome.trades = []

structure Balanced (commands : List Command) (records : List (Record maxOrders maxPriceLevels))
    (engine : MatchingEngine maxOrders maxPriceLevels) : Prop where
  sound : Sound engine
  ledger : ∀ orderId, total (Record.charged orderId) records + heldIn (fun id => decide (id = orderId)) (resting engine.book) +
    total (Record.cancelled orderId) records + total (Record.dropped orderId) records = submitted orderId commands
  stems : ∀ s, ∀ e ∈ resting engine.book s, ∃ m : NewOrder, .newOrder m ∈ commands ∧ validateNewOrder m = none ∧
    m.orderId = e.orderId ∧ m.side = s
  apart : (idsOf (resting engine.book)).Nodup
  trades : ∀ r ∈ records, ∀ t ∈ r.outcome.trades, Between commands t
  accounted : ∀ r ∈ records, Accounted r

theorem Between.mono {commands more : List Command} {t : Trade} (between : Between commands t) :
    Between (commands ++ more) t := by
  obtain ⟨a,b,inA,okA,inB,okB,others⟩ := between
  exact ⟨a,b,List.mem_append_left _ inA,okA,List.mem_append_left _ inB,okB,others⟩

theorem submitted_concat (orderId : UInt64) (commands : List Command) (command : Command) :
    submitted orderId (commands ++ [command]) = submitted orderId commands + submittedBy orderId command := by
  simp [submitted]

section
variable {engine engine' : MatchingEngine maxOrders maxPriceLevels} {commands : List Command}
  {records : List (Record maxOrders maxPriceLevels)}

/-- A record that adds nothing to the accounts: nothing was traded and the book is
    as it was. -/
theorem Balanced.idle (balanced : Balanced commands records engine) (r : Record maxOrders maxPriceLevels)
    (quiet : r.outcome.trades = []) (cancelled : ∀ id, r.cancelled id = 0) (dropped : ∀ id, r.dropped id = 0)
    (nothing : ∀ id, submittedBy id r.command = 0) (accounted : Accounted r) :
    Balanced (commands ++ [r.command]) (records ++ [r]) engine := by
  refine ⟨balanced.sound,?_,?_,balanced.apart,?_,?_⟩
  · intro id
    have charged : r.charged id = 0 := by rw [Record.charged,quiet]; rfl
    have before := balanced.ledger id
    rw [total_concat,total_concat,total_concat,submitted_concat,charged,cancelled,dropped,nothing]
    omega
  · intro s e m
    obtain ⟨a,inside,others⟩ := balanced.stems s e m
    exact ⟨a,List.mem_append_left _ inside,others⟩
  · intro q m t inTrades
    rcases List.mem_append.mp m with old | last
    · exact (balanced.trades q old t inTrades).mono
    · rw [List.mem_singleton.mp last,quiet] at inTrades
      cases inTrades
  · intro q m
    rcases List.mem_append.mp m with old | last
    · exact balanced.accounted q old
    · rw [List.mem_singleton.mp last]
      exact accounted

/-- What the trades of a new order are charged to: all of them to the order itself,
    and to each other order those with it. -/
theorem sweptBy_charged (sound : Sound engine) {m : NewOrder}
    (unshared : ∀ s, ∀ e ∈ resting engine.book s, e.orderId ≠ m.orderId) (id : UInt64) :
    tradedBy (fun t => decide (t.incomingId = id) || decide (t.restingId = id)) ((view engine).sweptBy m).1 =
      (if m.orderId = id then traded ((view engine).sweptBy m).1 else 0) +
        tradedBy (fun t => decide (t.restingId = id)) ((view engine).sweptBy m).1 := by
  have made : ∀ t ∈ ((view engine).sweptBy m).1, t.incomingId = m.orderId ∧ t.restingId ≠ m.orderId := by
    intro t inside
    obtain ⟨named,_,e,inWalk,resting,_⟩ := sweep_trades m (sound.positive (opposite m.side)) inside
    exact ⟨named,fun same => unshared _ e inWalk (resting.symm.trans same)⟩
  split_ifs with same
  · have nobody : tradedBy (fun t => decide (t.restingId = id)) ((view engine).sweptBy m).1 = 0 := by
      refine tradedBy_none ?_
      intro t inside
      rw [← same]
      exact decide_eq_false (made t inside).2
    rw [nobody,Nat.add_zero]
    refine tradedBy_congr ?_
    intro t inside
    simp [(made t inside).1,same]
  · rw [Nat.zero_add]
    refine tradedBy_congr ?_
    intro t inside
    simp [(made t inside).1,same]

/-- An order that is validated, under an identifier that is not in the book. -/
theorem Balanced.newOrder (balanced : Balanced commands records engine) {m : NewOrder} (valid : validateNewOrder m = none)
    (fresh : m.orderId ∉ idsOf (resting engine.book)) (sound' : Sound engine')
    (viewed : view engine' = ((view engine).newOrder maxOrders maxPriceLevels m).2) :
    Balanced (commands ++ [.newOrder m])
      (records ++ [⟨engine,.newOrder m,
        { accepted := true, trades := ((view engine).newOrder maxOrders maxPriceLevels m).1 },engine'⟩]) engine' := by
  have walks : resting engine'.book = ((view engine).newOrder maxOrders maxPriceLevels m).2.walks :=
    congrArg Exchange.walks viewed
  have trades : ((view engine).newOrder maxOrders maxPriceLevels m).1 = ((view engine).sweptBy m).1 := rfl
  have filled := sweptBy_traded (view engine) m
  have unshared : ∀ s, ∀ e ∈ resting engine.book s, e.orderId ≠ m.orderId := by
    intro s e inside same
    refine fresh (List.mem_map.mpr ⟨e,?_,same⟩)
    cases s
    · exact List.mem_append_left _ inside
    · exact List.mem_append_right _ inside
  have made : ∀ t ∈ ((view engine).sweptBy m).1, t.incomingId = m.orderId ∧
      ∃ e ∈ resting engine.book (opposite m.side), t.restingId = e.orderId := by
    intro t inside
    obtain ⟨by_incoming,_,e,inWalk,named,_⟩ := sweep_trades m (balanced.sound.positive (opposite m.side)) inside
    exact ⟨by_incoming,e,inWalk,named⟩
  refine ⟨sound',?_,?_,?_,?_,?_⟩
  · intro id
    have before := balanced.ledger id
    have moved := newOrder_held maxOrders maxPriceLevels (fun x => decide (x = id)) (view engine) m
    rw [total_concat,total_concat,total_concat,submitted_concat,walks]
    simp only [Record.charged,Record.cancelled,Record.dropped,submittedBy,valid,and_true,trades,droppedQty_eq balanced.sound]
    rw [sweptBy_charged balanced.sound unshared id]
    split_ifs with same
    · simp only [same,decide_true,if_true] at moved ⊢
      simp only [view] at moved filled ⊢
      omega
    · simp only [same,decide_false,if_false,Bool.false_eq_true] at moved ⊢
      simp only [view] at moved ⊢
      omega
  · intro s e inside
    rw [walks] at inside
    rcases newOrder_entries maxOrders maxPriceLevels inside with ⟨side,rest⟩ | ⟨old,inWalk,same,_⟩
    · exact ⟨m,List.mem_append_right _ List.mem_cons_self,valid,by rw [rest]; rfl,side.symm⟩
    · obtain ⟨a,submitted,ok,named,side⟩ := balanced.stems s old inWalk
      exact ⟨a,List.mem_append_left _ submitted,ok,by rw [named,← same],side⟩
  · rw [walks]
    exact idsOf_newOrder maxOrders maxPriceLevels m balanced.apart fresh
  · intro q inside t inTrades
    rcases List.mem_append.mp inside with old | last
    · exact (balanced.trades q old t inTrades).mono
    · rw [List.mem_singleton.mp last] at inTrades
      obtain ⟨named,e,inWalk,resting⟩ := made t inTrades
      obtain ⟨b,submitted,ok,stem,side⟩ := balanced.stems _ e inWalk
      refine ⟨m,b,List.mem_append_right _ List.mem_cons_self,valid,List.mem_append_left _ submitted,ok,named,?_,?_,side⟩
      · rw [resting,stem]
      · rw [stem]
        exact (unshared _ e inWalk).symm
  · intro q inside
    rcases List.mem_append.mp inside with old | last
    · exact balanced.accounted q old
    · rw [List.mem_singleton.mp last]
      have moved := newOrder_held maxOrders maxPriceLevels (fun _ => true) (view engine) m
      simp only [Accounted,if_pos valid,bookQty,walks,trades,droppedQty_eq balanced.sound]
      simp only [if_true,heldIn,view] at moved filled ⊢
      simp only [held,traded] at filled ⊢
      omega

theorem Balanced.cancelOrder (balanced : Balanced commands records engine) {c : CancelOrder} {e : Entry}
    {outcome : Outcome} (quiet : outcome.trades = []) (accepted : outcome.accepted = true) (sound' : Sound engine')
    (taken : (view engine).cancel c.orderId = (some e,view engine')) :
    Balanced (commands ++ [.cancelOrder c]) (records ++ [⟨engine,.cancelOrder c,outcome,engine'⟩]) engine' := by
  have gone := idsOf_cancel taken
  refine ⟨sound',?_,?_,?_,?_,?_⟩
  · intro id
    have before := balanced.ledger id
    have moved := heldIn_cancel taken (fun x => decide (x = id))
    rw [total_concat,total_concat,total_concat,submitted_concat]
    simp only [Record.charged,Record.cancelled,Record.dropped,submittedBy,quiet,tradedBy,accepted,and_true]
    simp only [view] at moved
    by_cases same : c.orderId = id
    · rw [restingQty_eq_cancel balanced.sound,← same,taken]
      simp only [same,decide_true,if_true,Option.elim_some] at moved before ⊢
      omega
    · simp only [same,decide_false,if_false,Bool.false_eq_true] at moved ⊢
      omega
  · intro s a inside
    have old : a ∈ resting engine.book s := cancel_entries taken inside
    obtain ⟨m,submitted,others⟩ := balanced.stems s a old
    exact ⟨m,List.mem_append_left _ submitted,others⟩
  · exact (List.nodup_cons.mp (gone.nodup_iff.mp balanced.apart)).2
  · intro q inside t inTrades
    rcases List.mem_append.mp inside with old | last
    · exact (balanced.trades q old t inTrades).mono
    · rw [List.mem_singleton.mp last,quiet] at inTrades
      cases inTrades
  · intro q inside
    rcases List.mem_append.mp inside with old | last
    · exact balanced.accounted q old
    · rw [List.mem_singleton.mp last]
      exact quiet

/-- A new order whose identifier no earlier one has is not in the book. -/
theorem Balanced.fresh (balanced : Balanced commands records engine) {m : NewOrder}
    (distinct : ((commands ++ [Command.newOrder m]).filterMap newOrderId).Nodup) : m.orderId ∉ idsOf (resting engine.book) := by
  rw [List.filterMap_append,List.nodup_append] at distinct
  intro inside
  obtain ⟨e,inBook,same⟩ := List.mem_map.mp inside
  have stem : ∃ s, e ∈ resting engine.book s := by
    rcases List.mem_append.mp inBook with bid | ask
    · exact ⟨.Buy,bid⟩
    · exact ⟨.Sell,ask⟩
  obtain ⟨s,inWalk⟩ := stem
  obtain ⟨a,submitted,_,named,_⟩ := balanced.stems s e inWalk
  refine distinct.2.2 a.orderId (List.mem_filterMap.mpr ⟨_,submitted,rfl⟩) m.orderId (by simp [newOrderId]) ?_
  rw [named,same]

/-- One call keeps the accounts. -/
theorem step_balanced (balanced : Balanced commands records engine) (command : Command)
    (distinct : ((commands ++ [command]).filterMap newOrderId).Nodup) :
    ∃ outcome engine', step engine command = some (outcome,engine') ∧
      Balanced (commands ++ [command]) (records ++ [⟨engine,command,outcome,engine'⟩]) engine' := by
  cases command with
  | newOrder m =>
    rcases processNewOrderChecked_spec balanced.sound m with ⟨reason,invalid,ran⟩ | ⟨valid,engine',ran,sound',viewed,_⟩
    · have fails : ¬ validateNewOrder m = none := by rw [invalid]; simp
      refine ⟨_,engine,ran,balanced.idle ⟨engine,.newOrder m,_,engine⟩ rfl (fun id => rfl) ?_ ?_ ?_⟩
      · intro id
        simp only [Record.dropped,fails,and_false,if_false]
      · intro id
        simp only [submittedBy,fails,and_false,if_false]
      · simp only [Accounted,if_neg fails]
        exact ⟨trivial,trivial⟩
    · exact ⟨_,engine',ran,balanced.newOrder valid (balanced.fresh distinct) sound' viewed⟩
  | cancelOrder c =>
    rcases processCancelOrder_spec balanced.sound c with ⟨e,engine',ran,sound',taken,_⟩ | ⟨known,_,ran,_⟩
    · exact ⟨_,engine',ran,balanced.cancelOrder rfl rfl sound' taken⟩
    · refine ⟨_,engine,ran,balanced.idle ⟨engine,.cancelOrder c,_,engine⟩ rfl ?_ (fun id => rfl) (fun id => rfl) rfl⟩
      intro id
      simp [Record.cancelled]

/-- Every run keeps the accounts. -/
theorem trace_balanced (balanced : Balanced commands records engine) (more : List Command)
    (distinct : ((commands ++ more).filterMap newOrderId).Nodup) :
    ∃ later engine', trace engine more = some (later,engine') ∧
      Balanced (commands ++ more) (records ++ later) engine' := by
  induction more generalizing engine commands records with
  | nil => exact ⟨[],engine,rfl,by simpa using balanced⟩
  | cons command rest ih =>
    have split : commands ++ command :: rest = (commands ++ [command]) ++ rest := by simp
    have first : ((commands ++ [command]).filterMap newOrderId).Nodup := by
      rw [split,List.filterMap_append] at distinct
      exact (List.nodup_append.mp distinct).1
    obtain ⟨outcome,after,stepped,balanced'⟩ := step_balanced balanced command first
    rw [split] at distinct
    obtain ⟨later,engine',ran,balanced''⟩ := ih balanced' distinct
    refine ⟨⟨engine,command,outcome,after⟩ :: later,engine',by simp [trace,stepped,ran],?_⟩
    rw [split]
    simpa using balanced''
end

theorem balanced_new : Balanced [] [] (MatchingEngine.new : MatchingEngine maxOrders maxPriceLevels) := by
  have kept : Kept (OrderBook.new : OrderBook maxOrders maxPriceLevels) (fun _ => []) := kept_new
  have empty : ∀ s, resting (MatchingEngine.new : MatchingEngine maxOrders maxPriceLevels).book s = [] := by
    intro s; rw [MatchingEngine.new,kept.resting_eq]; rfl
  refine ⟨sound_new,?_,?_,?_,?_,?_⟩
  · intro id
    simp [heldIn,empty,heldBy,total,submitted]
  · intro s e m
    rw [empty] at m
    cases m
  · simp [idsOf,empty]
  · intro r m
    cases m
  · intro r m
    cases m

section
variable {commands : List Command} (distinct : (commands.filterMap newOrderId).Nodup) {m : NewOrder}
include distinct

/-- Only one new order of the run has the identifier. -/
theorem unshared_orderId (inside : .newOrder m ∈ commands) :
    ∃ before later, commands = before ++ .newOrder m :: later ∧
      ∀ a : NewOrder, .newOrder a ∈ before ++ later → a.orderId ≠ m.orderId := by
  obtain ⟨before,later,rfl⟩ := List.append_of_mem inside
  refine ⟨before,later,rfl,?_⟩
  have named : newOrderId (.newOrder m) = some m.orderId := rfl
  rw [List.filterMap_append,List.filterMap_cons_some named,List.nodup_middle,List.nodup_cons,
    ← List.filterMap_append] at distinct
  intro a inOthers same
  exact distinct.1 (List.mem_filterMap.mpr ⟨_,inOthers,by rw [newOrderId,same]⟩)

theorem submitted_unique (inside : .newOrder m ∈ commands) (valid : validateNewOrder m = none) :
    submitted m.orderId commands = m.quantity.toNat := by
  obtain ⟨before,later,rfl,others⟩ := unshared_orderId distinct inside
  have nothing : ∀ c ∈ before ++ later, submittedBy m.orderId c = 0 := by
    intro c inOthers
    cases c with
    | newOrder a => simp only [submittedBy,others a inOthers,false_and,if_false]
    | cancelOrder c => rfl
  have none : ∀ l : List Command, (∀ c ∈ l, submittedBy m.orderId c = 0) → (l.map (submittedBy m.orderId)).sum = 0 := by
    intro l zero
    rw [List.map_congr_left zero]
    simp
  rw [submitted,List.map_append,List.map_cons,List.sum_append,List.sum_cons,
    none before (fun c inBefore => nothing c (List.mem_append_left _ inBefore)),
    none later (fun c inLater => nothing c (List.mem_append_right _ inLater)),submittedBy,if_pos ⟨rfl,valid⟩]
  omega

theorem eq_of_orderId {a : NewOrder} (inA : .newOrder a ∈ commands) (inM : .newOrder m ∈ commands)
    (same : a.orderId = m.orderId) : a = m := by
  obtain ⟨before,later,rfl,others⟩ := unshared_orderId distinct inM
  rcases List.mem_append.mp inA with first | rest
  · exact absurd same (others a (List.mem_append_left _ first))
  · rcases List.mem_cons.mp rest with here | last
    · exact Command.newOrder.inj here
    · exact absurd same (others a (List.mem_append_right _ last))

/-- A trade between two orders of the run is charged to these and no others. -/
theorem charged_iff {t : Trade} {a b : NewOrder} (inA : .newOrder a ∈ commands) (inB : .newOrder b ∈ commands)
    (incoming : t.incomingId = a.orderId) (resting : t.restingId = b.orderId) (inM : .newOrder m ∈ commands) :
    t.incomingId = m.orderId ∨ t.restingId = m.orderId ↔ m = a ∨ m = b := by
  rw [incoming,resting]
  constructor
  · rintro (first | second)
    · exact .inl (eq_of_orderId distinct inM inA first.symm)
    · exact .inr (eq_of_orderId distinct inM inB second.symm)
  · rintro (rfl | rfl)
    · exact .inl rfl
    · exact .inr rfl
end

/-- The lifetime ledger, after every run in which no two new orders share an
    identifier. Trades, resting quantity, cancelled quantity and refused quantity of
    each validated order sum to what was submitted; each trade is charged to two
    orders of opposite sides; and each new order changes the quantity in the book by
    its own, less what is dropped and twice what is traded. -/
theorem lifetime_ledger (maxOrders maxPriceLevels : PoolCapacity) (commands : List Command)
    (distinct : (commands.filterMap newOrderId).Nodup) :
    ∃ records engine, trace (MatchingEngine.new : MatchingEngine maxOrders maxPriceLevels) commands =
        some (records,engine) ∧
      (∀ m : NewOrder, .newOrder m ∈ commands → validateNewOrder m = none →
        total (Record.charged m.orderId) records + restingQty engine m.orderId +
          total (Record.cancelled m.orderId) records + total (Record.dropped m.orderId) records = m.quantity.toNat) ∧
      (∀ r ∈ records, ∀ t ∈ r.outcome.trades, ∃ a b : NewOrder, .newOrder a ∈ commands ∧ .newOrder b ∈ commands ∧
        validateNewOrder a = none ∧ validateNewOrder b = none ∧ a ≠ b ∧ b.side = opposite a.side ∧
        t.incomingId = a.orderId ∧ t.restingId = b.orderId ∧
        ∀ m : NewOrder, .newOrder m ∈ commands → (t.incomingId = m.orderId ∨ t.restingId = m.orderId ↔ m = a ∨ m = b)) ∧
      (∀ r ∈ records, ∀ m : NewOrder, r.command = .newOrder m → validateNewOrder m = none →
        bookQty r.after + droppedQty r.before m + 2 * traded r.outcome.trades = bookQty r.before + m.quantity.toNat) := by
  obtain ⟨records,engine,ran,balanced⟩ := trace_balanced balanced_new commands distinct
  rw [List.nil_append,List.nil_append] at balanced
  refine ⟨records,engine,ran,?_,?_,?_⟩
  · intro m inside valid
    rw [restingQty_eq_cancel balanced.sound,← heldIn_eq_cancel balanced.apart,
      ← submitted_unique distinct inside valid]
    exact balanced.ledger m.orderId
  · intro r inside t inTrades
    obtain ⟨a,b,inA,okA,inB,okB,incoming,resting,apart,sides⟩ := balanced.trades r inside t inTrades
    refine ⟨a,b,inA,inB,okA,okB,?_,sides,incoming,resting,?_⟩
    · exact fun same => apart (congrArg NewOrder.orderId same)
    · exact fun m inM => charged_iff distinct inA inB incoming resting inM
  · intro r inside m command valid
    have accounted := balanced.accounted r inside
    rw [Accounted,command] at accounted
    simpa only [if_pos valid] using accounted

/-- Two bids, a partial fill of the first, and its cancellation. -/
theorem lifetime_ledger_two_bids :
    ∃ records engine, trace (MatchingEngine.new : MatchingEngine .four .four)
        [.newOrder ⟨1,.Buy,100,5,1⟩,.newOrder ⟨2,.Buy,99,4,2⟩,.newOrder ⟨3,.Sell,100,3,3⟩,.cancelOrder ⟨1⟩] =
        some (records,engine) ∧
      total (Record.charged 1) records + restingQty engine 1 + total (Record.cancelled 1) records +
        total (Record.dropped 1) records = 5 := by
  obtain ⟨records,engine,ran,ledger,_⟩ := lifetime_ledger .four .four
    [.newOrder ⟨1,.Buy,100,5,1⟩,.newOrder ⟨2,.Buy,99,4,2⟩,.newOrder ⟨3,.Sell,100,3,3⟩,.cancelOrder ⟨1⟩] (by decide)
  exact ⟨records,engine,ran,ledger ⟨1,.Buy,100,5,1⟩ List.mem_cons_self (by decide)⟩

end HyperMatch.Matching
