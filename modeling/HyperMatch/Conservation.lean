import HyperMatch.Ledger
import HyperMatch.Processing

/-!
What becomes of the quantity of an accepted order. The matching core ignores that
`insert_order` may refuse the rest of an order, and the processor acknowledges the
order all the same; its quantity is accounted for exactly when something crosses or
there is room for it.
-/
namespace HyperMatch.Processing
open HyperMatch.Wire HyperMatch.OrderBook HyperMatch.BookLayout HyperMatch.MatchingEngine HyperMatch.Matching
open HyperMatch.RingBuffer (Holds)
set_option linter.unusedSimpArgs false

variable {maxOrders maxPriceLevels : PoolCapacity}

/-! ### Room after trading -/

section
variable (incoming : NewOrder)

theorem sweep_none {walk : List Entry}
    (far : ∀ e ∈ walk, ¬ priceCrosses incoming.side incoming.priceTicks e.priceTicks = true) (execSeq : UInt64)
    (remaining : UInt32) : sweep incoming walk execSeq remaining = ([],remaining,walk) := by
  cases walk with
  | nil => rfl
  | cons e rest =>
    have out : ¬ (remaining > 0 ∧ priceCrosses incoming.side incoming.priceTicks e.priceTicks = true) :=
      fun opened => far e List.mem_cons_self opened.2
    rw [sweep,if_neg out]

/-- A sweep that does not fill the order takes whole orders off the front. -/
theorem sweep_suffix {walk : List Entry} {execSeq : UInt64} {remaining : UInt32}
    (left : 0 < (sweep incoming walk execSeq remaining).2.1) :
    (sweep incoming walk execSeq remaining).2.2 <:+ walk := by
  induction walk generalizing execSeq remaining with
  | nil => exact List.suffix_refl _
  | cons a rest ih =>
    rcases sweep_cons incoming a rest execSeq remaining with ⟨_,_,_,swept⟩ | ⟨_,_,kept,swept⟩ | ⟨_,swept⟩
    · rw [swept] at left ⊢
      exact (ih left).trans (List.suffix_cons _ _)
    · rw [swept] at left
      rw [left_when_kept kept] at left
      exact absurd left (UInt32.lt_irrefl 0)
    · simp [swept]

/-- Losing a price leaves fewer of them. -/
theorem priceCount_lt {after before : List Entry} (sub : after ⊆ before) {e : Entry} (inside : e ∈ before)
    (gone : ∀ a ∈ after, a.priceTicks ≠ e.priceTicks) : priceCount after < priceCount before := by
  have fresh : e.priceTicks ∉ (after.map Entry.priceTicks).dedup := by
    rw [List.mem_dedup,List.mem_map]
    rintro ⟨a,inAfter,same⟩
    exact gone a inAfter same
  have distinct : (e.priceTicks :: (after.map Entry.priceTicks).dedup).Nodup :=
    List.nodup_cons.mpr ⟨fresh,List.nodup_dedup _⟩
  have within : e.priceTicks :: (after.map Entry.priceTicks).dedup ⊆ (before.map Entry.priceTicks).dedup := by
    intro price m
    rw [List.mem_dedup,List.mem_map]
    rcases List.mem_cons.mp m with rfl | old
    · exact ⟨e,inside,rfl⟩
    · obtain ⟨a,inAfter,rfl⟩ := List.mem_map.mp (List.mem_dedup.mp old)
      exact ⟨a,sub inAfter,rfl⟩
  exact (List.subperm_of_subset distinct within).length_le

theorem resting_total_le {book : OrderBook maxOrders maxPriceLevels} (good : Good book) (s : Side) :
    (resting book s).length + (resting book (opposite s)).length ≤ maxOrders.size ∧
      priceCount (resting book s) + priceCount (resting book (opposite s)) ≤ maxPriceLevels.size := by
  have orders := (good.orderPool.perm (orderSlots_perm (layoutOf book) s)).length_le
  have levels := (good.levelPool.perm (levelSlots_perm (layoutOf book) s)).length_le
  have counts : ∀ t, priceCount (resting book t) = (layoutOf book t).length := fun t => priceCount_walk good t
  rw [List.length_append] at orders levels
  rw [counts,counts]
  simp only [List.length_map] at levels
  exact ⟨by simpa [resting,walk,queue] using orders,levels⟩

theorem noRoom_side {walks : Side → List Entry} {s : Side} {price : UInt64}
    (full : NoRoom maxOrders maxPriceLevels walks s price) :
    (walks s).length + (walks (opposite s)).length = maxOrders.size ∨
      priceCount (walks s) + priceCount (walks (opposite s)) = maxPriceLevels.size := by
  cases s with
  | Buy => exact full.imp id And.right
  | Sell =>
    refine full.imp (fun orders => ?_) (fun levels => ?_)
    · rw [Nat.add_comm]; exact orders
    · rw [Nat.add_comm]; exact levels.2

variable {engine : MatchingEngine maxOrders maxPriceLevels}

/-- The pools refuse nothing of an order that meets something, since the level
    that it clears makes room, and of any other exactly when there is no room. -/
theorem dropped_eq_zero_iff (sound : Sound engine) (positive : 0 < incoming.quantity) :
    (view engine).dropped maxOrders maxPriceLevels incoming = 0 ↔
      (∃ e ∈ resting engine.book (opposite incoming.side),
        priceCrosses incoming.side incoming.priceTicks e.priceTicks = true) ∨
      ¬ NoRoom maxOrders maxPriceLevels (resting engine.book) incoming.side incoming.priceTicks := by
  by_cases meets : ∃ e ∈ resting engine.book (opposite incoming.side),
      priceCrosses incoming.side incoming.priceTicks e.priceTicks = true
  · refine iff_of_true ?_ (.inl meets)
    obtain ⟨e,inside,crosses⟩ := meets
    rcases newOrder_cases maxOrders maxPriceLevels (view engine) incoming with
      ⟨_,dropped,_⟩ | ⟨left,full,_,_⟩ | ⟨_,_,dropped,_⟩
    · exact dropped
    · exfalso
      have stopped := sweep_stops incoming (resting_sorted sound.good (opposite incoming.side)) left
      have suffix : ((view engine).sweptBy incoming).2.2 <:+ resting engine.book (opposite incoming.side) :=
        sweep_suffix incoming left
      have gone : e ∉ ((view engine).sweptBy incoming).2.2 := fun still => stopped e still crosses
      have shorter : ((view engine).sweptBy incoming).2.2.length < (resting engine.book (opposite incoming.side)).length := by
        refine Nat.lt_of_le_of_ne suffix.length_le ?_
        intro same
        rw [suffix.eq_of_length same] at gone
        exact gone inside
      have fewer : priceCount ((view engine).sweptBy incoming).2.2 <
          priceCount (resting engine.book (opposite incoming.side)) := by
        refine priceCount_lt suffix.subset inside ?_
        intro a still same
        refine stopped a still ?_
        rw [same]
        exact crosses
      obtain ⟨orders,levels⟩ := resting_total_le sound.good incoming.side
      have crowded := noRoom_side full
      rw [Exchange.traded,Function.update_self,Function.update_of_ne (opposite_ne incoming.side).symm] at crowded
      simp only [view] at crowded shorter fewer
      omega
    · exact dropped
  · have far : ∀ e ∈ resting engine.book (opposite incoming.side),
        ¬ priceCrosses incoming.side incoming.priceTicks e.priceTicks = true :=
      fun e inside crosses => meets ⟨e,inside,crosses⟩
    have swept : (view engine).sweptBy incoming = ([],incoming.quantity,resting engine.book (opposite incoming.side)) :=
      sweep_none incoming far _ _
    have same : (view engine).traded incoming = resting engine.book := by
      rw [Exchange.traded,swept]
      exact Function.update_eq_self _ _
    rw [Exchange.dropped,same,swept]
    rw [UInt32.lt_iff_toNat_lt,UInt32.toNat_zero] at positive
    by_cases full : NoRoom maxOrders maxPriceLevels (resting engine.book) incoming.side incoming.priceTicks
    · refine iff_of_false ?_ (not_or.mpr ⟨meets,not_not.mpr full⟩)
      rw [if_pos full]
      exact Nat.ne_of_gt positive
    · simp [full]
end

/-! ### The account of an answer -/

/-- What an order itself has in the book after a call: what its side holds under
    its identifier beyond what it held there before. -/
def restedQty (before after : MatchingEngine maxOrders maxPriceLevels) (m : NewOrder) : Nat :=
  heldBy (fun id => decide (id = m.orderId)) (resting after.book m.side) -
    heldBy (fun id => decide (id = m.orderId)) (resting before.book m.side)

/-- The quantity of the trades among some events. -/
def tradedQty (events : List BinaryMessage) : Nat :=
  traded (events.filterMap (fun
    | .trade t => some t
    | _ => none))

/-- An acknowledged order has traded or rests with all of its quantity; any other
    is rejected and leaves the book as it was. -/
def Conserved (before after : MatchingEngine maxOrders maxPriceLevels) (m : NewOrder) (events : List BinaryMessage) : Prop :=
  (.ack ⟨m.orderId,.Accepted⟩ ∈ events → m.quantity.toNat = tradedQty events + restedQty before after m) ∧
    (.ack ⟨m.orderId,.Accepted⟩ ∉ events →
      (∃ reason, .reject ⟨m.orderId,reason⟩ ∈ events) ∧ after.book = before.book)

/-- The order fails validation, or a resting order of the other side crosses it, or
    the pools have room for it. -/
def Placeable (engine : MatchingEngine maxOrders maxPriceLevels) (m : NewOrder) : Prop :=
  validateNewOrder m ≠ none ∨
    (∃ e ∈ resting engine.book (opposite m.side), priceCrosses m.side m.priceTicks e.priceTicks = true) ∨
    ¬ NoRoom maxOrders maxPriceLevels (resting engine.book) m.side m.priceTicks

theorem tradedQty_answer (trades : List Trade) (orderId : UInt64) :
    tradedQty (trades.map .trade ++ [.ack ⟨orderId,.Accepted⟩]) = traded trades := by
  rw [tradedQty,List.filterMap_append,List.filterMap_map]
  congr 1
  simp [Function.comp_def]

section
variable {engine engine' : MatchingEngine maxOrders maxPriceLevels} {m : NewOrder}

/-- The own side of an order gains what is left of it, unless that is dropped. -/
theorem restedQty_eq (viewed : view engine' = ((view engine).newOrder maxOrders maxPriceLevels m).2) :
    restedQty engine engine' m + (view engine).dropped maxOrders maxPriceLevels m = ((view engine).sweptBy m).2.1.toNat := by
  have walks : resting engine'.book = ((view engine).newOrder maxOrders maxPriceLevels m).2.walks :=
    congrArg Exchange.walks viewed
  have own : (view engine).traded m m.side = resting engine.book m.side :=
    Function.update_of_ne (opposite_ne m.side).symm _ _
  rw [restedQty,walks]
  rcases newOrder_cases maxOrders maxPriceLevels (view engine) m with
    ⟨none,dropped,after⟩ | ⟨_,_,dropped,after⟩ | ⟨_,_,dropped,after⟩
  · rw [after,own,dropped,none,UInt32.toNat_zero,Nat.sub_self]
  · rw [after,own,dropped,Nat.sub_self,Nat.zero_add]
  · rw [after,Function.update_self,heldBy_perm _ (List.perm_orderedInsert _ _ _),dropped,heldBy]
    simp only [remainder,decide_true,if_true,view]
    omega

/-- Without an older order of the identifier, what the order has in the book is
    what `find_order` finds. -/
theorem restedQty_eq_restingQty (sound' : Sound engine')
    (viewed : view engine' = ((view engine).newOrder maxOrders maxPriceLevels m).2)
    (fresh : ∀ s, ∀ e ∈ resting engine.book s, e.orderId ≠ m.orderId) :
    restedQty engine engine' m = restingQty engine' m.orderId := by
  have walks : (view engine').walks = ((view engine).newOrder maxOrders maxPriceLevels m).2.walks :=
    congrArg Exchange.walks viewed
  have none : heldBy (fun id => decide (id = m.orderId)) (resting engine.book m.side) = 0 :=
    heldBy_none (fun e inside => decide_eq_false (fresh m.side e inside))
  have apart : ∀ s, ∀ e ∈ (view engine').walks s, e.orderId = m.orderId →
      s = m.side ∧ e = remainder m ((view engine).sweptBy m).2.1 := by
    intro s e inside same
    rw [walks] at inside
    rcases newOrder_entries maxOrders maxPriceLevels inside with here | ⟨old,inWalk,equal,_⟩
    · exact here
    · rw [← equal] at same
      exact absurd same (fresh s old inWalk)
  rw [restingQty_eq_cancel sound']
  cases taken : ((view engine').cancel m.orderId).1 with
  | none =>
    have missing : heldBy (fun id => decide (id = m.orderId)) (resting engine'.book m.side) = 0 :=
      heldBy_none (fun e inside => decide_eq_false (cancel_none taken m.side e inside))
    rw [restedQty,none,missing]
    rfl
  | some e =>
    have took : (view engine').cancel m.orderId = (some e,((view engine').cancel m.orderId).2) := by rw [← taken]
    obtain ⟨same,s,xs,ys,split,_⟩ := cancel_some took
    have inside : e ∈ (view engine').walks s := by
      rw [split]
      exact List.mem_append_right _ List.mem_cons_self
    obtain ⟨rfl,rfl⟩ := apart s e inside same
    have rested := restedQty_eq viewed
    have kept : (view engine).dropped maxOrders maxPriceLevels m = 0 := by
      rcases newOrder_cases maxOrders maxPriceLevels (view engine) m with
        ⟨_,dropped,_⟩ | ⟨_,_,_,after⟩ | ⟨_,_,dropped,_⟩
      · exact dropped
      · -- A rest that was refused is not on its side.
        rw [walks,after,Exchange.traded,Function.update_of_ne (opposite_ne m.side).symm] at inside
        exact absurd rfl (fresh m.side _ inside)
      · exact dropped
    rw [kept,Nat.add_zero] at rested
    exact rested

theorem conserved_iff (orderly : Orderly engine) {events : List BinaryMessage}
    (answered : answer engine (.newOrder m) = some (events,engine')) :
    Conserved engine engine' m events ↔ Placeable engine m := by
  rcases answer_newOrder orderly m with ⟨reason,invalid,ran⟩ | ⟨valid,after,ran,_,viewed⟩
  · rw [ran] at answered
    obtain ⟨rfl,rfl⟩ := Prod.mk.inj (Option.some.inj answered)
    refine iff_of_true ⟨?_,?_⟩ (.inl (by rw [invalid]; simp))
    · intro acknowledged
      simp at acknowledged
    · intro _
      exact ⟨⟨reason,List.mem_singleton_self _⟩,rfl⟩
  · rw [ran] at answered
    obtain ⟨rfl,rfl⟩ := Prod.mk.inj (Option.some.inj answered)
    have acknowledged : BinaryMessage.ack ⟨m.orderId,.Accepted⟩ ∈
        ((view engine).sweptBy m).1.map BinaryMessage.trade ++ [.ack ⟨m.orderId,.Accepted⟩] :=
      List.mem_append_right _ (List.mem_singleton_self _)
    have rested := restedQty_eq viewed
    have filled := sweptBy_traded (view engine) m
    have positive : 0 < m.quantity := by
      have least := (validated valid).2.1
      rw [UInt32.le_iff_toNat_le] at least
      rw [UInt32.lt_iff_toNat_lt]
      exact least
    have nothing := dropped_eq_zero_iff m orderly.sound positive
    have passes : ¬ validateNewOrder m ≠ none := not_not.mpr valid
    rw [Placeable,or_iff_right passes,← nothing,Conserved,tradedQty_answer]
    constructor
    · intro conserved
      have account := conserved.1 acknowledged
      omega
    · intro kept
      exact ⟨fun _ => by omega,fun missing => absurd acknowledged missing⟩

end

section
variable {capacities : Capacities} {p : EngineProcessor capacities} {m : NewOrder}

/-- The first message of the command ring. -/
theorem Running.front {ins outs : List BinaryMessage} (running : Running p ins outs) {msg : BinaryMessage}
    (front : p.ingress.tryPop.1 = some msg) : ∃ rest, ins = msg :: rest := by
  cases ins with
  | nil =>
    rw [running.ingress.tryPop_empty] at front
    cases front
  | cons first rest =>
    obtain ⟨ring,popped,_⟩ := running.ingress.tryPop_front
    rw [popped] at front
    exact ⟨rest,by rw [Option.some.inj front]⟩

/-- Quantity conservation, from every state that calls reach: the answer to a new
    order accounts for its quantity exactly when the order is placeable. -/
theorem quantity_conserved_iff_placeable {sequence : List (Call capacities)}
    (reached : calls EngineProcessor.new sequence = some p) (ready : p.operational = true)
    (front : p.ingress.tryPop.1 = some (.newOrder m)) :
    ∃ p' events, p.processNext = some (true,p') ∧ answer p.engine (.newOrder m) = some (events,p'.engine) ∧
      p'.egress.contents = (p.egress.contents ++ events).take capacities.egress.size ∧
      ((∀ s, ∀ e ∈ resting p.engine.book s, e.orderId ≠ m.orderId) → validateNewOrder m = none →
        restedQty p.engine p'.engine m = restingQty p'.engine m.orderId) ∧
      (Conserved p.engine p'.engine m events ↔ Placeable p.engine m) := by
  obtain ⟨q,ins,outs,ran,running⟩ := calls_running running_new sequence
  rw [reached] at ran
  obtain rfl := Option.some.inj ran
  obtain ⟨rest,rfl⟩ := running.front front
  obtain ⟨events,engine',p',answered,processed,running',rfl,_⟩ := running.processNext ready
  refine ⟨p',events,processed,answered,?_,?_,conserved_iff running.orderly answered⟩
  · rw [running'.egress.elements,running.egress.elements]
  · intro fresh valid
    rcases answer_newOrder running.orderly m with ⟨reason,invalid,_⟩ | ⟨_,after,ran,orderly',viewed⟩
    · rw [valid] at invalid
      cases invalid
    · rw [ran] at answered
      obtain ⟨_,rfl⟩ := Prod.mk.inj (Option.some.inj answered)
      exact restedQty_eq_restingQty orderly'.sound viewed fresh

/-- Capacities for small examples. -/
def small : Capacities :=
  ⟨⟨1,by decide,by decide⟩,⟨1,by decide,by decide⟩,⟨4,PoolCapacity.four.positive⟩,⟨4,PoolCapacity.four.positive⟩⟩

/-- A bid that meets an ask of the same quantity, with both pools full. -/
theorem quantity_conserved_of_match :
    ∃ p : EngineProcessor small, ∃ p' events,
      calls EngineProcessor.new [.submit (.newOrder ⟨1,.Sell,100,5,1⟩),.processNext,.submit (.newOrder ⟨2,.Buy,100,5,2⟩)] =
        some p ∧
      p.processNext = some (true,p') ∧ answer p.engine (.newOrder ⟨2,.Buy,100,5,2⟩) = some (events,p'.engine) ∧
      Conserved p.engine p'.engine ⟨2,.Buy,100,5,2⟩ events := by
  obtain ⟨p,reached⟩ : ∃ p : EngineProcessor small, calls EngineProcessor.new
      [.submit (.newOrder ⟨1,.Sell,100,5,1⟩),.processNext,.submit (.newOrder ⟨2,.Buy,100,5,2⟩)] = some p := ⟨_,rfl⟩
  have shape := Option.some.inj reached
  obtain ⟨p',events,processed,answered,_,_,conserved⟩ := quantity_conserved_iff_placeable (m := ⟨2,.Buy,100,5,2⟩) reached
    (by rw [← shape]; rfl) (by rw [← shape]; rfl)
  refine ⟨p,p',events,reached,processed,answered,conserved.mpr (.inr (.inl ⟨⟨1,1,100,5,.Sell⟩,?_,by decide⟩))⟩
  rw [← shape]
  decide

/-- With the only slot taken, a second bid is acknowledged although nothing of it
    has traded or rests. -/
theorem acknowledged_order_is_lost :
    ∃ p p' : EngineProcessor small, ∃ events,
      calls EngineProcessor.new [.submit (.newOrder ⟨1,.Buy,100,5,1⟩),.processNext,.submit (.newOrder ⟨2,.Buy,99,7,2⟩)] =
        some p ∧
      p.processNext = some (true,p') ∧ answer p.engine (.newOrder ⟨2,.Buy,99,7,2⟩) = some (events,p'.engine) ∧
      events = [.ack ⟨2,.Accepted⟩] ∧ tradedQty events = 0 ∧ restedQty p.engine p'.engine ⟨2,.Buy,99,7,2⟩ = 0 ∧
      ¬ Conserved p.engine p'.engine ⟨2,.Buy,99,7,2⟩ events := by
  refine ⟨_,_,_,rfl,rfl,rfl,rfl,rfl,rfl,?_⟩
  intro conserved
  have account := conserved.1 (by decide)
  exact absurd account (by decide)
end

end HyperMatch.Processing
