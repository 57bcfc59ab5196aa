import HyperMatch.Matching

/-!
What a sweep and a whole new order do to quantities, identifiers and prices. The
quantity that leaves a walk is the quantity of the trades; what is traded and what
is left make up the incoming order; nothing that crosses remains in front of an
order that is not filled.
-/
namespace HyperMatch.Matching
open HyperMatch.Wire HyperMatch.OrderBook HyperMatch.BookLayout HyperMatch.MatchingEngine
set_option linter.unusedSimpArgs false

variable {maxOrders maxPriceLevels : PoolCapacity}

/-! ### Sums -/

/-- The quantity of the entries whose identifier is chosen. -/
def heldBy (chosen : UInt64 → Bool) : List Entry → Nat
  | [] => 0
  | e :: rest => (if chosen e.orderId then e.remainingQty.toNat else 0) + heldBy chosen rest

/-- The quantity of the chosen trades. -/
def tradedBy (chosen : Trade → Bool) : List Trade → Nat
  | [] => 0
  | t :: rest => (if chosen t then t.quantity.toNat else 0) + tradedBy chosen rest

def held : List Entry → Nat := heldBy (fun _ => true)
def traded : List Trade → Nat := tradedBy (fun _ => true)

theorem heldBy_append (chosen : UInt64 → Bool) (l m : List Entry) :
    heldBy chosen (l ++ m) = heldBy chosen l + heldBy chosen m := by
  induction l with
  | nil => simp [heldBy]
  | cons e rest ih => simp only [List.cons_append,heldBy,ih]; omega

theorem heldBy_perm (chosen : UInt64 → Bool) {l m : List Entry} (perm : l.Perm m) :
    heldBy chosen l = heldBy chosen m := by
  induction perm with
  | nil => rfl
  | cons e _ ih => simp only [heldBy,ih]
  | swap a b l => simp only [heldBy]; omega
  | trans _ _ first second => exact first.trans second

theorem heldBy_none {chosen : UInt64 → Bool} {l : List Entry} (none : ∀ e ∈ l, chosen e.orderId = false) :
    heldBy chosen l = 0 := by
  induction l with
  | nil => rfl
  | cons e rest ih =>
    rw [heldBy,none e List.mem_cons_self,ih (fun a m => none a (List.mem_cons_of_mem _ m))]
    rfl
theorem tradedBy_none {chosen : Trade → Bool} {l : List Trade} (none : ∀ t ∈ l, chosen t = false) :
    tradedBy chosen l = 0 := by
  induction l with
  | nil => rfl
  | cons t rest ih =>
    rw [tradedBy,none t List.mem_cons_self,ih (fun a m => none a (List.mem_cons_of_mem _ m))]
    rfl
theorem tradedBy_congr {chosen chosen' : Trade → Bool} {l : List Trade} (same : ∀ t ∈ l, chosen t = chosen' t) :
    tradedBy chosen l = tradedBy chosen' l := by
  induction l with
  | nil => rfl
  | cons t rest ih =>
    rw [tradedBy,tradedBy,same t List.mem_cons_self,ih (fun a m => same a (List.mem_cons_of_mem _ m))]

/-! ### The sweep -/

theorem stdMin_toNat (a b : UInt32) : (stdMin a b).toNat = min a.toNat b.toNat := by
  unfold stdMin
  split_ifs with less
  · rw [UInt32.lt_iff_toNat_lt] at less; omega
  · rw [UInt32.lt_iff_toNat_lt] at less; omega

theorem sub_stdMin_toNat (a b : UInt32) :
    (a - stdMin a b).toNat = a.toNat - min a.toNat b.toNat ∧ (b - stdMin a b).toNat = b.toNat - min a.toNat b.toNat := by
  have value := stdMin_toNat a b
  have left : stdMin a b ≤ a := by rw [UInt32.le_iff_toNat_le]; omega
  have right : stdMin a b ≤ b := by rw [UInt32.le_iff_toNat_le]; omega
  rw [UInt32.toNat_sub_of_le _ _ left,UInt32.toNat_sub_of_le _ _ right,value]
  exact ⟨rfl,rfl⟩

section
variable (incoming : NewOrder)

/-- What is traded and what is left make up the incoming order. -/
theorem sweep_traded (walk : List Entry) (execSeq : UInt64) (remaining : UInt32) :
    traded (sweep incoming walk execSeq remaining).1 + (sweep incoming walk execSeq remaining).2.1.toNat =
      remaining.toNat := by
  induction walk generalizing execSeq remaining with
  | nil => simp [sweep,traded,tradedBy]
  | cons e rest ih =>
    have value := stdMin_toNat remaining e.remainingQty
    have left := (sub_stdMin_toNat remaining e.remainingQty).1
    rcases sweep_cons incoming e rest execSeq remaining with ⟨_,_,_,swept⟩ | ⟨_,_,_,swept⟩ | ⟨_,swept⟩
    · have later := ih (execSeq + 1) (remaining - stdMin remaining e.remainingQty)
      rw [swept]
      simp only [traded,tradedBy,tradeOf,if_true] at later ⊢
      omega
    · rw [swept]
      simp only [traded,tradedBy,tradeOf,if_true]
      omega
    · rw [swept]
      simp [traded,tradedBy]

/-- The quantity that leaves the walk is that of the trades, order by order. -/
theorem sweep_held (chosen : UInt64 → Bool) (walk : List Entry) (execSeq : UInt64) (remaining : UInt32) :
    heldBy chosen (sweep incoming walk execSeq remaining).2.2 +
        tradedBy (fun t => chosen t.restingId) (sweep incoming walk execSeq remaining).1 = heldBy chosen walk := by
  induction walk generalizing execSeq remaining with
  | nil => simp [sweep,heldBy,tradedBy]
  | cons e rest ih =>
    have value := stdMin_toNat remaining e.remainingQty
    have left := (sub_stdMin_toNat remaining e.remainingQty).2
    rcases sweep_cons incoming e rest execSeq remaining with ⟨_,_,gone,swept⟩ | ⟨_,_,_,swept⟩ | ⟨_,swept⟩
    · have later := ih (execSeq + 1) (remaining - stdMin remaining e.remainingQty)
      rw [gone] at left
      simp only [UInt32.toNat_zero] at left
      rw [swept]
      cases pick : chosen e.orderId <;> simp only [heldBy,tradedBy,tradeOf,pick,if_true,Bool.false_eq_true,if_false] at later ⊢ <;>
        omega
    · rw [swept]
      cases pick : chosen e.orderId <;> simp only [heldBy,tradedBy,tradeOf,pick,if_true,Bool.false_eq_true,if_false] <;> omega
    · rw [swept]
      simp [heldBy,tradedBy]

theorem sweep_ids (walk : List Entry) (execSeq : UInt64) (remaining : UInt32) :
    ((sweep incoming walk execSeq remaining).2.2.map Entry.orderId).Sublist (walk.map Entry.orderId) := by
  induction walk generalizing execSeq remaining with
  | nil => simp [sweep]
  | cons e rest ih =>
    rcases sweep_cons incoming e rest execSeq remaining with ⟨_,_,_,swept⟩ | ⟨_,_,_,swept⟩ | ⟨_,swept⟩
    · rw [swept]
      exact (ih _ _).trans (List.sublist_cons_self _ _)
    · rw [swept]
      exact List.Sublist.refl _
    · rw [swept]

/-- What is left of a walk: orders of the walk with no more than their quantity. -/
theorem sweep_entries {walk : List Entry} {execSeq : UInt64} {remaining : UInt32} {e : Entry}
    (m : e ∈ (sweep incoming walk execSeq remaining).2.2) :
    ∃ old ∈ walk, { old with remainingQty := e.remainingQty } = e ∧ e.remainingQty ≤ old.remainingQty := by
  induction walk generalizing execSeq remaining with
  | nil => simp [sweep] at m
  | cons a rest ih =>
    rcases sweep_cons incoming a rest execSeq remaining with ⟨_,_,_,swept⟩ | ⟨_,_,_,swept⟩ | ⟨_,swept⟩
    · rw [swept] at m
      obtain ⟨old,inside,same,less⟩ := ih m
      exact ⟨old,List.mem_cons_of_mem _ inside,same,less⟩
    · rw [swept] at m
      rcases List.mem_cons.mp m with rfl | inside
      · refine ⟨a,List.mem_cons_self,rfl,?_⟩
        have left := (sub_stdMin_toNat remaining a.remainingQty).2
        rw [UInt32.le_iff_toNat_le]
        simp only
        omega
      · exact ⟨e,List.mem_cons_of_mem _ inside,rfl,UInt32.le_refl _⟩
    · rw [swept] at m
      exact ⟨e,m,rfl,UInt32.le_refl _⟩

/-- The trades of a sweep: each with an order of the walk that crosses, at its
    price and for no more than its quantity. -/
theorem sweep_trades {walk : List Entry} (some : ∀ e ∈ walk, 0 < e.remainingQty) {execSeq : UInt64} {remaining : UInt32}
    {t : Trade} (m : t ∈ (sweep incoming walk execSeq remaining).1) :
    t.incomingId = incoming.orderId ∧ 0 < t.quantity ∧ ∃ e ∈ walk, t.restingId = e.orderId ∧
      t.priceTicks = e.priceTicks ∧ t.quantity ≤ e.remainingQty := by
  induction walk generalizing execSeq remaining with
  | nil => simp [sweep] at m
  | cons a rest ih =>
    have value := stdMin_toNat remaining a.remainingQty
    have positive := some a List.mem_cons_self
    rw [UInt32.lt_iff_toNat_lt] at positive
    have front : remaining > 0 → t = tradeOf incoming execSeq (stdMin remaining a.remainingQty) a →
        t.incomingId = incoming.orderId ∧ 0 < t.quantity ∧ ∃ e ∈ a :: rest, t.restingId = e.orderId ∧
          t.priceTicks = e.priceTicks ∧ t.quantity ≤ e.remainingQty := by
      rintro more rfl
      rw [gt_iff_lt,UInt32.lt_iff_toNat_lt] at more
      simp only [UInt32.toNat_zero] at more positive
      refine ⟨rfl,?_,a,List.mem_cons_self,rfl,rfl,?_⟩
      · rw [UInt32.lt_iff_toNat_lt]
        simp only [tradeOf,UInt32.toNat_zero]
        omega
      · rw [UInt32.le_iff_toNat_le]
        simp only [tradeOf]
        omega
    rcases sweep_cons incoming a rest execSeq remaining with ⟨more,_,_,swept⟩ | ⟨more,_,_,swept⟩ | ⟨_,swept⟩
    · rw [swept] at m
      rcases List.mem_cons.mp m with here | inside
      · exact front more here
      · obtain ⟨same,positive,e,inRest,others⟩ := ih (fun e inRest => some e (List.mem_cons_of_mem _ inRest)) inside
        exact ⟨same,positive,e,List.mem_cons_of_mem _ inRest,others⟩
    · rw [swept] at m
      exact front more (List.mem_singleton.mp m)
    · rw [swept] at m
      cases m

/-- A worse price than one that does not cross does not cross either. -/
theorem not_crosses_worse {a b : UInt64} (order : ¬ priceRanksFirst (opposite incoming.side) b a = true)
    (out : ¬ priceCrosses incoming.side incoming.priceTicks a = true) :
    ¬ priceCrosses incoming.side incoming.priceTicks b = true := by
  unfold priceCrosses at *
  cases side : incoming.side <;> simp only [side,opposite,priceRanksFirst] at * <;>
    simp only [decide_eq_true_eq,gt_iff_lt,ge_iff_le,UInt64.le_iff_toNat_le,UInt64.lt_iff_toNat_lt] at * <;> omega

/-- Nothing that crosses is left in front of an order that is not filled. -/
theorem sweep_stops {walk : List Entry} (sorted : walk.Pairwise (fun a b => ¬ Outranks (opposite incoming.side) b a))
    {execSeq : UInt64} {remaining : UInt32} (left : 0 < (sweep incoming walk execSeq remaining).2.1) :
    ∀ e ∈ (sweep incoming walk execSeq remaining).2.2,
      ¬ priceCrosses incoming.side incoming.priceTicks e.priceTicks = true := by
  induction walk generalizing execSeq remaining with
  | nil => intro e m; simp [sweep] at m
  | cons a rest ih =>
    obtain ⟨first,sorted⟩ := List.pairwise_cons.mp sorted
    rcases sweep_cons incoming a rest execSeq remaining with ⟨_,_,_,swept⟩ | ⟨_,_,kept,swept⟩ | ⟨closed,swept⟩
    · rw [swept] at left ⊢
      exact ih sorted left
    · rw [swept] at left
      rw [left_when_kept kept] at left
      exact absurd left (UInt32.lt_irrefl 0)
    · rw [swept] at left ⊢
      have out : ¬ priceCrosses incoming.side incoming.priceTicks a.priceTicks = true := fun crosses => closed ⟨left,crosses⟩
      intro e m
      rcases List.mem_cons.mp m with rfl | inside
      · exact out
      · exact not_crosses_worse incoming (fun better => first e inside (.inl better)) out
end

/-! ### A whole new order -/

/-- The quantity that the pools refuse of an incoming order. -/
def Exchange.dropped (maxOrders maxPriceLevels : PoolCapacity) (ex : Exchange) (incoming : NewOrder) : Nat :=
  if NoRoom maxOrders maxPriceLevels (ex.traded incoming) incoming.side incoming.priceTicks then
    (ex.sweptBy incoming).2.1.toNat
  else 0

/-- The quantity of the chosen orders of both sides. -/
def heldIn (chosen : UInt64 → Bool) (walks : Side → List Entry) : Nat :=
  heldBy chosen (walks .Buy) + heldBy chosen (walks .Sell)

theorem heldIn_side (chosen : UInt64 → Bool) (walks : Side → List Entry) (s : Side) :
    heldIn chosen walks = heldBy chosen (walks s) + heldBy chosen (walks (opposite s)) := by
  cases s
  · rfl
  · exact Nat.add_comm _ _

section
variable {ex : Exchange}

/-- What a new order leaves: nothing of it, a rest that is refused, or a rest that
    is put into the walk of its side. -/
theorem newOrder_cases (maxOrders maxPriceLevels : PoolCapacity) (ex : Exchange) (incoming : NewOrder) :
    ((ex.sweptBy incoming).2.1 = 0 ∧ ex.dropped maxOrders maxPriceLevels incoming = 0 ∧
        (ex.newOrder maxOrders maxPriceLevels incoming).2.walks = ex.traded incoming) ∨
      (0 < (ex.sweptBy incoming).2.1 ∧
        NoRoom maxOrders maxPriceLevels (ex.traded incoming) incoming.side incoming.priceTicks ∧
        ex.dropped maxOrders maxPriceLevels incoming = (ex.sweptBy incoming).2.1.toNat ∧
        (ex.newOrder maxOrders maxPriceLevels incoming).2.walks = ex.traded incoming) ∨
      (0 < (ex.sweptBy incoming).2.1 ∧
        ¬ NoRoom maxOrders maxPriceLevels (ex.traded incoming) incoming.side incoming.priceTicks ∧
        ex.dropped maxOrders maxPriceLevels incoming = 0 ∧
        (ex.newOrder maxOrders maxPriceLevels incoming).2.walks =
          Function.update (ex.traded incoming) incoming.side ((ex.walks incoming.side).orderedInsert
            (Outranks incoming.side) (remainder incoming (ex.sweptBy incoming).2.1))) := by
  have own : ex.traded incoming incoming.side = ex.walks incoming.side :=
    Function.update_of_ne (opposite_ne incoming.side).symm _ _
  by_cases some : 0 < (ex.sweptBy incoming).2.1
  · rw [Exchange.newOrder,if_pos some,putToRest,Exchange.dropped]
    by_cases full : NoRoom maxOrders maxPriceLevels (ex.traded incoming) incoming.side incoming.priceTicks
    · exact .inr (.inl ⟨some,full,if_pos full,if_pos full⟩)
    · refine .inr (.inr ⟨some,full,if_neg full,(if_neg full).trans ?_⟩)
      rw [← own]
      rfl
  · have none : (ex.sweptBy incoming).2.1 = 0 := by
      by_contra other
      exact some (pos_of_ne_zero other)
    refine .inl ⟨none,?_,?_⟩
    · rw [Exchange.dropped,none]
      exact ite_self 0
    · rw [Exchange.newOrder,if_neg some]

theorem heldIn_traded (chosen : UInt64 → Bool) (ex : Exchange) (incoming : NewOrder) :
    heldIn chosen (ex.traded incoming) + tradedBy (fun t => chosen t.restingId) (ex.sweptBy incoming).1 =
      heldIn chosen ex.walks := by
  have swept := sweep_held incoming chosen (ex.walks (opposite incoming.side)) ex.nextExecSeq incoming.quantity
  rw [heldIn_side chosen _ incoming.side,heldIn_side chosen ex.walks incoming.side,Exchange.traded,Function.update_self,
    Function.update_of_ne (opposite_ne incoming.side).symm,Exchange.sweptBy]
  omega

/-- The quantity of a new order goes into trades, into the book, or is dropped; the
    quantity of its trades leaves the book. -/
theorem newOrder_held (maxOrders maxPriceLevels : PoolCapacity) (chosen : UInt64 → Bool) (ex : Exchange)
    (incoming : NewOrder) :
    heldIn chosen (ex.newOrder maxOrders maxPriceLevels incoming).2.walks +
        tradedBy (fun t => chosen t.restingId) (ex.sweptBy incoming).1 +
        (if chosen incoming.orderId then ex.dropped maxOrders maxPriceLevels incoming else 0) =
      heldIn chosen ex.walks + (if chosen incoming.orderId then (ex.sweptBy incoming).2.1.toNat else 0) := by
  have before := heldIn_traded chosen ex incoming
  rcases newOrder_cases maxOrders maxPriceLevels ex incoming with
    ⟨none,dropped,walks⟩ | ⟨_,_,dropped,walks⟩ | ⟨_,_,dropped,walks⟩
  · rw [walks,dropped,none,UInt32.toNat_zero]
    omega
  · rw [walks,dropped]
    omega
  · have put : heldIn chosen (ex.newOrder maxOrders maxPriceLevels incoming).2.walks =
        heldIn chosen (ex.traded incoming) +
          (if chosen incoming.orderId then (ex.sweptBy incoming).2.1.toNat else 0) := by
      have cons : ∀ l, heldBy chosen (remainder incoming (ex.sweptBy incoming).2.1 :: l) =
        (if chosen incoming.orderId then (ex.sweptBy incoming).2.1.toNat else 0) + heldBy chosen l := fun l => rfl
      rw [walks,heldIn_side chosen _ incoming.side,heldIn_side chosen (ex.traded incoming) incoming.side,
        Function.update_self,Function.update_of_ne (opposite_ne incoming.side),
        heldBy_perm chosen (List.perm_orderedInsert _ _ _),cons,Exchange.traded,
        Function.update_of_ne (opposite_ne incoming.side).symm]
      omega
    rw [put,dropped,ite_self]
    omega

theorem sweptBy_traded (ex : Exchange) (incoming : NewOrder) :
    traded (ex.sweptBy incoming).1 + (ex.sweptBy incoming).2.1.toNat = incoming.quantity.toNat :=
  sweep_traded incoming _ _ _

/-- What rests after a new order: the rest of it on its own side, or an order that
    rested before with no more than its quantity. -/
theorem newOrder_entries (maxOrders maxPriceLevels : PoolCapacity) {incoming : NewOrder} {s : Side} {e : Entry}
    (m : e ∈ (ex.newOrder maxOrders maxPriceLevels incoming).2.walks s) :
    (s = incoming.side ∧ e = remainder incoming (ex.sweptBy incoming).2.1) ∨
      ∃ old ∈ ex.walks s, { old with remainingQty := e.remainingQty } = e ∧ e.remainingQty ≤ old.remainingQty := by
  have inTraded : e ∈ ex.traded incoming s →
      ∃ old ∈ ex.walks s, { old with remainingQty := e.remainingQty } = e ∧ e.remainingQty ≤ old.remainingQty := by
    intro inside
    by_cases same : s = opposite incoming.side
    · subst same
      rw [Exchange.traded,Function.update_self] at inside
      exact sweep_entries incoming inside
    · rw [Exchange.traded,Function.update_of_ne same] at inside
      exact ⟨e,inside,rfl,UInt32.le_refl _⟩
  rcases newOrder_cases maxOrders maxPriceLevels ex incoming with ⟨_,_,walks⟩ | ⟨_,_,_,walks⟩ | ⟨_,_,_,walks⟩
  · rw [walks] at m
    exact .inr (inTraded m)
  · rw [walks] at m
    exact .inr (inTraded m)
  · rw [walks] at m
    by_cases same : s = incoming.side
    · subst same
      rw [Function.update_self,List.mem_orderedInsert] at m
      rcases m with rfl | old
      · exact .inl ⟨rfl,rfl⟩
      · exact .inr ⟨e,old,rfl,UInt32.le_refl _⟩
    · rw [Function.update_of_ne same] at m
      exact .inr (inTraded m)
end

/-! ### A cancellation -/

section
variable {ex ex' : Exchange} {orderId : UInt64}

/-- A cancellation takes the first order with the identifier out of its walk, bids
    before asks. -/
theorem cancel_first {e : Entry} (taken : ex.cancel orderId = (some e,ex')) :
    e.orderId = orderId ∧ ∃ s xs ys, ex.walks s = xs ++ e :: ys ∧ (∀ a ∈ xs, a.orderId ≠ orderId) ∧
      (s = .Sell → ∀ a ∈ ex.walks .Buy, a.orderId ≠ orderId) ∧ ex'.walks = Function.update ex.walks s (xs ++ ys) := by
  have onSide : ∀ s, ex.find orderId s = some e → ex' = ex.without orderId s →
      e.orderId = orderId ∧ ∃ xs ys, ex.walks s = xs ++ e :: ys ∧ (∀ a ∈ xs, a.orderId ≠ orderId) ∧
        ex'.walks = Function.update ex.walks s (xs ++ ys) := by
    rintro s found rfl
    obtain ⟨matched,xs,ys,split,before⟩ := List.find?_eq_some_iff_append.mp found
    have others : ∀ a ∈ xs, a.orderId ≠ orderId := by
      intro a m
      simpa using before a m
    refine ⟨of_decide_eq_true matched,xs,ys,split,others,?_⟩
    rw [Exchange.without,split,List.eraseP_append_right _ (by simpa using others),List.eraseP_cons,matched]
    rfl
  rw [Exchange.cancel] at taken
  cases bids : ex.find orderId .Buy with
  | some b =>
    rw [bids] at taken
    obtain ⟨same,rfl⟩ := Prod.mk.inj taken
    obtain ⟨matched,xs,ys,split,others,walks⟩ := onSide .Buy (bids.trans same) rfl
    exact ⟨matched,.Buy,xs,ys,split,others,by simp,walks⟩
  | none =>
    cases asks : ex.find orderId .Sell with
    | some a =>
      rw [bids,asks] at taken
      obtain ⟨same,rfl⟩ := Prod.mk.inj taken
      obtain ⟨matched,xs,ys,split,others,walks⟩ := onSide .Sell (asks.trans same) rfl
      refine ⟨matched,.Sell,xs,ys,split,others,?_,walks⟩
      rintro - b inside
      simpa using List.find?_eq_none.mp bids b inside
    | none =>
      rw [bids,asks] at taken
      cases taken

theorem cancel_some {e : Entry} (taken : ex.cancel orderId = (some e,ex')) :
    e.orderId = orderId ∧ ∃ s xs ys, ex.walks s = xs ++ e :: ys ∧ ex'.walks = Function.update ex.walks s (xs ++ ys) := by
  obtain ⟨matched,s,xs,ys,split,-,-,walks⟩ := cancel_first taken
  exact ⟨matched,s,xs,ys,split,walks⟩

/-- Without an order to cancel, nobody rests under the identifier. -/
theorem cancel_none (missing : (ex.cancel orderId).1 = none) (s : Side) : ∀ e ∈ ex.walks s, e.orderId ≠ orderId := by
  have notFound : ∀ s, ex.find orderId s = none := by
    rw [Exchange.cancel] at missing
    cases bids : ex.find orderId .Buy with
    | some b => rw [bids] at missing; cases missing
    | none =>
      cases asks : ex.find orderId .Sell with
      | some a => rw [bids,asks] at missing; cases missing
      | none =>
        intro s
        cases s
        · exact bids
        · exact asks
  intro e m same
  have skipped := List.find?_eq_none.mp (notFound s) e m
  exact skipped (decide_eq_true same)

theorem cancel_entries {e : Entry} (taken : ex.cancel orderId = (some e,ex')) {s : Side} {a : Entry}
    (m : a ∈ ex'.walks s) : a ∈ ex.walks s := by
  obtain ⟨_,t,xs,ys,split,walks⟩ := cancel_some taken
  rw [walks] at m
  by_cases same : s = t
  · subst same
    rw [Function.update_self] at m
    rw [split]
    exact ((List.sublist_cons_self e ys).append_left xs).subset m
  · rw [Function.update_of_ne same] at m
    exact m
end

end HyperMatch.Matching
