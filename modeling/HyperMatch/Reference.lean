import HyperMatch.KeySort
import HyperMatch.Sweeps
import Mathlib.Data.Prod.Lex

/-!
Price-time priority by sorting. The reference keeps the live orders in the order of
their arrival, with no links and no pools. A new order takes the opposite orders
that its limit crosses, sorted by best price, then smallest sequence number, then
smallest identifier, then earliest arrival, and consumes them one by one; what is
left of it becomes live unless the capacities are used up. Over every run the
engine does what the reference does.
-/
namespace HyperMatch.Reference
open HyperMatch.Wire HyperMatch.OrderBook HyperMatch.BookLayout HyperMatch.MatchingEngine HyperMatch.Matching
  HyperMatch.KeySort
set_option linter.unusedSimpArgs false

variable {maxOrders maxPriceLevels : PoolCapacity}

/-- A resting order and when it came to rest. -/
structure Live where
  arrival : Nat
  order : Entry
  deriving Repr, DecidableEq

def priceKey (side : Side) (price : UInt64) : Int :=
  match side with
  | .Buy => -(price.toNat : Int)
  | .Sell => price.toNat

/-- Best price, smallest sequence number, smallest identifier, earliest arrival. -/
def key (l : Live) : Int ×ₗ Nat ×ₗ Nat ×ₗ Nat :=
  toLex (priceKey l.order.side l.order.priceTicks,
    toLex (l.order.seq.toNat,toLex (l.order.orderId.toNat,l.arrival)))

/-- The limit of an incoming order reaches a price. -/
def Crosses (incoming : NewOrder) (price : UInt64) : Prop :=
  match incoming.side with
  | .Buy => price ≤ incoming.priceTicks
  | .Sell => incoming.priceTicks ≤ price

instance (incoming : NewOrder) (price : UInt64) : Decidable (Crosses incoming price) := by
  unfold Crosses; split <;> infer_instance

/-- Consume orders in turn, each by the smaller of the two remaining quantities. -/
def fills : List Live → Nat → List (Live × Nat)
  | [],_ => []
  | l :: rest,remaining =>
    if remaining = 0 then []
    else
      let qty := min remaining l.order.remainingQty.toNat
      (l,qty) :: fills rest (remaining - qty)

/-- One trade for each fill, at the resting order's price, with execution numbers
    that follow each other. -/
def tradesOf (incoming : NewOrder) : UInt64 → List (Live × Nat) → List Trade
  | _,[] => []
  | execSeq,(l,qty) :: rest =>
    ⟨execSeq,l.order.priceTicks,UInt32.ofNat qty,incoming.orderId,l.order.orderId⟩ ::
      tradesOf incoming (execSeq + 1) rest

/-- What the fills take of an order. -/
def filled (done : List (Live × Nat)) (l : Live) : Nat :=
  ((done.filter (fun f => decide (f.1.arrival = l.arrival))).map Prod.snd).sum

/-- What they leave of it; nothing when it is fully consumed. -/
def leftover (done : List (Live × Nat)) (l : Live) : Option Live :=
  if filled done l = l.order.remainingQty.toNat then none
  else some { l with order := { l.order with
    remainingQty := UInt32.ofNat (l.order.remainingQty.toNat - filled done l) } }

end HyperMatch.Reference

namespace HyperMatch
open HyperMatch.Wire HyperMatch.OrderBook HyperMatch.BookLayout HyperMatch.MatchingEngine HyperMatch.Matching
  HyperMatch.KeySort HyperMatch.Reference

/-- The live orders in the order of their arrival. -/
structure Reference where
  live : List Live := []
  arrivals : Nat := 0
  nextExecSeq : UInt64 := 1

namespace Reference

def onSide (ref : Reference) (side : Side) : List Live := ref.live.filter (fun l => decide (l.order.side = side))
def ranked (ref : Reference) (side : Side) : List Live := sortBy key (ref.onSide side)

def eligible (ref : Reference) (incoming : NewOrder) : List Live :=
  sortBy key ((ref.onSide (opposite incoming.side)).filter (fun l => decide (Crosses incoming l.order.priceTicks)))
def executed (ref : Reference) (incoming : NewOrder) : List (Live × Nat) :=
  fills (ref.eligible incoming) incoming.quantity.toNat
def trades (ref : Reference) (incoming : NewOrder) : List Trade :=
  tradesOf incoming ref.nextExecSeq (ref.executed incoming)

/-- What the trades leave of the incoming order. -/
def unfilled (ref : Reference) (incoming : NewOrder) : Nat :=
  incoming.quantity.toNat - ((ref.executed incoming).map Prod.snd).sum

/-- The live orders once the incoming one has traded. -/
def afterTrades (ref : Reference) (incoming : NewOrder) : Reference :=
  { ref with
    live := ref.live.filterMap (leftover (ref.executed incoming))
    nextExecSeq := ref.nextExecSeq + UInt64.ofNat (ref.executed incoming).length }

/-- All order slots are used, or all levels and none has the price. -/
def Exhausted (maxOrders maxPriceLevels : PoolCapacity) (ref : Reference) (side : Side) (price : UInt64) : Prop :=
  ref.live.length = maxOrders.size ∨
    ((∀ l ∈ ref.onSide side, l.order.priceTicks ≠ price) ∧
      ((ref.onSide .Buy).map (fun l => l.order.priceTicks)).dedup.length +
        ((ref.onSide .Sell).map (fun l => l.order.priceTicks)).dedup.length = maxPriceLevels.size)

instance (maxOrders maxPriceLevels : PoolCapacity) (ref : Reference) (side : Side) (price : UInt64) :
    Decidable (Exhausted maxOrders maxPriceLevels ref side price) := by unfold Exhausted; infer_instance

def newOrder (maxOrders maxPriceLevels : PoolCapacity) (ref : Reference) (incoming : NewOrder) : Reference :=
  let after := ref.afterTrades incoming
  if ref.unfilled incoming = 0 ∨ Exhausted maxOrders maxPriceLevels after incoming.side incoming.priceTicks then after
  else { after with
    live := after.live ++ [⟨after.arrivals,remainder incoming (UInt32.ofNat (ref.unfilled incoming))⟩]
    arrivals := after.arrivals + 1 }

/-- The first live order with the identifier goes, bids before asks. -/
def cancelOrder (ref : Reference) (orderId : UInt64) : Reference :=
  match (ref.ranked .Buy ++ ref.ranked .Sell).find? (fun l => decide (l.order.orderId = orderId)) with
  | some gone => { ref with live := ref.live.filter (fun l => decide (l.arrival ≠ gone.arrival)) }
  | none => ref

/-! ### Keys -/

theorem key_lt {a b : Live} {s : Side} (onA : a.order.side = s) (onB : b.order.side = s) :
    key a < key b ↔ Outranks s a.order b.order ∨ (¬ Outranks s b.order a.order ∧ a.arrival < b.arrival) := by
  have samePrice : ∀ x y : UInt64, x = y ↔ x.toNat = y.toNat := fun x y => UInt64.toNat_inj.symm
  simp only [key,Prod.Lex.toLex_lt_toLex,Outranks,before_iff,ranksFirst_iff,onA,onB,samePrice]
  cases s <;> simp only [priceKey] <;> omega

theorem arrival_of_key {a b : Live} (same : key a = key b) : a.arrival = b.arrival := by
  simp only [key,EmbeddingLike.apply_eq_iff_eq,Prod.mk.injEq] at same
  exact same.2.2.2

theorem keys_distinct {l : List Live} (distinct : (l.map Live.arrival).Nodup) : (l.map key).Nodup := by
  rw [List.Nodup,List.pairwise_map] at distinct ⊢
  exact distinct.imp (fun other same => other (arrival_of_key same))

/-! ### Fills and the sweep -/

theorem crosses_iff (incoming : NewOrder) (price : UInt64) :
    priceCrosses incoming.side incoming.priceTicks price = true ↔ Crosses incoming price := by
  unfold priceCrosses Crosses
  cases incoming.side <;> simp

theorem fills_zero (l : List Live) : fills l 0 = [] := by
  cases l <;> simp [fills]

theorem mem_fills {l : List Live} {remaining : Nat} {f : Live × Nat} (m : f ∈ fills l remaining) : f.1 ∈ l := by
  induction l generalizing remaining with
  | nil => simp [fills] at m
  | cons a rest ih =>
    rw [fills] at m
    split_ifs at m with none
    · cases m
    · rcases List.mem_cons.mp m with rfl | inside
      · exact List.mem_cons_self
      · exact List.mem_cons_of_mem _ (ih inside)

theorem filled_cons_self (l : Live) (qty : Nat) (done : List (Live × Nat)) :
    filled ((l,qty) :: done) l = qty + filled done l := by simp [filled]
theorem filled_cons_other {a l : Live} (other : a.arrival ≠ l.arrival) (qty : Nat) (done : List (Live × Nat)) :
    filled ((a,qty) :: done) l = filled done l := by simp [filled,other]
theorem filled_none {done : List (Live × Nat)} {l : Live} (apart : ∀ f ∈ done, f.1.arrival ≠ l.arrival) :
    filled done l = 0 := by
  have nothing : done.filter (fun f => decide (f.1.arrival = l.arrival)) = [] := by
    rw [List.filter_eq_nil_iff]
    intro f m
    simpa using apart f m
  rw [filled,nothing]
  rfl

theorem leftover_none {done : List (Live × Nat)} {l : Live} (some : 0 < l.order.remainingQty)
    (untouched : filled done l = 0) : leftover done l = Option.some l := by
  have positive : l.order.remainingQty.toNat ≠ 0 := by
    rw [UInt32.lt_iff_toNat_lt] at some
    exact Nat.ne_of_gt some
  rw [leftover,untouched,if_neg (Ne.symm positive)]
  simp

/-- Orders that no fill touches stay as they are. -/
theorem filterMap_untouched {done : List (Live × Nat)} {l : List Live} (some : ∀ a ∈ l, 0 < a.order.remainingQty)
    (apart : ∀ a ∈ l, ∀ f ∈ done, f.1.arrival ≠ a.arrival) : l.filterMap (leftover done) = l := by
  induction l with
  | nil => rfl
  | cons a rest ih =>
    rw [List.filterMap_cons,leftover_none (some a List.mem_cons_self) (filled_none (apart a List.mem_cons_self)),
      ih (fun b m => some b (List.mem_cons_of_mem _ m)) (fun b m => apart b (List.mem_cons_of_mem _ m))]

/-- Once a ranked order does not cross, none behind it does. -/
theorem not_crosses_behind {incoming : NewOrder} {a b : Live} (onA : a.order.side = opposite incoming.side)
    (onB : b.order.side = opposite incoming.side) (order : key a < key b)
    (out : ¬ Crosses incoming a.order.priceTicks) : ¬ Crosses incoming b.order.priceTicks := by
  rw [key,key,Prod.Lex.toLex_lt_toLex] at order
  unfold Crosses at *
  cases side : incoming.side <;> rw [side] at onA onB <;>
    simp only [side,opposite] at * <;> simp only [onA,onB,priceKey,UInt64.le_iff_toNat_le] at * <;> omega

/-- Fills of a first order and of others leave the others as their own fills do. -/
theorem filterMap_leftover_cons {l : Live} {rest : List Live} (distinct : l.arrival ∉ rest.map Live.arrival) (qty : Nat)
    {later : List (Live × Nat)} (inside : ∀ f ∈ later, f.1 ∈ rest) :
    (l :: rest).filterMap (leftover ((l,qty) :: later)) =
      (if qty = l.order.remainingQty.toNat then []
       else [{ l with order := { l.order with remainingQty := UInt32.ofNat (l.order.remainingQty.toNat - qty) } }]) ++
      rest.filterMap (leftover later) := by
  have apart : ∀ f ∈ later, f.1.arrival ≠ l.arrival :=
    fun f m same => distinct (List.mem_map.mpr ⟨f.1,inside f m,same⟩)
  have taken : filled ((l,qty) :: later) l = qty := by rw [filled_cons_self,filled_none apart,Nat.add_zero]
  have others : rest.filterMap (leftover ((l,qty) :: later)) = rest.filterMap (leftover later) := by
    refine List.filterMap_congr ?_
    intro a m
    have other : l.arrival ≠ a.arrival := fun same => distinct (same ▸ List.mem_map_of_mem m)
    rw [leftover,leftover,filled_cons_other other]
  rw [List.filterMap_cons,others,leftover,taken]
  split_ifs with gone
  · rfl
  · rfl

/-- A sweep that stops at the first ranked order fills none. -/
theorem fills_stopped {incoming : NewOrder} {l : Live} {rest : List Live}
    (sides : ∀ a ∈ l :: rest, a.order.side = opposite incoming.side) (first : ∀ a ∈ rest, key l < key a) {remaining : UInt32}
    (stops : ¬ (remaining > 0 ∧ priceCrosses incoming.side incoming.priceTicks l.order.priceTicks = true)) :
    fills ((l :: rest).filter (fun l => decide (Crosses incoming l.order.priceTicks))) remaining.toNat = [] := by
  by_cases more : remaining > 0
  · have out : ¬ Crosses incoming l.order.priceTicks :=
      fun crossing => stops ⟨more,(crosses_iff incoming _).mpr crossing⟩
    have none : (l :: rest).filter (fun l => decide (Crosses incoming l.order.priceTicks)) = [] := by
      rw [List.filter_eq_nil_iff]
      intro a m
      rcases List.mem_cons.mp m with rfl | inside
      · simpa using out
      · simpa using not_crosses_behind (sides l List.mem_cons_self) (sides a m) (first a inside) out
    rw [none,fills]
  · have zero : remaining = 0 := by
      by_contra some
      exact more (pos_of_ne_zero some)
    rw [zero]
    exact fills_zero _

/-- The sweep of a ranked walk is the fills of its crossing orders. -/
theorem sweep_fills (incoming : NewOrder) {ranks : List Live} (increasing : Increasing key ranks)
    (sides : ∀ a ∈ ranks, a.order.side = opposite incoming.side) (some : ∀ a ∈ ranks, 0 < a.order.remainingQty)
    (distinct : (ranks.map Live.arrival).Nodup) (execSeq : UInt64) (remaining : UInt32) :
    sweep incoming (ranks.map Live.order) execSeq remaining =
      (tradesOf incoming execSeq
        (fills (ranks.filter (fun l => decide (Crosses incoming l.order.priceTicks))) remaining.toNat),
      UInt32.ofNat (remaining.toNat -
        ((fills (ranks.filter (fun l => decide (Crosses incoming l.order.priceTicks))) remaining.toNat).map Prod.snd).sum),
      (ranks.filterMap (leftover
        (fills (ranks.filter (fun l => decide (Crosses incoming l.order.priceTicks))) remaining.toNat))).map
          Live.order) := by
  induction ranks generalizing execSeq remaining with
  | nil => simp [sweep,fills,tradesOf]
  | cons l rest ih =>
    obtain ⟨first,increasing⟩ := List.pairwise_cons.mp increasing
    rw [List.map_cons,List.nodup_cons] at distinct
    have restSides : ∀ a ∈ rest, a.order.side = opposite incoming.side := fun a m => sides a (List.mem_cons_of_mem _ m)
    have restSome : ∀ a ∈ rest, 0 < a.order.remainingQty := fun a m => some a (List.mem_cons_of_mem _ m)
    obtain ⟨leftIn,leftOut⟩ := sub_stdMin_toNat remaining l.order.remainingQty
    have tradeQty : stdMin remaining l.order.remainingQty =
        UInt32.ofNat (min remaining.toNat l.order.remainingQty.toNat) := by
      rw [← stdMin_toNat,UInt32.ofNat_toNat]
    -- The fill of the first order, with those of the orders behind it.
    have done : remaining > 0 → priceCrosses incoming.side incoming.priceTicks l.order.priceTicks = true →
        fills ((l :: rest).filter (fun l => decide (Crosses incoming l.order.priceTicks))) remaining.toNat =
          (l,min remaining.toNat l.order.remainingQty.toNat) ::
            fills (rest.filter (fun l => decide (Crosses incoming l.order.priceTicks)))
              (remaining.toNat - min remaining.toNat l.order.remainingQty.toNat) := by
      intro more crosses
      rw [gt_iff_lt,UInt32.lt_iff_toNat_lt,UInt32.toNat_zero] at more
      rw [List.filter_cons_of_pos (by simpa using (crosses_iff incoming _).mp crosses),fills,if_neg (Nat.ne_of_gt more)]
    obtain ⟨later,later_def⟩ : ∃ later, later =
      fills (rest.filter (fun l => decide (Crosses incoming l.order.priceTicks)))
        (remaining.toNat - min remaining.toNat l.order.remainingQty.toNat) := ⟨_,rfl⟩
    have inside : ∀ f ∈ later, f.1 ∈ rest := by
      intro f m
      rw [later_def] at m
      exact (List.mem_filter.mp (mem_fills m)).1
    rw [List.map_cons]
    rcases sweep_cons incoming l.order (rest.map Live.order) execSeq remaining with
      ⟨more,crosses,gone,swept⟩ | ⟨more,crosses,kept,swept⟩ | ⟨stops,swept⟩
    · have all : min remaining.toNat l.order.remainingQty.toNat = l.order.remainingQty.toNat := by
        rw [gone,UInt32.toNat_zero] at leftOut
        omega
      rw [swept,ih increasing restSides restSome distinct.2,leftIn,done more crosses,← later_def,
        filterMap_leftover_cons distinct.1 _ inside,if_pos all,List.nil_append]
      refine Prod.ext ?_ (Prod.ext ?_ rfl)
      · rw [tradesOf,← tradeQty]
        rfl
      · simp only [List.map_cons,List.sum_cons]
        rw [Nat.sub_add_eq]
    · have more' : (l.order.remainingQty - stdMin remaining l.order.remainingQty).toNat ≠ 0 := by
        rw [← UInt32.toNat_zero]
        exact fun same => kept (UInt32.toNat_inj.mp same)
      have whole : min remaining.toNat l.order.remainingQty.toNat = remaining.toNat := by omega
      have nothing : later = [] := by rw [later_def,whole,Nat.sub_self,fills_zero]
      rw [swept,done more crosses,← later_def,filterMap_leftover_cons distinct.1 _ inside,if_neg (by omega),nothing,
        filterMap_untouched restSome (by simp)]
      refine Prod.ext ?_ (Prod.ext ?_ ?_)
      · rw [tradesOf,tradesOf,← tradeQty]
        rfl
      · rw [← UInt32.toNat_inj,leftIn]
        simp [whole]
      · rw [← leftOut,UInt32.ofNat_toNat]
        rfl
    · rw [swept,fills_stopped sides first stops,filterMap_untouched some (by simp)]
      simp [tradesOf]

/-! ### The simulation -/

/-- The walks are the ranked live orders. -/
structure Tracks (ex : Exchange) (ref : Reference) : Prop where
  walks : ∀ s, ex.walks s = (ref.ranked s).map Live.order
  execSeq : ex.nextExecSeq = ref.nextExecSeq
  arrived : ∀ l ∈ ref.live, l.arrival < ref.arrivals
  distinct : (ref.live.map Live.arrival).Nodup
  positive : ∀ s, ∀ e ∈ ex.walks s, 0 < e.remainingQty

section
variable {ex : Exchange} {ref : Reference}

theorem mem_onSide {s : Side} {l : Live} : l ∈ ref.onSide s ↔ l ∈ ref.live ∧ l.order.side = s := by
  simp [onSide]
theorem mem_ranked {s : Side} {l : Live} : l ∈ ref.ranked s ↔ l ∈ ref.live ∧ l.order.side = s := by
  rw [ranked,mem_sortBy,mem_onSide]

theorem onSide_distinct (distinct : (ref.live.map Live.arrival).Nodup) (s : Side) :
    ((ref.onSide s).map key).Nodup :=
  keys_distinct (distinct.sublist ((List.filter_sublist).map Live.arrival))

theorem ranked_distinct (distinct : (ref.live.map Live.arrival).Nodup) (s : Side) :
    ((ref.ranked s).map Live.arrival).Nodup :=
  ((sortBy_perm key (ref.onSide s)).map Live.arrival).nodup_iff.mpr
    (distinct.sublist ((List.filter_sublist).map Live.arrival))

theorem Tracks.live_positive (tracks : Tracks ex ref) {l : Live} (m : l ∈ ref.live) : 0 < l.order.remainingQty := by
  refine tracks.positive l.order.side l.order ?_
  rw [tracks.walks]
  exact List.mem_map_of_mem (mem_ranked.mpr ⟨m,rfl⟩)

/-- Live orders of one arrival are the same. -/
theorem eq_of_arrival (distinct : (ref.live.map Live.arrival).Nodup) {a b : Live} (inA : a ∈ ref.live)
    (inB : b ∈ ref.live) (same : a.arrival = b.arrival) : a = b := List.inj_on_of_nodup_map distinct inA inB same

theorem eligible_eq (distinct : (ref.live.map Live.arrival).Nodup) (incoming : NewOrder) :
    ref.eligible incoming =
      (ref.ranked (opposite incoming.side)).filter (fun l => decide (Crosses incoming l.order.priceTicks)) :=
  sortBy_filter (onSide_distinct distinct _) _

/-- The sweep of the opposite walk, in the reference's terms. -/
theorem Tracks.swept (tracks : Tracks ex ref) (incoming : NewOrder) :
    ex.sweptBy incoming = (ref.trades incoming,UInt32.ofNat (ref.unfilled incoming),
      ((ref.ranked (opposite incoming.side)).filterMap (leftover (ref.executed incoming))).map Live.order) := by
  have increasing : Increasing key (ref.ranked (opposite incoming.side)) :=
    sortBy_increasing key (onSide_distinct tracks.distinct _)
  rw [Exchange.sweptBy,tracks.walks,tracks.execSeq,sweep_fills incoming increasing (fun a m => (mem_ranked.mp m).2)
    (fun a m => tracks.live_positive (mem_ranked.mp m).1) (ranked_distinct tracks.distinct _),
    trades,unfilled,executed,eligible_eq tracks.distinct]

theorem leftover_same {done : List (Live × Nat)} {a b : Live} (kept : leftover done a = some b) :
    key b = key a ∧ b.order.side = a.order.side ∧ b.arrival = a.arrival := by
  rw [leftover] at kept
  split_ifs at kept
  obtain rfl := Option.some.inj kept
  exact ⟨rfl,rfl,rfl⟩

theorem filter_filterMap {α : Type} {p : α → Bool} {change : α → Option α}
    (same : ∀ a b, change a = some b → p b = p a) (l : List α) :
    (l.filterMap change).filter p = (l.filter p).filterMap change := by
  induction l with
  | nil => rfl
  | cons a rest ih =>
    rw [List.filterMap_cons]
    cases changed : change a with
    | none =>
      rw [List.filter_cons]
      split_ifs
      · rw [List.filterMap_cons,changed,ih]
      · exact ih
    | some b =>
      have agree := same a b changed
      rw [List.filter_cons,List.filter_cons,agree]
      split_ifs
      · rw [List.filterMap_cons,changed,ih]
      · exact ih

theorem onSide_afterTrades (incoming : NewOrder) (s : Side) :
    (ref.afterTrades incoming).onSide s = (ref.onSide s).filterMap (leftover (ref.executed incoming)) := by
  rw [onSide,afterTrades,onSide]
  refine filter_filterMap ?_ _
  intro a b kept
  rw [(leftover_same kept).2.1]

theorem ranked_afterTrades (distinct : (ref.live.map Live.arrival).Nodup) (incoming : NewOrder) (s : Side) :
    (ref.afterTrades incoming).ranked s = (ref.ranked s).filterMap (leftover (ref.executed incoming)) := by
  rw [ranked,onSide_afterTrades]
  exact sortBy_filterMap (onSide_distinct distinct s) (fun a b kept => (leftover_same kept).1)

theorem tradesOf_length (incoming : NewOrder) (execSeq : UInt64) (done : List (Live × Nat)) :
    (tradesOf incoming execSeq done).length = done.length := by
  induction done generalizing execSeq with
  | nil => rfl
  | cons f rest ih => simp [tradesOf,ih]

/-- The fills touch only orders of the opposite side. -/
theorem executed_opposite {incoming : NewOrder} {f : Live × Nat} (m : f ∈ ref.executed incoming) :
    f.1 ∈ ref.live ∧ f.1.order.side = opposite incoming.side := by
  have inside := mem_fills m
  rw [eligible,mem_sortBy] at inside
  exact mem_onSide.mp (List.mem_filter.mp inside).1

/-- Trading keeps the walks ranked. -/
theorem Tracks.afterTrades (tracks : Tracks ex ref) (incoming : NewOrder) :
    Tracks ⟨ex.traded incoming,ex.nextExecSeq + UInt64.ofNat (ex.sweptBy incoming).1.length⟩
      (ref.afterTrades incoming) := by
  have swept := tracks.swept incoming
  refine ⟨?_,?_,?_,?_,?_⟩
  · intro s
    rw [ranked_afterTrades tracks.distinct]
    simp only [Exchange.traded]
    by_cases same : s = opposite incoming.side
    · rw [same,Function.update_self,swept]
    · rw [Function.update_of_ne same,tracks.walks s,filterMap_untouched]
      · exact fun a m => tracks.live_positive (mem_ranked.mp m).1
      · intro a m f inside clash
        obtain ⟨inLive,onSide⟩ := executed_opposite inside
        obtain ⟨inLive',onSide'⟩ := mem_ranked.mp m
        rw [eq_of_arrival tracks.distinct inLive inLive' clash,onSide'] at onSide
        exact same onSide
  · rw [swept]
    simp only [Reference.afterTrades,tracks.execSeq,trades,tradesOf_length]
  · intro l m
    obtain ⟨a,inside,kept⟩ := List.mem_filterMap.mp m
    rw [(leftover_same kept).2.2]
    exact tracks.arrived a inside
  · have apart := tracks.distinct
    rw [List.Nodup,List.pairwise_map] at apart ⊢
    refine List.pairwise_filterMap.mpr (apart.imp ?_)
    intro a b other a' keptA b' keptB
    rw [(leftover_same keptA).2.2,(leftover_same keptB).2.2]
    exact other
  · exact positive_update tracks.positive (sweep_positive incoming (tracks.positive _) _ _)

theorem live_length (ref : Reference) : ref.live.length = (ref.onSide .Buy).length + (ref.onSide .Sell).length := by
  have sells : ref.onSide .Sell = ref.live.filter (fun l => !decide (l.order.side = .Buy)) := by
    refine List.filter_congr ?_
    intro l _
    cases l.order.side <;> rfl
  rw [sells]
  exact List.length_eq_length_filter_add _

/-- The capacities are exhausted exactly when the walks have no room. -/
theorem Tracks.exhausted_iff (tracks : Tracks ex ref) (side : Side) (price : UInt64) :
    NoRoom maxOrders maxPriceLevels ex.walks side price ↔ ref.Exhausted maxOrders maxPriceLevels side price := by
  have perm : ∀ s, (ex.walks s).Perm ((ref.onSide s).map Live.order) := by
    intro s
    rw [tracks.walks]
    exact (sortBy_perm key (ref.onSide s)).map Live.order
  have lengths : ∀ s, (ex.walks s).length = (ref.onSide s).length := by
    intro s; rw [(perm s).length_eq,List.length_map]
  have prices : ∀ s, priceCount (ex.walks s) = ((ref.onSide s).map (fun l => l.order.priceTicks)).dedup.length := by
    intro s
    have same := ((perm s).map Entry.priceTicks).dedup.length_eq
    rw [List.map_map] at same
    exact same
  have missing : (∀ e ∈ ex.walks side, e.priceTicks ≠ price) ↔ ∀ l ∈ ref.onSide side, l.order.priceTicks ≠ price := by
    constructor
    · intro none l m
      exact none l.order ((perm side).mem_iff.mpr (List.mem_map_of_mem m))
    · intro none e m
      obtain ⟨l,inside,rfl⟩ := List.mem_map.mp ((perm side).mem_iff.mp m)
      exact none l inside
  rw [NoRoom,Exhausted,lengths,lengths,prices,prices,missing,live_length]

/-- A new arrival goes behind the live orders that rank before or equal to it. -/
theorem ranked_arrival (distinct : (ref.live.map Live.arrival).Nodup) (new : Live)
    (latest : ∀ l ∈ ref.live, l.arrival < new.arrival) :
    (sortBy key (ref.onSide new.order.side ++ [new])).map Live.order =
      ((ref.ranked new.order.side).map Live.order).orderedInsert (Outranks new.order.side) new.order := by
  obtain ⟨passed,passed_def⟩ : ∃ passed : Live → Bool,
    passed = fun l => decide (¬ Outranks new.order.side new.order l.order) := ⟨_,rfl⟩
  have increasing : Increasing key (ref.ranked new.order.side) :=
    sortBy_increasing key (onSide_distinct distinct new.order.side)
  have split : ref.ranked new.order.side =
      (ref.ranked new.order.side).takeWhile passed ++ (ref.ranked new.order.side).dropWhile passed :=
    List.takeWhile_append_dropWhile.symm
  have inside : ∀ l ∈ ref.ranked new.order.side, l ∈ ref.live ∧ l.order.side = new.order.side :=
    fun l m => mem_ranked.mp m
  have smaller : ∀ l ∈ (ref.ranked new.order.side).takeWhile passed, key l < key new := by
    intro l m
    obtain ⟨live,onSide⟩ := inside l ((List.takeWhile_sublist _).subset m)
    have behind := List.mem_takeWhile_imp m
    rw [passed_def,decide_eq_true_eq] at behind
    exact (key_lt onSide rfl).mpr (.inr ⟨behind,latest l live⟩)
  have larger : ∀ l ∈ (ref.ranked new.order.side).dropWhile passed, key new < key l := by
    intro l m
    cases rest : (ref.ranked new.order.side).dropWhile passed with
    | nil => rw [rest] at m; cases m
    | cons first others =>
      have stopped : passed first = false := by
        have head := List.head_dropWhile_not passed (l := ref.ranked new.order.side) (by rw [rest]; simp)
        simpa [rest] using head
      have firstIn : first ∈ ref.ranked new.order.side :=
        (List.dropWhile_sublist passed).subset (by rw [rest]; exact List.mem_cons_self)
      have outranked : Outranks new.order.side new.order first.order := by
        simpa [passed_def] using stopped
      have ahead : key new < key first := (key_lt rfl (inside first firstIn).2).mpr (.inl outranked)
      have order := increasing.sublist (List.dropWhile_sublist passed)
      rw [rest,List.pairwise_cons] at order
      rw [rest] at m
      rcases List.mem_cons.mp m with rfl | later
      · exact ahead
      · exact ahead.trans (order.1 l later)
  rw [sortBy_concat (onSide_distinct distinct new.order.side) split smaller larger,List.map_append,List.map_cons,
    List.orderedInsert_eq_take_drop,List.takeWhile_map,List.dropWhile_map,passed_def]
  rfl

theorem onSide_arrival (ref : Reference) (new : Live) (arrivals : Nat) (s : Side) :
    ({ ref with live := ref.live ++ [new], arrivals := arrivals } : Reference).onSide s =
      if s = new.order.side then ref.onSide s ++ [new] else ref.onSide s := by
  rw [onSide,List.filter_append]
  split_ifs with same
  · rw [same]; simp [onSide]
  · simp [onSide,Ne.symm same]

/-- An order comes to rest on the walks and in the reference. -/
theorem Tracks.arrive (tracks : Tracks ex ref) {new : Entry} (some : 0 < new.remainingQty) :
    Tracks ⟨Function.update ex.walks new.side ((ex.walks new.side).orderedInsert (Outranks new.side) new),ex.nextExecSeq⟩
      { ref with live := ref.live ++ [⟨ref.arrivals,new⟩], arrivals := ref.arrivals + 1 } := by
  refine ⟨?_,tracks.execSeq,?_,?_,positive_update tracks.positive (positive_orderedInsert some (tracks.positive _))⟩
  · intro s
    rw [ranked,onSide_arrival]
    by_cases same : s = new.side
    · subst same
      rw [if_pos rfl]
      simp only [Function.update_self]
      rw [tracks.walks]
      exact (ranked_arrival tracks.distinct ⟨ref.arrivals,new⟩ tracks.arrived).symm
    · rw [if_neg same]
      simp only [Function.update_of_ne same]
      exact tracks.walks s
  · intro l m
    rcases List.mem_append.mp m with old | last
    · exact Nat.lt_succ_of_lt (tracks.arrived l old)
    · rw [List.mem_singleton.mp last]
      exact Nat.lt_succ_self _
  · rw [List.map_append,List.nodup_append]
    refine ⟨tracks.distinct,List.nodup_singleton _,?_⟩
    intro a inA b inB
    obtain ⟨l,inside,rfl⟩ := List.mem_map.mp inA
    rw [List.map_singleton,List.mem_singleton] at inB
    rw [inB]
    exact Nat.ne_of_lt (tracks.arrived l inside)

/-- A new order on the walks and in the reference. -/
theorem Tracks.newOrder (tracks : Tracks ex ref) (maxOrders maxPriceLevels : PoolCapacity) (incoming : NewOrder) :
    (ex.newOrder maxOrders maxPriceLevels incoming).1 = ref.trades incoming ∧
      Tracks (ex.newOrder maxOrders maxPriceLevels incoming).2 (ref.newOrder maxOrders maxPriceLevels incoming) := by
  have swept := tracks.swept incoming
  have after := tracks.afterTrades incoming
  refine ⟨by rw [Exchange.newOrder,swept],?_⟩
  have short : ref.unfilled incoming < UInt32.size :=
    Nat.lt_of_le_of_lt (Nat.sub_le _ _) (UInt32.toNat_lt incoming.quantity)
  have left : (ex.sweptBy incoming).2.1 > 0 ↔ ref.unfilled incoming ≠ 0 := by
    rw [swept,gt_iff_lt,UInt32.lt_iff_toNat_lt,UInt32.toNat_ofNat_of_lt' short]
    exact Nat.pos_iff_ne_zero
  have remaining : (ex.sweptBy incoming).2.1 = UInt32.ofNat (ref.unfilled incoming) := by rw [swept]
  have room : NoRoom maxOrders maxPriceLevels (ex.traded incoming) incoming.side incoming.priceTicks ↔
      (ref.afterTrades incoming).Exhausted maxOrders maxPriceLevels incoming.side incoming.priceTicks :=
    after.exhausted_iff incoming.side incoming.priceTicks
  rw [Exchange.newOrder,Reference.newOrder]
  by_cases none : ref.unfilled incoming = 0
  · rw [if_neg (fun some => left.mp some none)]
    simp only [none,true_or,if_true]
    exact after
  · have some := left.mpr none
    rw [if_pos some,putToRest]
    by_cases full : (ref.afterTrades incoming).Exhausted maxOrders maxPriceLevels incoming.side incoming.priceTicks
    · have crowded : NoRoom maxOrders maxPriceLevels (ex.traded incoming)
          (remainder incoming (ex.sweptBy incoming).2.1).side
          (remainder incoming (ex.sweptBy incoming).2.1).priceTicks := room.mpr full
      rw [if_pos crowded]
      simp only [full,or_true,if_true]
      exact after
    · have free : ¬ NoRoom maxOrders maxPriceLevels (ex.traded incoming)
          (remainder incoming (ex.sweptBy incoming).2.1).side
          (remainder incoming (ex.sweptBy incoming).2.1).priceTicks := fun crowded => full (room.mp crowded)
      rw [if_neg free]
      simp only [none,full,or_self,if_false,← remaining]
      exact after.arrive some

/-- The first order with an identifier, in the reference's terms. -/
theorem Tracks.find (tracks : Tracks ex ref) (orderId : UInt64) (s : Side) :
    ex.find orderId s = ((ref.ranked s).find? (fun l => decide (l.order.orderId = orderId))).map Live.order := by
  rw [Exchange.find,tracks.walks,List.find?_map]
  rfl

/-- An order leaves the walks and the reference. -/
theorem Tracks.leave (tracks : Tracks ex ref) {orderId : UInt64} {s : Side} {gone : Live}
    (found : (ref.ranked s).find? (fun l => decide (l.order.orderId = orderId)) = some gone) :
    Tracks (ex.without orderId s)
      { ref with live := ref.live.filter (fun l => decide (l.arrival ≠ gone.arrival)) } := by
  obtain ⟨matched,xs,ys,split,before⟩ := List.find?_eq_some_iff_append.mp found
  have goneIn : gone ∈ ref.live ∧ gone.order.side = s := mem_ranked.mp (List.mem_of_find?_eq_some found)
  have rankedAfter : ∀ t, ({ ref with live := ref.live.filter (fun l => decide (l.arrival ≠ gone.arrival)) } :
      Reference).ranked t = (ref.ranked t).filter (fun l => decide (l.arrival ≠ gone.arrival)) := by
    intro t
    rw [ranked,onSide,List.filter_comm]
    exact sortBy_filter (onSide_distinct tracks.distinct t) _
  refine ⟨?_,tracks.execSeq,?_,?_,?_⟩
  · intro t
    rw [rankedAfter]
    by_cases same : t = s
    · subst same
      have apart := ranked_distinct tracks.distinct t
      rw [split,List.map_append,List.map_cons,List.nodup_middle,List.nodup_cons,← List.map_append] at apart
      have others : (xs ++ ys).filter (fun l => decide (l.arrival ≠ gone.arrival)) = xs ++ ys := by
        rw [List.filter_eq_self]
        intro l m
        rw [decide_eq_true_eq]
        exact fun clash => apart.1 (List.mem_map.mpr ⟨l,m,clash⟩)
      have filtered : (ref.ranked t).filter (fun l => decide (l.arrival ≠ gone.arrival)) = xs ++ ys := by
        rw [← others,split,List.filter_append,List.filter_append,List.filter_cons_of_neg (by simp)]
      rw [filtered,Exchange.without]
      simp only [Function.update_self,tracks.walks]
      rw [split,List.map_append,List.map_cons,List.eraseP_append_right _ ?_,List.eraseP_cons,matched,List.map_append]
      · rfl
      · intro e m
        obtain ⟨l,inX,rfl⟩ := List.mem_map.mp m
        simpa using before l inX
    · have all : (ref.ranked t).filter (fun l => decide (l.arrival ≠ gone.arrival)) = ref.ranked t := by
        rw [List.filter_eq_self]
        intro l m
        rw [decide_eq_true_eq]
        intro clash
        obtain ⟨live,onSide⟩ := mem_ranked.mp m
        rw [eq_of_arrival tracks.distinct live goneIn.1 clash,goneIn.2] at onSide
        exact same onSide.symm
      rw [all,Exchange.without]
      simp only [Function.update_of_ne same]
      exact tracks.walks t
  · intro l m
    exact tracks.arrived l (List.mem_filter.mp m).1
  · exact tracks.distinct.sublist (List.filter_sublist.map Live.arrival)
  · refine positive_update tracks.positive ?_
    intro e m
    exact tracks.positive s e (List.mem_of_mem_eraseP m)

/-- A cancellation on the walks and in the reference. -/
theorem Tracks.cancelOrder (tracks : Tracks ex ref) (orderId : UInt64) :
    Tracks (ex.cancel orderId).2 (ref.cancelOrder orderId) := by
  have bids := tracks.find orderId .Buy
  have asks := tracks.find orderId .Sell
  rw [Exchange.cancel,Reference.cancelOrder,List.find?_append]
  cases onBuy : (ref.ranked .Buy).find? (fun l => decide (l.order.orderId = orderId)) with
  | some gone =>
    rw [onBuy] at bids
    rw [bids]
    exact tracks.leave onBuy
  | none =>
    rw [onBuy] at bids
    cases onSell : (ref.ranked .Sell).find? (fun l => decide (l.order.orderId = orderId)) with
    | some gone =>
      rw [onSell] at asks
      rw [bids,asks]
      exact tracks.leave onSell
    | none =>
      rw [onSell] at asks
      rw [bids,asks]
      exact tracks
end

/-! ### Runs -/

def step (maxOrders maxPriceLevels : PoolCapacity) (ref : Reference) : Command → Reference
  | .newOrder m => if validateNewOrder m = none then ref.newOrder maxOrders maxPriceLevels m else ref
  | .cancelOrder m => ref.cancelOrder m.orderId

/-- The live orders after a sequence of calls. -/
def after (maxOrders maxPriceLevels : PoolCapacity) (commands : List Command) : Reference :=
  commands.foldl (step maxOrders maxPriceLevels) {}

theorem tracks_new : Tracks (view (MatchingEngine.new : MatchingEngine maxOrders maxPriceLevels)) {} := by
  have kept : Kept (OrderBook.new : OrderBook maxOrders maxPriceLevels) (fun _ => []) := kept_new
  have empty : ∀ s, resting (OrderBook.new : OrderBook maxOrders maxPriceLevels) s = [] := by
    intro s; rw [kept.resting_eq]; rfl
  refine ⟨?_,rfl,by simp,by simp,?_⟩
  · intro s
    simp [view,MatchingEngine.new,empty,ranked,onSide,sortBy]
  · intro s e m
    simp [view,MatchingEngine.new,empty] at m

/-- The engine and the reference after the same calls. -/
theorem run_tracks (maxOrders maxPriceLevels : PoolCapacity) (commands : List Command) :
    ∃ outcomes engine, run (MatchingEngine.new : MatchingEngine maxOrders maxPriceLevels) commands =
        some (outcomes,engine) ∧ Sound engine ∧ Tracks (view engine) (after maxOrders maxPriceLevels commands) := by
  refine run_keeps (fun engine done => Sound engine ∧ Tracks (view engine) (after maxOrders maxPriceLevels done)) []
    ⟨sound_new,tracks_new⟩ ?_ commands
  rintro engine done command ⟨sound,tracks⟩
  have next : after maxOrders maxPriceLevels (done ++ [command]) =
      step maxOrders maxPriceLevels (after maxOrders maxPriceLevels done) command := by simp [after]
  rw [next]
  cases command with
  | newOrder m =>
    rcases processNewOrderChecked_spec sound m with ⟨reason,invalid,ran⟩ | ⟨valid,engine',ran,sound',viewed,_⟩
    · refine ⟨_,engine,ran,sound,?_⟩
      rw [step,if_neg (by rw [invalid]; simp)]
      exact tracks
    · refine ⟨_,engine',ran,sound',?_⟩
      rw [step,if_pos valid,viewed]
      exact (tracks.newOrder maxOrders maxPriceLevels m).2
  | cancelOrder m =>
    have left := tracks.cancelOrder m.orderId
    rcases processCancelOrder_spec sound m with ⟨e,engine',ran,sound',viewed,_⟩ | ⟨known,_,ran,viewed⟩
    · exact ⟨_,engine',ran,sound',by rw [viewed] at left; exact left⟩
    · exact ⟨_,engine,ran,sound,by rw [viewed] at left; exact left⟩

theorem fills_bounds {l : List Live} (some : ∀ a ∈ l, 0 < a.order.remainingQty) {remaining : Nat} {f : Live × Nat}
    (m : f ∈ fills l remaining) : 0 < f.2 ∧ f.2 ≤ f.1.order.remainingQty.toNat := by
  induction l generalizing remaining with
  | nil => simp [fills] at m
  | cons a rest ih =>
    rw [fills] at m
    split_ifs at m with none
    · cases m
    · rcases List.mem_cons.mp m with rfl | inside
      · have positive := some a List.mem_cons_self
        rw [UInt32.lt_iff_toNat_lt] at positive
        simp only [UInt32.toNat_zero] at positive
        exact ⟨by simp only; omega,by simp only; omega⟩
      · exact ih (fun b inRest => some b (List.mem_cons_of_mem _ inRest)) inside

/-- All fills but the last consume their order. -/
theorem fills_consume {l : List Live} {remaining : Nat} {f : Live × Nat} (m : f ∈ (fills l remaining).dropLast) :
    f.2 = f.1.order.remainingQty.toNat := by
  induction l generalizing remaining with
  | nil => simp [fills] at m
  | cons a rest ih =>
    rw [fills] at m
    split_ifs at m with none
    · cases m
    · cases later : fills rest (remaining - min remaining a.order.remainingQty.toNat) with
      | nil => simp [later] at m
      | cons g others =>
        have more : remaining - min remaining a.order.remainingQty.toNat ≠ 0 := by
          intro zero
          rw [zero,fills_zero] at later
          cases later
        simp only [later,List.dropLast_cons_cons,List.mem_cons] at m
        rcases m with rfl | inside
        · simp only
          omega
        · exact ih (by rw [later]; exact inside)

theorem tradesOf_execSeq (incoming : NewOrder) (execSeq : UInt64) (done : List (Live × Nat)) :
    (tradesOf incoming execSeq done).map Trade.execSeq =
      (List.range done.length).map (fun i => execSeq + UInt64.ofNat i) := by
  induction done generalizing execSeq with
  | nil => rfl
  | cons f rest ih =>
    rw [tradesOf,List.map_cons,ih,List.length_cons,List.range_succ_eq_map,List.map_cons,List.map_map]
    refine List.cons_eq_cons.mpr ⟨by simp,List.map_congr_left ?_⟩
    intro i _
    rw [Function.comp_apply,Nat.succ_eq_add_one,Nat.add_comm,UInt64.ofNat_add,← UInt64.add_assoc]
    rfl

/-- Price-time priority, from every state that calls reach: an order that passes
    validation trades with what sorting the live opposite orders gives, in that
    order, and leaves the live orders of the reference in the book, ranked. -/
theorem trades_in_price_time_priority (maxOrders maxPriceLevels : PoolCapacity) (commands : List Command) :
    ∃ outcomes engine, run (MatchingEngine.new : MatchingEngine maxOrders maxPriceLevels) commands =
        some (outcomes,engine) ∧
      ∀ incoming, validateNewOrder incoming = none → ∃ engine',
        engine.processNewOrderChecked incoming = some
          ({ accepted := true, trades := (after maxOrders maxPriceLevels commands).trades incoming },engine') ∧
        ((after maxOrders maxPriceLevels commands).trades incoming).map Trade.execSeq =
          (List.range ((after maxOrders maxPriceLevels commands).trades incoming).length).map
            (fun i => engine.nextExecSeq + UInt64.ofNat i) ∧
        (∀ f ∈ (after maxOrders maxPriceLevels commands).executed incoming,
          0 < f.2 ∧ f.2 ≤ f.1.order.remainingQty.toNat) ∧
        (∀ f ∈ ((after maxOrders maxPriceLevels commands).executed incoming).dropLast,
          f.2 = f.1.order.remainingQty.toNat) ∧
        (∀ s, resting engine.book s = ((after maxOrders maxPriceLevels commands).ranked s).map Live.order) ∧
        (∀ s, resting engine'.book s = (((after maxOrders maxPriceLevels commands).newOrder maxOrders maxPriceLevels
          incoming).ranked s).map Live.order) ∧
        engine'.nextExecSeq = engine.nextExecSeq +
          UInt64.ofNat ((after maxOrders maxPriceLevels commands).trades incoming).length := by
  obtain ⟨outcomes,engine,ran,sound,tracks⟩ := run_tracks maxOrders maxPriceLevels commands
  refine ⟨outcomes,engine,ran,?_⟩
  intro incoming valid
  rcases processNewOrderChecked_spec sound incoming with ⟨reason,invalid,_⟩ | ⟨_,engine',accepted,_,viewed,_⟩
  · rw [valid] at invalid
    cases invalid
  · obtain ⟨trades,tracks'⟩ := tracks.newOrder maxOrders maxPriceLevels incoming
    rw [← viewed] at tracks'
    have execSeq : engine.nextExecSeq = (after maxOrders maxPriceLevels commands).nextExecSeq := tracks.execSeq
    refine ⟨engine',by rw [accepted,trades],?_,?_,fun f m => fills_consume m,tracks.walks,tracks'.walks,?_⟩
    · rw [execSeq,Reference.trades,tradesOf_execSeq,tradesOf_length]
    · intro f m
      refine fills_bounds ?_ m
      intro a inside
      rw [eligible,mem_sortBy] at inside
      exact tracks.live_positive (mem_onSide.mp (List.mem_filter.mp inside).1).1
    · have next := congrArg Exchange.nextExecSeq viewed
      rw [← trades]
      exact next

/-- A buy against two asks of one price that arrived against their sequence
    numbers. -/
theorem trades_in_price_time_priority_two_asks :
    ∃ outcomes engine, run (MatchingEngine.new : MatchingEngine .four .four)
        [.newOrder ⟨1,.Sell,100,5,9⟩,.newOrder ⟨2,.Sell,100,5,3⟩] = some (outcomes,engine) ∧
      ∃ engine', engine.processNewOrderChecked ⟨3,.Buy,101,7,10⟩ = some
        ({ accepted := true
           trades := (after .four .four [.newOrder ⟨1,.Sell,100,5,9⟩,.newOrder ⟨2,.Sell,100,5,3⟩]).trades
            ⟨3,.Buy,101,7,10⟩ },engine') := by
  obtain ⟨outcomes,engine,ran,all⟩ := trades_in_price_time_priority .four .four
    [.newOrder ⟨1,.Sell,100,5,9⟩,.newOrder ⟨2,.Sell,100,5,3⟩]
  obtain ⟨engine',accepted,_⟩ := all ⟨3,.Buy,101,7,10⟩ (by decide)
  exact ⟨outcomes,engine,ran,engine',accepted⟩

end Reference
end HyperMatch
