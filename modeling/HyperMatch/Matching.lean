import HyperMatch.BookWalk
import HyperMatch.MatchingEngine

/-!
The matching core as a machine on the two walks of its book. A new order sweeps
the front of the opposite walk; what is left of it is put into its own walk, unless
there is no room. A cancellation takes one entry out. Every call on a sound engine
returns and leaves a sound engine.
-/
namespace HyperMatch.Matching
open HyperMatch.Wire HyperMatch.OrderBook HyperMatch.BookLayout HyperMatch.MatchingEngine
set_option linter.unusedSimpArgs false

variable {maxOrders maxPriceLevels : PoolCapacity}

/-- The trade of the incoming order with a resting entry. -/
def tradeOf (incoming : NewOrder) (execSeq : UInt64) (tradeQty : UInt32) (e : Entry) : Trade :=
  ⟨execSeq,e.priceTicks,tradeQty,incoming.orderId,e.orderId⟩

/-- The trades of an incoming order with a walk, what remains of it, and what is
    left of the walk. -/
def sweep (incoming : NewOrder) : List Entry → UInt64 → UInt32 → List Trade × UInt32 × List Entry
  | [],_,remaining => ([],remaining,[])
  | e :: rest,execSeq,remaining =>
    if remaining > 0 ∧ priceCrosses incoming.side incoming.priceTicks e.priceTicks = true then
      let tradeQty := stdMin remaining e.remainingQty
      let trade := tradeOf incoming execSeq tradeQty e
      if e.remainingQty - tradeQty = 0 then
        let (trades,left,walk) := sweep incoming rest (execSeq + 1) (remaining - tradeQty)
        (trade :: trades,left,walk)
      else ([trade],remaining - tradeQty,{ e with remainingQty := e.remainingQty - tradeQty } :: rest)
    else ([],remaining,e :: rest)

/-- The identifiers of the orders that a sweep fills, first to last. -/
def filled (incoming : NewOrder) : List Entry → UInt32 → List UInt64
  | [],_ => []
  | e :: rest,remaining =>
    if remaining > 0 ∧ priceCrosses incoming.side incoming.priceTicks e.priceTicks = true then
      if e.remainingQty - stdMin remaining e.remainingQty = 0 then
        e.orderId :: filled incoming rest (remaining - stdMin remaining e.remainingQty)
      else []
    else []

/-- One step of the sweep, by what it meets: a front order that it consumes, one
    that consumes it, or nothing to trade with. -/
theorem sweep_cons (incoming : NewOrder) (e : Entry) (rest : List Entry) (execSeq : UInt64) (remaining : UInt32) :
    (remaining > 0 ∧ priceCrosses incoming.side incoming.priceTicks e.priceTicks = true ∧
        e.remainingQty - stdMin remaining e.remainingQty = 0 ∧
        sweep incoming (e :: rest) execSeq remaining =
          (tradeOf incoming execSeq (stdMin remaining e.remainingQty) e ::
              (sweep incoming rest (execSeq + 1) (remaining - stdMin remaining e.remainingQty)).1,
            (sweep incoming rest (execSeq + 1) (remaining - stdMin remaining e.remainingQty)).2)) ∨
      (remaining > 0 ∧ priceCrosses incoming.side incoming.priceTicks e.priceTicks = true ∧
        e.remainingQty - stdMin remaining e.remainingQty ≠ 0 ∧
        sweep incoming (e :: rest) execSeq remaining =
          ([tradeOf incoming execSeq (stdMin remaining e.remainingQty) e],remaining - stdMin remaining e.remainingQty,
            { e with remainingQty := e.remainingQty - stdMin remaining e.remainingQty } :: rest)) ∨
      (¬ (remaining > 0 ∧ priceCrosses incoming.side incoming.priceTicks e.priceTicks = true) ∧
        sweep incoming (e :: rest) execSeq remaining = ([],remaining,e :: rest)) := by
  by_cases opened : remaining > 0 ∧ priceCrosses incoming.side incoming.priceTicks e.priceTicks = true
  · by_cases gone : e.remainingQty - stdMin remaining e.remainingQty = 0
    · exact .inl ⟨opened.1,opened.2,gone,by rw [sweep,if_pos opened]; simp only [gone,if_true]⟩
    · exact .inr (.inl ⟨opened.1,opened.2,gone,by rw [sweep,if_pos opened]; simp only [gone,if_false]⟩)
  · exact .inr (.inr ⟨opened,by rw [sweep,if_neg opened]⟩)

/-- The invariant of the engine. -/
structure Sound (engine : MatchingEngine maxOrders maxPriceLevels) : Prop where
  good : Good engine.book
  positive : ∀ s, ∀ e ∈ resting engine.book s, 0 < e.remainingQty
  retired : ∃ ids, RetiredIdSet.Records engine.retired ids

theorem sound_new : Sound (MatchingEngine.new : MatchingEngine maxOrders maxPriceLevels) := by
  have kept : Kept (OrderBook.new : OrderBook maxOrders maxPriceLevels) (fun _ => []) := kept_new
  refine ⟨kept.good,?_,[],RetiredIdSet.records_new maxOrders.positive⟩
  intro s e m
  rw [MatchingEngine.new,kept.resting_eq] at m
  cases m

theorem pos_of_ne_zero {q : UInt32} (some : q ≠ 0) : 0 < q := by
  rw [UInt32.lt_iff_toNat_lt]
  exact Nat.pos_of_ne_zero (fun zero => some (UInt32.toNat_inj.mp zero))

/-- A side of a walk replaced. -/
theorem positive_update {walks : Side → List Entry} {s : Side} {new : List Entry}
    (old : ∀ t, ∀ e ∈ walks t, 0 < e.remainingQty) (here : ∀ e ∈ new, 0 < e.remainingQty) :
    ∀ t, ∀ e ∈ Function.update walks s new t, 0 < e.remainingQty := by
  intro t e m
  by_cases same : t = s
  · rw [same,Function.update_self] at m
    exact here e m
  · rw [Function.update_of_ne same] at m
    exact old t e m

section
variable {engine : MatchingEngine maxOrders maxPriceLevels}

theorem bestLevel_eq (book : OrderBook maxOrders maxPriceLevels) (s : Side) :
    bestLevel book s = if book.sideHead s = kNullNode then none else some (book.levelAt (book.sideHead s)) := by
  cases s <;> rfl

/-- After a trade the front entry has its new quantity, or is gone at zero. -/
theorem settle_spec (sound : Sound engine) {s : Side} {e : Entry} {rest : List Entry}
    (front : resting engine.book s = e :: rest) (left : UInt32) :
    ∃ engine', settle engine (engine.book.levelAt (engine.book.sideHead s)).head left = some engine' ∧ Sound engine' ∧
      engine'.nextExecSeq = engine.nextExecSeq ∧
      resting engine'.book = Function.update (resting engine.book) s
        (if left = 0 then rest else { e with remainingQty := left } :: rest) ∧
      ∀ ids, RetiredIdSet.Records engine.retired ids →
        RetiredIdSet.Records engine'.retired (if left = 0 then RetiredIdSet.recorded maxOrders.size ids e.orderId else ids) := by
  obtain ⟨_,_,nodes,first,here,there⟩ := sideHead_front sound.good front
  have restPositive : ∀ x ∈ rest, 0 < x.remainingQty :=
    fun x m => sound.positive s x (by rw [front]; exact List.mem_cons_of_mem _ m)
  by_cases gone : left = 0
  · have named : ((engine.book.setRemainingQty (engine.book.levelAt (engine.book.sideHead s)).head left).orderAt
        (engine.book.levelAt (engine.book.sideHead s)).head).orderId = e.orderId := by
      rw [← here]
      exact congrArg Entry.orderId (entryAt_setRemainingQty _ left _)
    obtain ⟨ids,records⟩ := sound.retired
    obtain ⟨retired,inserted,records'⟩ := records.insert maxOrders.positive e.orderId
    obtain ⟨book',removed,good',resting'⟩ := removeFront_resting sound.good first left
    rw [there] at resting'
    refine ⟨{ engine with book := book', retired := retired },?_,⟨good',?_,_,records'⟩,rfl,?_,?_⟩
    · rw [settle,if_pos gone,named,inserted]
      simp [removed]
    · rw [resting']
      exact positive_update sound.positive restPositive
    · rw [resting',if_pos gone]
    · intro others recordsOthers
      obtain ⟨_,insertedToo,recordsToo⟩ := recordsOthers.insert maxOrders.positive e.orderId
      cases inserted.symm.trans insertedToo
      rw [if_pos gone]
      exact recordsToo
  · obtain ⟨good',_,resting'⟩ := setRemainingQty_resting sound.good first left
    rw [here,there] at resting'
    refine ⟨{ engine with book := engine.book.setRemainingQty (engine.book.levelAt (engine.book.sideHead s)).head left },
      by simp [settle,gone],⟨good',?_,sound.retired⟩,rfl,by rw [resting',if_neg gone],
      fun ids records => by rw [if_neg gone]; exact records⟩
    rw [resting']
    refine positive_update sound.positive ?_
    rintro x m
    rcases List.mem_cons.mp m with rfl | inside
    · exact pos_of_ne_zero gone
    · exact restPositive x inside

/-- A trade that leaves something of the resting order takes all of the incoming
    one. -/
theorem left_when_kept {remaining qty : UInt32} (kept : qty - stdMin remaining qty ≠ 0) :
    remaining - stdMin remaining qty = 0 := by
  unfold stdMin at kept ⊢
  split_ifs at kept ⊢
  · exact absurd (UInt32.sub_self qty) kept
  · exact UInt32.sub_self remaining

/-- The matching loop sweeps the opposite walk. -/
theorem matchLoop_spec (incoming : NewOrder) {walk : List Entry} (sound : Sound engine)
    (opposed : resting engine.book (opposite incoming.side) = walk) (remaining : UInt32) {bound : Nat}
    (enough : walk.length < bound) :
    ∃ engine', matchLoop incoming bound engine remaining =
        some ((sweep incoming walk engine.nextExecSeq remaining).1,
          (sweep incoming walk engine.nextExecSeq remaining).2.1,engine') ∧
      Sound engine' ∧
      resting engine'.book = Function.update (resting engine.book) (opposite incoming.side)
        (sweep incoming walk engine.nextExecSeq remaining).2.2 ∧
      engine'.nextExecSeq = engine.nextExecSeq +
        UInt64.ofNat (sweep incoming walk engine.nextExecSeq remaining).1.length ∧
      ∀ ids, RetiredIdSet.Records engine.retired ids → RetiredIdSet.Records engine'.retired
        ((filled incoming walk remaining).foldl (RetiredIdSet.recorded maxOrders.size) ids) := by
  induction walk generalizing engine remaining bound with
  | nil =>
    obtain ⟨bound,rfl⟩ := Nat.exists_eq_succ_of_ne_zero (by omega : bound ≠ 0)
    refine ⟨engine,?_,sound,?_,by simp [sweep],fun ids records => records⟩
    · rw [matchLoop,bestLevel_eq,if_pos (sideHead_empty sound.good opposed)]
      simp [sweep]
    · rw [sweep,← opposed,Function.update_eq_self]
  | cons e rest ih =>
    obtain ⟨bound,rfl⟩ := Nat.exists_eq_succ_of_ne_zero (by omega : bound ≠ 0)
    simp only [List.length_cons] at enough
    obtain ⟨proper,price,nodes,first,here,there⟩ := sideHead_front sound.good opposed
    rw [matchLoop,bestLevel_eq,if_neg proper]
    by_cases opened : remaining > 0 ∧ priceCrosses incoming.side incoming.priceTicks e.priceTicks = true
    · obtain ⟨some,crosses⟩ := opened
      have qty : (engine.book.orderAt (engine.book.levelAt (engine.book.sideHead (opposite incoming.side))).head).remainingQty =
          e.remainingQty := congrArg Entry.remainingQty here
      have trade : ∀ q, tradeWith incoming engine.nextExecSeq q
          (engine.book.orderAt (engine.book.levelAt (engine.book.sideHead (opposite incoming.side))).head) =
          tradeOf incoming engine.nextExecSeq q e := by
        intro q; rw [← here]; rfl
      have sound₀ : Sound { engine with nextExecSeq := engine.nextExecSeq + 1 } :=
        ⟨sound.good,sound.positive,sound.retired⟩
      obtain ⟨engine₁,settled,sound₁,seq₁,resting₁,retired₁⟩ :=
        settle_spec sound₀ opposed (e.remainingQty - stdMin remaining e.remainingQty)
      simp only [some,if_true,levelHead,price,crosses,Bool.not_true,Bool.false_eq_true,if_false,qty,trade]
      simp only [Option.bind_eq_bind,settled,Option.bind_some]
      by_cases gone : e.remainingQty - stdMin remaining e.remainingQty = 0
      · simp only [if_pos gone] at resting₁ retired₁
        obtain ⟨engine',ran,sound',resting',seq',retired'⟩ := ih sound₁
          (by rw [resting₁,Function.update_self]) (remaining - stdMin remaining e.remainingQty)
          (show rest.length < bound by omega)
        rw [seq₁] at ran resting' seq'
        refine ⟨engine',?_,sound',?_,?_,?_⟩
        · simp [ran,sweep,some,crosses,gone]
        · rw [resting',resting₁,Function.update_idem]
          simp [sweep,some,crosses,gone]
        · rw [seq']
          simp only [sweep,some,crosses,gone,and_self,if_true,List.length_cons,UInt64.ofNat_add]
          rw [UInt64.add_assoc,UInt64.add_comm 1]
          rfl
        · intro ids records
          rw [filled,if_pos ⟨some,crosses⟩,if_pos gone,List.foldl_cons]
          exact retired' _ (retired₁ ids records)
      · simp only [if_neg gone] at resting₁ retired₁
        obtain ⟨bound,rfl⟩ := Nat.exists_eq_succ_of_ne_zero (by omega : bound ≠ 0)
        have spent := left_when_kept gone
        refine ⟨engine₁,?_,sound₁,?_,?_,?_⟩
        · rw [matchLoop,spent]
          simp [sweep,some,crosses,gone,spent]
        · rw [resting₁]
          simp [sweep,some,crosses,gone]
        · rw [seq₁]
          simp [sweep,some,crosses,gone]
        · intro ids records
          rw [filled,if_pos ⟨some,crosses⟩,if_neg gone]
          exact retired₁ ids records
    · refine ⟨engine,?_,sound,?_,by simp [sweep,opened],fun ids records => by rw [filled,if_neg opened]; exact records⟩
      · rw [sweep,if_neg opened]
        by_cases some : remaining > 0
        · have out : ¬ priceCrosses incoming.side incoming.priceTicks e.priceTicks = true := fun c => opened ⟨some,c⟩
          simp [some,price,out]
        · simp [some]
      · rw [sweep,if_neg opened,← opposed,Function.update_eq_self]
end

/-! ### The machine on walks -/

/-- The walks of the two sides and the next execution number. -/
@[ext] structure Exchange where
  walks : Side → List Entry
  nextExecSeq : UInt64

def view (engine : MatchingEngine maxOrders maxPriceLevels) : Exchange := ⟨resting engine.book,engine.nextExecSeq⟩

/-- What would rest of an incoming order. -/
def remainder (incoming : NewOrder) (remaining : UInt32) : Entry :=
  ⟨incoming.orderId,incoming.seq,incoming.priceTicks,remaining,incoming.side⟩

/-- Put an order to rest, unless there is no room for it. -/
def putToRest (maxOrders maxPriceLevels : PoolCapacity) (walks : Side → List Entry) (new : Entry) : Side → List Entry :=
  if NoRoom maxOrders maxPriceLevels walks new.side new.priceTicks then walks
  else Function.update walks new.side ((walks new.side).orderedInsert (Outranks new.side) new)

namespace Exchange

def sweptBy (ex : Exchange) (incoming : NewOrder) : List Trade × UInt32 × List Entry :=
  sweep incoming (ex.walks (opposite incoming.side)) ex.nextExecSeq incoming.quantity

/-- The identifiers of the resting orders that an incoming order fills. -/
def filledBy (ex : Exchange) (incoming : NewOrder) : List UInt64 :=
  filled incoming (ex.walks (opposite incoming.side)) incoming.quantity

/-- The walks once the incoming order has traded. -/
def traded (ex : Exchange) (incoming : NewOrder) : Side → List Entry :=
  Function.update ex.walks (opposite incoming.side) (ex.sweptBy incoming).2.2

def newOrder (maxOrders maxPriceLevels : PoolCapacity) (ex : Exchange) (incoming : NewOrder) : List Trade × Exchange :=
  ((ex.sweptBy incoming).1,
    { walks :=
        if (ex.sweptBy incoming).2.1 > 0 then
          putToRest maxOrders maxPriceLevels (ex.traded incoming) (remainder incoming (ex.sweptBy incoming).2.1)
        else ex.traded incoming
      nextExecSeq := ex.nextExecSeq + UInt64.ofNat (ex.sweptBy incoming).1.length })

/-- The first entry with an identifier on a side. -/
def find (ex : Exchange) (orderId : UInt64) (side : Side) : Option Entry :=
  (ex.walks side).find? (fun e => decide (e.orderId = orderId))
def without (ex : Exchange) (orderId : UInt64) (side : Side) : Exchange :=
  { ex with walks := Function.update ex.walks side ((ex.walks side).eraseP (fun e => decide (e.orderId = orderId))) }

/-- Take out the first order with an identifier, bids before asks. -/
def cancel (ex : Exchange) (orderId : UInt64) : Option Entry × Exchange :=
  match ex.find orderId .Buy with
  | some e => (some e,ex.without orderId .Buy)
  | none =>
    match ex.find orderId .Sell with
    | some e => (some e,ex.without orderId .Sell)
    | none => (none,ex)

end Exchange

section
variable {engine : MatchingEngine maxOrders maxPriceLevels}

theorem positive_orderedInsert {new : Entry} {entries : List Entry} (some : 0 < new.remainingQty)
    (old : ∀ e ∈ entries, 0 < e.remainingQty) :
    ∀ e ∈ entries.orderedInsert (Outranks new.side) new, 0 < e.remainingQty := by
  intro e m
  rcases (List.mem_orderedInsert _).mp m with rfl | inside
  · exact some
  · exact old e inside

/-- A new order on a sound engine. -/
theorem processNewOrder_spec (sound : Sound engine) (incoming : NewOrder) :
    ∃ engine', engine.processNewOrder incoming =
        some (((view engine).newOrder maxOrders maxPriceLevels incoming).1,engine') ∧
      Sound engine' ∧ view engine' = ((view engine).newOrder maxOrders maxPriceLevels incoming).2 ∧
      ∀ ids, RetiredIdSet.Records engine.retired ids → RetiredIdSet.Records engine'.retired
        (((view engine).filledBy incoming).foldl (RetiredIdSet.recorded maxOrders.size) ids) := by
  obtain ⟨engine₁,ran,sound₁,resting₁,seq₁,retired₁⟩ := matchLoop_spec incoming sound rfl incoming.quantity
    (Nat.lt_succ_of_le (resting_length_le sound.good _))
  have traded : resting engine₁.book = (view engine).traded incoming := resting₁
  by_cases some : ((view engine).sweptBy incoming).2.1 > 0
  · rcases insertOrder_resting sound₁.good (remainder incoming ((view engine).sweptBy incoming).2.1) with
      ⟨full,same⟩ | ⟨room,book',inserted,good',resting'⟩
    · refine ⟨engine₁,?_,sound₁,?_,retired₁⟩
      · have same' : engine₁.book.insertOrder incoming.orderId incoming.side incoming.priceTicks incoming.seq
            ((view engine).sweptBy incoming).2.1 = Option.some (false,engine₁.book) := same
        simp only [Exchange.sweptBy,view] at some same'
        simp [processNewOrder,ran,some,same',Exchange.newOrder,Exchange.sweptBy,view]
      · rw [traded] at full
        refine Exchange.ext ?_ seq₁
        rw [Exchange.newOrder,if_pos some,putToRest,if_pos full]
        exact traded
    · refine ⟨{ engine₁ with book := book' },?_,⟨good',?_,sound₁.retired⟩,?_,retired₁⟩
      · have inserted' : engine₁.book.insertOrder incoming.orderId incoming.side incoming.priceTicks incoming.seq
            ((view engine).sweptBy incoming).2.1 = Option.some (true,book') := inserted
        simp only [Exchange.sweptBy,view] at some inserted'
        simp [processNewOrder,ran,some,inserted',Exchange.newOrder,Exchange.sweptBy,view]
      · rw [resting']
        exact positive_update sound₁.positive (positive_orderedInsert some (sound₁.positive _))
      · rw [traded] at room resting'
        refine Exchange.ext ?_ seq₁
        rw [Exchange.newOrder,if_pos some,putToRest,if_neg room]
        exact resting'
  · refine ⟨engine₁,?_,sound₁,?_,retired₁⟩
    · simp only [Exchange.sweptBy,view] at some
      simp [processNewOrder,ran,some,Exchange.newOrder,Exchange.sweptBy,view]
    · refine Exchange.ext ?_ seq₁
      rw [Exchange.newOrder,if_neg some]
      exact traded

theorem processNewOrderChecked_spec (sound : Sound engine) (incoming : NewOrder) :
    (∃ reason, validateNewOrder incoming = some reason ∧ engine.processNewOrderChecked incoming =
        some ({ accepted := false, rejects := [⟨incoming.orderId,reason⟩] },engine)) ∨
      (validateNewOrder incoming = none ∧ ∃ engine', engine.processNewOrderChecked incoming =
          some ({ accepted := true, trades := ((view engine).newOrder maxOrders maxPriceLevels incoming).1 },engine') ∧
        Sound engine' ∧ view engine' = ((view engine).newOrder maxOrders maxPriceLevels incoming).2 ∧
        ∀ ids, RetiredIdSet.Records engine.retired ids → RetiredIdSet.Records engine'.retired
          (((view engine).filledBy incoming).foldl (RetiredIdSet.recorded maxOrders.size) ids)) := by
  cases checked : validateNewOrder incoming with
  | some reason => exact .inl ⟨reason,rfl,by simp [processNewOrderChecked,checked]⟩
  | none =>
    obtain ⟨engine',ran,sound',viewed⟩ := processNewOrder_spec sound incoming
    exact .inr ⟨rfl,engine',by simp [processNewOrderChecked,checked,ran],sound',viewed⟩

/-- The slot of the first order with an identifier on a side. -/
theorem find_side (engine : MatchingEngine maxOrders maxPriceLevels) (orderId : UInt64) (s : Side) :
    (view engine).find orderId s = ((queue (layoutOf engine.book) s).find?
      (fun n => decide ((entryAt engine.book n).orderId = orderId))).map (entryAt engine.book) := by
  simp only [Exchange.find,view,resting,walk,List.find?_map]
  rfl

/-- Removing the slot that the search finds on a side. -/
theorem remove_found (sound : Sound engine) {orderId : UInt64} {s : Side} {node : NodeIndex}
    (found : (queue (layoutOf engine.book) s).find?
      (fun n => decide ((entryAt engine.book n).orderId = orderId)) = some node) :
    ∃ book', engine.book.removeOrder node = some book' ∧ Good book' ∧
      resting book' = ((view engine).without orderId s).walks := by
  obtain ⟨matched,xs,ys,split,before⟩ := List.find?_eq_some_iff_append.mp found
  obtain ⟨book',removed,good',resting'⟩ := removeOrder_resting sound.good split
  refine ⟨book',removed,good',?_⟩
  have spelled : resting engine.book s = xs.map (entryAt engine.book) ++ entryAt engine.book node ::
      ys.map (entryAt engine.book) := by rw [resting,walk,split,List.map_append,List.map_cons]
  rw [resting',Exchange.without]
  simp only [view]
  rw [spelled,List.eraseP_append_right _ ?_]
  · rw [List.eraseP_cons,matched]
    rfl
  intro e m
  obtain ⟨n,inX,rfl⟩ := List.mem_map.mp m
  have missed := before n inX
  simpa using missed

/-- The slots of the two sides, searched one after the other. -/
theorem findOrder_sides (sound : Sound engine) (orderId : UInt64) :
    (∃ s node, engine.book.findOrder orderId = some node ∧ node ≠ kNullNode ∧
        (queue (layoutOf engine.book) s).find? (fun n => decide ((entryAt engine.book n).orderId = orderId)) =
          some node ∧
        (view engine).cancel orderId = (some (entryAt engine.book node),(view engine).without orderId s)) ∨
      (engine.book.findOrder orderId = some kNullNode ∧ (view engine).cancel orderId = (none,view engine)) := by
  have found := findOrder_eq sound.good orderId
  have bids := find_side engine orderId .Buy
  have asks := find_side engine orderId .Sell
  rw [List.find?_append] at found
  have proper : ∀ s node, (queue (layoutOf engine.book) s).find?
      (fun n => decide ((entryAt engine.book n).orderId = orderId)) = some node → node ≠ kNullNode := by
    intro s node here
    have inside : node ∈ queue (layoutOf engine.book) s := List.mem_of_find?_eq_some here
    exact sound.good.orderPool.ne_null ((orderSlots_perm _ s).mem_iff.mpr (List.mem_append_left _ inside))
  cases onBuy : (queue (layoutOf engine.book) .Buy).find?
      (fun n => decide ((entryAt engine.book n).orderId = orderId)) with
  | some node =>
    rw [onBuy] at found bids
    exact .inl ⟨.Buy,node,by simpa using found,proper .Buy node onBuy,onBuy,by simp [Exchange.cancel,bids]⟩
  | none =>
    rw [onBuy] at found bids
    cases onSell : (queue (layoutOf engine.book) .Sell).find?
        (fun n => decide ((entryAt engine.book n).orderId = orderId)) with
    | some node =>
      rw [onSell] at found asks
      exact .inl ⟨.Sell,node,by simpa using found,proper .Sell node onSell,onSell,
        by simp [Exchange.cancel,bids,asks]⟩
    | none =>
      rw [onSell] at found asks
      exact .inr ⟨by simpa using found,by simp [Exchange.cancel,bids,asks]⟩

theorem positive_without (sound : Sound engine) (orderId : UInt64) (s : Side) :
    ∀ t, ∀ e ∈ ((view engine).without orderId s).walks t, 0 < e.remainingQty := by
  refine positive_update sound.positive ?_
  intro e m
  exact sound.positive s e (List.mem_of_mem_eraseP m)

/-- A cancellation on a sound engine. -/
theorem processCancelOrder_spec (sound : Sound engine) (cancel : CancelOrder) :
    (∃ e engine', engine.processCancelOrder cancel =
        some ({ accepted := true, acks := [⟨cancel.orderId,.Cancelled⟩] },engine') ∧ Sound engine' ∧
        (view engine).cancel cancel.orderId = (some e,view engine') ∧
        ∀ ids, RetiredIdSet.Records engine.retired ids →
          RetiredIdSet.Records engine'.retired (RetiredIdSet.recorded maxOrders.size ids cancel.orderId)) ∨
      (∃ known, engine.retired.contains cancel.orderId = some known ∧ engine.processCancelOrder cancel =
          some ({ accepted := false,
                  rejects := [⟨cancel.orderId,if known then .NoLongerResting else .OrderNotFound⟩] },engine) ∧
        (view engine).cancel cancel.orderId = (none,view engine)) := by
  obtain ⟨ids,records⟩ := sound.retired
  rcases findOrder_sides sound cancel.orderId with ⟨s,node,found,proper,here,taken⟩ | ⟨missing,none⟩
  · obtain ⟨book',removed,good',resting'⟩ := remove_found sound here
    obtain ⟨retired,inserted,records'⟩ :=
      records.insert maxOrders.positive cancel.orderId
    refine .inl ⟨entryAt engine.book node,{ engine with book := book', retired := retired },?_,⟨good',?_,_,records'⟩,
      ?_,?_⟩
    · simp [processCancelOrder,found,proper,removed,inserted]
    · rw [resting']
      exact positive_without sound cancel.orderId s
    · rw [taken]
      exact congrArg (fun walks => (some _,Exchange.mk walks _)) resting'.symm
    · intro others recordsOthers
      obtain ⟨_,insertedToo,recordsToo⟩ :=
        recordsOthers.insert maxOrders.positive cancel.orderId
      cases inserted.symm.trans insertedToo
      exact recordsToo
  · have known := records.contains_eq maxOrders.positive cancel.orderId
    refine .inr ⟨_,known,?_,none⟩
    simp [processCancelOrder,missing,known]
end

/-! ### Runs -/

/-- A call on the engine. -/
inductive Command where
  | newOrder (m : NewOrder)
  | cancelOrder (m : CancelOrder)
  deriving Repr, DecidableEq

def step (engine : MatchingEngine maxOrders maxPriceLevels) :
    Command → Option (Outcome × MatchingEngine maxOrders maxPriceLevels)
  | .newOrder m => engine.processNewOrderChecked m
  | .cancelOrder m => engine.processCancelOrder m

/-- The outcomes of a sequence of calls and the engine after them. -/
def run (engine : MatchingEngine maxOrders maxPriceLevels) :
    List Command → Option (List Outcome × MatchingEngine maxOrders maxPriceLevels)
  | [] => some ([],engine)
  | command :: rest => do
    let (outcome,engine) ← step engine command
    let (outcomes,engine) ← run engine rest
    return (outcome :: outcomes,engine)

/-- A property that every call keeps holds after every run. -/
theorem run_keeps (Keeps : MatchingEngine maxOrders maxPriceLevels → List Command → Prop)
    {engine : MatchingEngine maxOrders maxPriceLevels} (done : List Command) (start : Keeps engine done)
    (steps : ∀ engine done command, Keeps engine done →
      ∃ outcome engine', step engine command = some (outcome,engine') ∧ Keeps engine' (done ++ [command]))
    (commands : List Command) :
    ∃ outcomes engine', run engine commands = some (outcomes,engine') ∧ Keeps engine' (done ++ commands) := by
  induction commands generalizing engine done with
  | nil => exact ⟨[],engine,rfl,by simpa using start⟩
  | cons command rest ih =>
    obtain ⟨outcome,engine₁,stepped,kept⟩ := steps engine done command start
    obtain ⟨outcomes,engine',ran,kept'⟩ := ih (done ++ [command]) kept
    exact ⟨outcome :: outcomes,engine',by simp [run,stepped,ran],by simpa using kept'⟩

/-- What is left of a walk after a sweep is not empty-handed. -/
theorem sweep_positive (incoming : NewOrder) {walk : List Entry} (some : ∀ e ∈ walk, 0 < e.remainingQty)
    (execSeq : UInt64) (remaining : UInt32) :
    ∀ e ∈ (sweep incoming walk execSeq remaining).2.2, 0 < e.remainingQty := by
  induction walk generalizing execSeq remaining with
  | nil => intro e m; simp [sweep] at m
  | cons a rest ih =>
    have later : ∀ e ∈ rest, 0 < e.remainingQty := fun e m => some e (List.mem_cons_of_mem _ m)
    rcases sweep_cons incoming a rest execSeq remaining with ⟨_,_,_,swept⟩ | ⟨_,_,kept,swept⟩ | ⟨_,swept⟩
    · rw [swept]
      exact ih later _ _
    · rw [swept]
      intro e m
      rcases List.mem_cons.mp m with rfl | inside
      · exact pos_of_ne_zero kept
      · exact later e inside
    · rw [swept]
      exact some

end HyperMatch.Matching
