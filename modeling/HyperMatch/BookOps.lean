import HyperMatch.LevelQueue
import Mathlib.Data.List.DropRight
import Mathlib.Data.List.Sort

/-!
The operations of the order book on a kept layout. Each one returns, keeps the
invariant, and changes the queue of one side by one order: an insertion puts the
order behind all that rank before or equal to it, a removal takes out exactly the
slot it is given. An insertion is refused when there is no slot for the order or
none for a level that it needs, and then nothing changes.
-/
namespace HyperMatch.BookLayout
open HyperMatch.Wire HyperMatch.Links HyperMatch.OrderBook HyperMatch.Pools
set_option linter.unusedSimpArgs false

variable {maxOrders maxPriceLevels : PoolCapacity}

/-! ### Priority -/

theorem before_iff {a b : Entry} :
    Before a b ↔ a.seq.toNat < b.seq.toNat ∨ (a.seq.toNat = b.seq.toNat ∧ a.orderId.toNat < b.orderId.toNat) := by
  simp [Before,hasPriorityOver,UInt64.lt_iff_toNat_lt,UInt64.toNat_inj]

instance (a b : Entry) : Decidable (Before a b) := inferInstanceAs (Decidable (_ = true))

theorem ranksFirst_iff {side : Side} {a b : UInt64} :
    priceRanksFirst side a b = true ↔ (match side with | .Buy => b.toNat < a.toNat | .Sell => a.toNat < b.toNat) := by
  cases side <;> simp [priceRanksFirst,UInt64.lt_iff_toNat_lt]

theorem ranksFirst_trans {side : Side} {a b c : UInt64} (ab : priceRanksFirst side a b = true)
    (bc : priceRanksFirst side b c = true) : priceRanksFirst side a c = true := by
  cases side <;> simp only [ranksFirst_iff] at ab bc ⊢ <;> omega
theorem ranksFirst_irrefl (side : Side) (a : UInt64) : ¬ priceRanksFirst side a a = true := by
  cases side <;> simp [priceRanksFirst]
theorem ranksFirst_total {side : Side} {a b : UInt64} (other : a ≠ b) (not : ¬ priceRanksFirst side a b = true) :
    priceRanksFirst side b a = true := by
  have different : a.toNat ≠ b.toNat := fun same => other (UInt64.toNat_inj.mp same)
  cases side <;> simp only [ranksFirst_iff] at not ⊢ <;> omega
theorem ranksFirst_asymm {side : Side} {a b : UInt64} (ab : priceRanksFirst side a b = true) :
    ¬ priceRanksFirst side b a = true := fun ba => ranksFirst_irrefl side a (ranksFirst_trans ab ba)

/-- The first order is matched strictly before the second: a better price, or the
    same price and higher priority in its level. -/
def Outranks (side : Side) (a b : Entry) : Prop :=
  priceRanksFirst side a.priceTicks b.priceTicks = true ∨ (a.priceTicks = b.priceTicks ∧ Before a b)

instance (side : Side) (a b : Entry) : Decidable (Outranks side a b) := inferInstanceAs (Decidable (_ ∨ _))

/-- The slots of a side's orders and the orders themselves, best first. -/
def queue (L : Layout) (side : Side) : List NodeIndex := (L side).flatMap Prod.snd
def walk (book : OrderBook maxOrders maxPriceLevels) (L : Layout) (side : Side) : List Entry :=
  (queue L side).map (entryAt book)

/-- Some level of the side has the price. -/
def HasLevel (book : OrderBook maxOrders maxPriceLevels) (L : Layout) (side : Side) (price : UInt64) : Prop :=
  ∃ e ∈ L side, priceAt book e.1 = price

/-- The pools refuse an order of this side and price. -/
def Refused (book : OrderBook maxOrders maxPriceLevels) (L : Layout) (side : Side) (price : UInt64) : Prop :=
  (orderSlots L).length = maxOrders.size ∨
    (¬ HasLevel book L side price ∧ (levelSlots L).length = maxPriceLevels.size)

/-! ### Levels of a price -/

section
variable {book : OrderBook maxOrders maxPriceLevels} {L : Layout}

theorem side_length_le (owns : Owns book.levels (levelSlots L)) (s : Side) : (L s).length ≤ maxPriceLevels.size := by
  have sub := owns.perm (levelSlots_perm L s)
  have bound := sub.length_le
  simp only [List.length_append,List.length_map] at bound
  omega

theorem level_length_le (owns : Owns book.orders (orderSlots L)) {s : Side} {e : NodeIndex × List NodeIndex}
    (m : e ∈ L s) : e.2.length ≤ maxOrders.size := by
  have sub := (owns.perm (orderSlots_perm L s)).length_le
  have part := (List.sublist_flatten_of_mem (List.mem_map_of_mem (f := Prod.snd) m)).length_le
  rw [← List.flatMap_def] at part
  simp only [List.length_append] at sub
  omega

/-- Finding the level that an order stands in. -/
theorem locateLevel_found (shaped : Shaped book L) (owns : Owns book.levels (levelSlots L)) {s : Side}
    {e : NodeIndex × List NodeIndex} (m : e ∈ L s) : book.locateLevel s (priceAt book e.1) = some e.1 := by
  obtain ⟨ls,rs,split⟩ := List.append_of_mem m
  have ok := shaped.sides s
  have bound := side_length_le owns s
  rw [OrderBook.locateLevel,ok.head,show (fun level => (book.levelAt level).nextLevel) = nextLevelOf book from rfl,
    scan_forward _ ok.linked.segment ok.linked.noNil (by simp; omega)]
  have ranked := ok.ranked
  rw [split,List.map_append,List.map_cons] at ranked ⊢
  have ahead := (List.pairwise_append.mp ranked).2.2
  have skipped : (ls.map Prod.fst).findSome? (fun level =>
      if (book.levelAt level).priceTicks = priceAt book e.1 then some level
      else if priceRanksFirst s (priceAt book e.1) (book.levelAt level).priceTicks = true then some kNullNode
      else none) = none := by
    rw [List.findSome?_eq_none_iff]
    intro level inL
    have first := ahead level inL e.1 List.mem_cons_self
    rw [if_neg,if_neg]
    · exact ranksFirst_asymm first
    · intro same
      rw [priceAt,same] at first
      exact ranksFirst_irrefl s _ first
  rw [List.findSome?_append,skipped]
  simp [priceAt]

/-- The walk for a price stops at the level of the price, or between the levels
    that rank before it and those that it ranks before. -/
theorem seek_price (shaped : Shaped book L) (owns : Owns book.levels (levelSlots L)) (s : Side) (price : UInt64) :
    ∃ ls rs, L s = ls ++ rs ∧ (∀ e ∈ ls, priceRanksFirst s (priceAt book e.1) price = true) ∧
      seek (fun level => (book.levelAt level).nextLevel) kNullNode
        (fun level => decide ((book.levelAt level).priceTicks = price) ||
          priceRanksFirst s price (book.levelAt level).priceTicks)
        (maxPriceLevels.size + 1) kNullNode (book.sideHead s) =
          some (back kNullNode (ls.map Prod.fst),front kNullNode (rs.map Prod.fst)) ∧
      ((∃ e rest, rs = e :: rest ∧ priceAt book e.1 = price ∧
          ∀ f ∈ rest, priceRanksFirst s price (priceAt book f.1) = true) ∨
        (∀ e ∈ rs, priceRanksFirst s price (priceAt book e.1) = true)) := by
  have ok := shaped.sides s
  have bound := side_length_le owns s
  have ranked : (L s).Pairwise (fun a b => priceRanksFirst s (priceAt book a.1) (priceAt book b.1) = true) :=
    List.pairwise_map.mp ok.ranked
  obtain ⟨stop,stop_def⟩ : ∃ stop : NodeIndex → Bool, stop = fun level =>
    decide ((book.levelAt level).priceTicks = price) || priceRanksFirst s price (book.levelAt level).priceTicks := ⟨_,rfl⟩
  refine ⟨(L s).takeWhile (fun e => !stop e.1),(L s).dropWhile (fun e => !stop e.1),
    (List.takeWhile_append_dropWhile).symm,?_,?_,?_⟩
  · intro e m
    have passed := List.mem_takeWhile_imp m
    simp only [stop_def,Bool.not_or,Bool.and_eq_true,Bool.not_eq_true',decide_eq_false_iff_not] at passed
    exact ranksFirst_total (Ne.symm passed.1) (by simpa [priceAt] using passed.2)
  · rw [← stop_def,ok.head,show (fun level => (book.levelAt level).nextLevel) = nextLevelOf book from rfl,
      seek_forward stop ok.linked.segment ok.linked.noNil (by simp; omega),List.takeWhile_map,List.dropWhile_map]
    rfl
  · cases rest : (L s).dropWhile (fun e => !stop e.1) with
    | nil => exact .inr (by simp)
    | cons e rs =>
      have stopped : stop e.1 = true := by
        have head := List.head_dropWhile_not (fun e : NodeIndex × List NodeIndex => !stop e.1) (l := L s)
          (by rw [rest]; simp)
        simpa [rest] using head
      have suffix := ranked.sublist (List.dropWhile_sublist (fun e => !stop e.1))
      rw [rest,List.pairwise_cons] at suffix
      simp only [stop_def,Bool.or_eq_true,decide_eq_true_eq] at stopped
      rcases stopped with same | first
      · exact .inl ⟨e,rs,rfl,same,fun f m => by have := suffix.1 f m; rwa [priceAt,same] at this⟩
      · refine .inr ?_
        intro f m
        rcases List.mem_cons.mp m with rfl | inside
        · exact first
        · exact ranksFirst_trans first (suffix.1 f inside)

/-- The level of a price, found or made: a book with the same orders in which it
    stands between better and worse prices. -/
theorem findOrCreateLevel_spec (shaped : Shaped book L) (owns : Owns book.levels (levelSlots L)) (s : Side)
    (price : UInt64) (room : HasLevel book L s price ∨ (levelSlots L).length < maxPriceLevels.size) :
    ∃ book' level ls nodes rs, findOrCreateLevel book s price = some (level,book') ∧ level ≠ kNullNode ∧
      Shaped book' (Function.update L s (ls ++ (level,nodes) :: rs)) ∧
      Owns book'.levels (levelSlots (Function.update L s (ls ++ (level,nodes) :: rs))) ∧
      book'.orders = book.orders ∧ priceAt book' level = price ∧
      (∀ e ∈ ls, e ∈ L s ∧ priceRanksFirst s (priceAt book e.1) price = true) ∧
      (∀ e ∈ rs, e ∈ L s ∧ priceRanksFirst s price (priceAt book e.1) = true) ∧
      (L s = ls ++ (level,nodes) :: rs ∨ (nodes = [] ∧ L s = ls ++ rs)) := by
  obtain ⟨ls,rs,split,better,walked,stopped⟩ := seek_price shaped owns s price
  rcases stopped with ⟨e,rest,rfl,same,worse⟩ | worse
  · have inside : e ∈ L s := by rw [split]; simp
    have proper : e.1 ≠ kNullNode := owns.ne_null (mem_levelSlots inside)
    have unchanged : Function.update L s (ls ++ e :: rest) = L := by rw [← split,Function.update_eq_self]
    refine ⟨book,e.1,ls,e.2,rest,?_,proper,by rwa [unchanged],by rwa [unchanged],rfl,same,?_,?_,.inl split⟩
    · rw [OrderBook.findOrCreateLevel,walked]
      have here : (book.levelAt e.1).priceTicks = price := same
      simp [proper,here]
    · exact fun f m => ⟨by rw [split]; exact List.mem_append_left _ m,better f m⟩
    · exact fun f m => ⟨by rw [split]; exact List.mem_append_right _ (List.mem_cons_of_mem _ m),worse f m⟩
  · have missing : ¬ HasLevel book L s price := by
      rintro ⟨e,m,same⟩
      rw [split] at m
      rcases List.mem_append.mp m with inL | inR
      · have := better e inL; rw [same] at this; exact ranksFirst_irrefl s _ this
      · have := worse e inR; rw [same] at this; exact ranksFirst_irrefl s _ this
    have free : (levelSlots L).length < maxPriceLevels.size := room.resolve_left missing
    obtain ⟨node,levels,acquired,fresh,proper,held,slots⟩ := owns.acquire free
    have notFull : book.levels.full = false := by
      rw [Bool.eq_false_iff,ne_eq,owns.full_iff]; omega
    have stop : ¬ (front kNullNode (rs.map Prod.fst) ≠ kNullNode ∧
        (book.levelAt (front kNullNode (rs.map Prod.fst))).priceTicks = price) := by
      rintro ⟨real,same⟩
      cases rs with
      | nil => exact real rfl
      | cons f rest =>
        have := worse f List.mem_cons_self
        rw [show priceAt book f.1 = price from same] at this
        exact ranksFirst_irrefl s _ this
    have shaped' : Shaped { book with levels := levels } L := by
      refine shaped.congr (sideHead_with book levels) ?_ (fun n _ => rfl)
      intro l; simp only [OrderBook.levelAt,slots]
    have prices : ∀ l, priceAt { book with levels := levels } l = priceAt book l := by
      intro l; simp only [priceAt,OrderBook.levelAt,slots]
    have nodeOut : node ∉ (L s).map Prod.fst := fun m => fresh (mem_levelSlots_of_map m)
    rw [split,List.map_append,List.mem_append,not_or] at nodeOut
    refine ⟨linkLevel { book with levels := levels } s price (back kNullNode (ls.map Prod.fst))
        (front kNullNode (rs.map Prod.fst)) node,node,ls,[],rs,?_,proper,?_,?_,?_,?_,?_,?_,.inr ⟨rfl,split⟩⟩
    · rw [OrderBook.findOrCreateLevel,walked]
      simp only [Option.bind_eq_bind,Option.bind_some,if_neg stop,notFull,acquired]
      rfl
    · exact shaped'.linkLevel split fresh proper (fun e m => by rw [prices]; exact better e m)
        (fun e m => by rw [prices]; exact worse e m)
    · refine (linkLevel_pool _ s price _ _ node held).perm (levelSlots_insert L split node []).symm
    · exact linkLevel_orders _ s price _ _ node
    · rw [priceAt,linkLevel_levelAt _ s price _ _ node (ne_back_of_not_mem nodeOut.1 proper)
        (ne_front_of_not_mem nodeOut.2 proper)]
      simp
    · exact fun f m => ⟨by rw [split]; exact List.mem_append_left _ m,better f m⟩
    · exact fun f m => ⟨by rw [split]; exact List.mem_append_right _ m,worse f m⟩

/-- No level of the price and no slot for one. -/
theorem findOrCreateLevel_refused (shaped : Shaped book L) (owns : Owns book.levels (levelSlots L)) (s : Side)
    (price : UInt64) (missing : ¬ HasLevel book L s price) (full : (levelSlots L).length = maxPriceLevels.size) :
    findOrCreateLevel book s price = some (kNullNode,book) := by
  obtain ⟨ls,rs,split,better,walked,stopped⟩ := seek_price shaped owns s price
  have absent : ∀ e ∈ rs, priceAt book e.1 ≠ price :=
    fun e m same => missing ⟨e,by rw [split]; exact List.mem_append_right _ m,same⟩
  have stop : ¬ (front kNullNode (rs.map Prod.fst) ≠ kNullNode ∧
      (book.levelAt (front kNullNode (rs.map Prod.fst))).priceTicks = price) := by
    rintro ⟨real,same⟩
    cases rs with
    | nil => exact real rfl
    | cons f rest => exact absent f List.mem_cons_self same
  rw [OrderBook.findOrCreateLevel,walked]
  simp only [Option.bind_eq_bind,Option.bind_some,if_neg stop,owns.full_iff.mpr full]
  rfl
end

/-- One side's levels replaced by others with orders in them. -/
theorem nonempty_update {L : Layout} (nonempty : ∀ s, ∀ e ∈ L s, e.2 ≠ []) (side : Side)
    {es : List (NodeIndex × List NodeIndex)} (some : ∀ e ∈ es, e.2 ≠ []) :
    ∀ s, ∀ e ∈ Function.update L side es s, e.2 ≠ [] := by
  intro s e m
  by_cases same : s = side
  · rw [same,Function.update_self] at m
    exact some e m
  · rw [Function.update_of_ne same] at m
    exact nonempty s e m

/-! ### Insertion -/

theorem findSome_unless {α : Type} (p : α → Bool) (l : List α) :
    l.findSome? (fun a => if p a then none else some a) = (l.dropWhile p).head? := by
  induction l with
  | nil => rfl
  | cons a rest ih =>
    by_cases passed : p a = true
    · simp [passed,ih]
    · simp [passed]

theorem head_getD {nil : NodeIndex} (l : List NodeIndex) : l.head?.getD nil = front nil l := by cases l <;> rfl

/-- An order that has priority over another also has it over those behind it. -/
theorem Before.of_not {a b c : Entry} (first : Before a b) (order : ¬ Before c b) : Before a c := by
  rw [before_iff] at *
  omega

theorem Before.asymm {a b : Entry} (first : Before a b) : ¬ Before b a := by
  rw [before_iff] at *
  omega

section
variable {book : OrderBook maxOrders maxPriceLevels} {L : Layout}

/-- The place behind which an order goes: all up to it rank before or equal to
    the order, which ranks before all that follow. -/
theorem insertIntoLevel_spec (node : NodeIndex) {s : Side} {level : NodeIndex} {nodes : List NodeIndex}
    (ok : LevelOk book s level nodes) (bound : nodes.length ≤ maxOrders.size) :
    ∃ xs ys, nodes = xs ++ ys ∧ (∀ n ∈ xs, ¬ Before (entryAt book node) (entryAt book n)) ∧
      (∀ n ∈ ys, Before (entryAt book node) (entryAt book n)) ∧
      insertIntoLevel book level node = some (linkOrder book level node (back kNullNode xs)) := by
  obtain ⟨p,p_def⟩ : ∃ p : NodeIndex → Bool, p = fun n =>
    hasPriorityOver (book.orderAt node).seq (book.orderAt node).orderId (book.orderAt n).seq (book.orderAt n).orderId :=
    ⟨_,rfl⟩
  have passes : ∀ n, p n = true ↔ Before (entryAt book node) (entryAt book n) := by
    intro n; rw [p_def]; rfl
  have split : nodes = nodes.rdropWhile p ++ nodes.rtakeWhile p := List.rdropWhile_append_rtakeWhile.symm
  refine ⟨nodes.rdropWhile p,nodes.rtakeWhile p,split,?_,?_,?_⟩
  · intro n m first
    have some : nodes.rdropWhile p ≠ [] := List.ne_nil_of_mem m
    have last := List.rdropWhile_last_not p nodes some
    have sorted := ok.sorted
    rw [split,List.pairwise_append] at sorted
    -- the last order of the prefix stops the walk, and none in the prefix ranks behind it
    rw [passes] at last
    rw [← List.dropLast_append_getLast some,List.mem_append,List.mem_singleton] at m
    rcases m with inside | same
    · have order := sorted.1
      rw [← List.dropLast_append_getLast some,List.pairwise_append] at order
      exact last (first.of_not (order.2.2 n inside _ (List.mem_singleton_self _)))
    · rw [same] at first; exact last first
  · intro n m
    rw [List.rtakeWhile,List.mem_reverse] at m
    exact (passes n).mp (List.mem_takeWhile_imp m)
  · have visited : nodes.reverse.findSome? (fun cur => if p cur then none else some cur) =
        (nodes.reverse.dropWhile p).head? := findSome_unless p nodes.reverse
    rw [p_def] at visited
    rw [insertIntoLevel,ok.tail,show (fun cur => (book.orderAt cur).prev) = prevOf book from rfl,
      scan_backward _ ok.linked.segment ok.linked.noNil (by omega),visited,← p_def]
    simp only [Option.bind_eq_bind,Option.bind_some,Option.pure_def,head_getD,List.rdropWhile,back_reverse]
end

/-- An order has come to rest in a book: in its own slot, with nothing else moved. -/
structure Placed (book : OrderBook maxOrders maxPriceLevels) (L : Layout) (new : Entry)
    (book' : OrderBook maxOrders maxPriceLevels) (L' : Layout) (node : NodeIndex) : Prop where
  kept : Kept book' L'
  fresh : node ∉ orderSlots L
  entry : entryAt book' node = new
  others : ∀ n, n ≠ node → entryAt book' n = entryAt book n
  far : L' (opposite new.side) = L (opposite new.side)
  place : ∃ xs ys, queue L new.side = xs ++ ys ∧ queue L' new.side = xs ++ node :: ys ∧
    (∀ n ∈ xs, ¬ Outranks new.side new (entryAt book n)) ∧ (∀ n ∈ ys, Outranks new.side new (entryAt book n))

theorem insertOrder_refused {book : OrderBook maxOrders maxPriceLevels} {L : Layout} (kept : Kept book L)
    (orderId : UInt64) (side : Side) (price seq : UInt64) (qty : UInt32) (refused : Refused book L side price) :
    insertOrder book orderId side price seq qty = some (false,book) := by
  by_cases full : book.orders.full = true
  · simp [insertOrder,full]
  · rcases refused with orders | ⟨missing,levels⟩
    · exact absurd (kept.orderPool.full_iff.mpr orders) full
    · simp [insertOrder,full,findOrCreateLevel_refused kept.shaped kept.levelPool side price missing levels]

/-- Where an order goes in its level is where it goes in its side. -/
theorem rank_in_side {book : OrderBook maxOrders maxPriceLevels} {L : Layout} (kept : Kept book L) {new : Entry}
    {ls rs : List (NodeIndex × List NodeIndex)} {xs ys : List NodeIndex}
    (better : ∀ e ∈ ls, e ∈ L new.side ∧ priceRanksFirst new.side (priceAt book e.1) new.priceTicks = true)
    (worse : ∀ e ∈ rs, e ∈ L new.side ∧ priceRanksFirst new.side new.priceTicks (priceAt book e.1) = true)
    (price : ∀ n ∈ xs ++ ys, (entryAt book n).priceTicks = new.priceTicks)
    (ahead : ∀ n ∈ xs, ¬ Before new (entryAt book n)) (behind : ∀ n ∈ ys, Before new (entryAt book n)) :
    (∀ n ∈ ls.flatMap Prod.snd ++ xs, ¬ Outranks new.side new (entryAt book n)) ∧
      ∀ n ∈ ys ++ rs.flatMap Prod.snd, Outranks new.side new (entryAt book n) := by
  constructor
  · intro n m
    rw [List.mem_append,List.mem_flatMap] at m
    rcases m with ⟨e,inL,inside⟩ | inX
    · obtain ⟨old,first⟩ := better e inL
      rw [← ((kept.shaped.level new.side e old).member n inside).1] at first
      rintro (second | ⟨same,_⟩)
      · exact ranksFirst_asymm first second
      · rw [same] at first
        exact ranksFirst_irrefl _ _ first
    · rintro (second | ⟨_,second⟩)
      · rw [price n (List.mem_append_left _ inX)] at second
        exact ranksFirst_irrefl _ _ second
      · exact ahead n inX second
  · intro n m
    rw [List.mem_append,List.mem_flatMap] at m
    rcases m with inY | ⟨e,inR,inside⟩
    · exact .inr ⟨(price n (List.mem_append_right _ inY)).symm,behind n inY⟩
    · obtain ⟨old,first⟩ := worse e inR
      rw [← ((kept.shaped.level new.side e old).member n inside).1] at first
      exact .inl first

/-- A slot outside the layout is filled: nothing that the book links sees it. -/
theorem Shaped.fillSlot {book : OrderBook maxOrders maxPriceLevels} {L : Layout} (shaped : Shaped book L)
    {orders : FreeListPool RestingOrder maxOrders} (contents : orders.slots = book.orders.slots) {node : NodeIndex}
    (fresh : node ∉ orderSlots L) (filled : RestingOrder) :
    Shaped { book with orders := orders.modify node (fun _ => filled) } L ∧
      ∀ n, entryAt { book with orders := orders.modify node (fun _ => filled) } n =
        if n = node then entryOf filled else entryAt book n := by
  have orderAt : ∀ n, ({ book with orders := orders.modify node (fun _ => filled) } : OrderBook _ _).orderAt n =
      if n = node then filled else book.orderAt n := by
    intro n
    rw [OrderBook.orderAt,modify_slots,contents]
    rfl
  constructor
  · refine shaped.congr (fun s => by cases s <;> rfl) (fun l => rfl) ?_
    intro n m
    have other : n ≠ node := by rintro rfl; exact fresh m
    rw [orderAt,if_neg other]
  · intro n
    rw [entryAt,orderAt]
    split_ifs with same
    · rfl
    · rfl

section
variable {book : OrderBook maxOrders maxPriceLevels} {L : Layout}

/-- An order in a slot of its own is linked into its level, behind those that rank
    before or equal to it. -/
theorem insertIntoLevel_linked (shaped : Shaped book L) {side : Side} {level : NodeIndex} {nodes : List NodeIndex}
    {ls rs : List (NodeIndex × List NodeIndex)} (split : L side = ls ++ (level,nodes) :: rs) {node : NodeIndex}
    (proper : node ≠ kNullNode) (orderPool : Owns book.orders (node :: orderSlots L)) (levelPool : Owns book.levels (levelSlots L))
    (price : (entryAt book node).priceTicks = priceAt book level) (onSide : (entryAt book node).side = side) :
    ∃ xs ys book', nodes = xs ++ ys ∧ insertIntoLevel book level node = some book' ∧
      (∀ n ∈ xs, ¬ Before (entryAt book node) (entryAt book n)) ∧
      (∀ n ∈ ys, Before (entryAt book node) (entryAt book n)) ∧
      Shaped book' (Function.update L side (ls ++ (level,xs ++ node :: ys) :: rs)) ∧
      Owns book'.levels (levelSlots (Function.update L side (ls ++ (level,xs ++ node :: ys) :: rs))) ∧
      Owns book'.orders (orderSlots (Function.update L side (ls ++ (level,xs ++ node :: ys) :: rs))) ∧
      ∀ n, entryAt book' n = entryAt book n := by
  have here : (level,nodes) ∈ L side := by rw [split]; simp
  have ok := shaped.level side _ here
  have fresh : node ∉ orderSlots L := (List.nodup_cons.mp orderPool.nodup).1
  have short : nodes.length ≤ maxOrders.size := by
    have bound := orderPool.length_le
    have all := (orderSlots_perm L side).length_eq
    rw [split] at all
    simp only [List.flatMap_append,List.flatMap_cons,List.length_append,List.length_cons] at all bound
    omega
  obtain ⟨xs,ys,rfl,ahead,behind,inserted⟩ := insertIntoLevel_spec node ok short
  have nodeCur : node ≠ back kNullNode xs := ne_back_of_not_mem
    (fun m => fresh (mem_orderSlots here (List.mem_append_left _ m))) proper
  have nodeNext : node ≠ successor book level (back kNullNode xs) := by
    rw [successor_eq ok]
    exact ne_front_of_not_mem (fun m => fresh (mem_orderSlots here (List.mem_append_right _ m))) proper
  obtain ⟨orderPool',levelPool'⟩ := linkOrder_pools book level node (back kNullNode xs) orderPool levelPool
  refine ⟨xs,ys,_,rfl,inserted,ahead,behind,?_,?_,?_,entryAt_linkOrder book level nodeCur nodeNext⟩
  · exact shaped.linkOrder split fresh proper price onSide ahead (fun n m clash => clash.asymm (behind n m))
  · rw [levelSlots_replace L split]
    exact levelPool'
  · exact orderPool'.perm (orderSlots_link L split node).symm
end

theorem insertOrder_placed {book : OrderBook maxOrders maxPriceLevels} {L : Layout} (kept : Kept book L)
    (new : Entry) (room : ¬ Refused book L new.side new.priceTicks) :
    ∃ book' L' node, insertOrder book new.orderId new.side new.priceTicks new.seq new.remainingQty = some (true,book') ∧
      Placed book L new book' L' node := by
  simp only [Refused,not_or,not_and_or,not_not] at room
  have freeOrder : (orderSlots L).length < maxOrders.size := Nat.lt_of_le_of_ne kept.orderPool.length_le room.1
  have freeLevel : HasLevel book L new.side new.priceTicks ∨ (levelSlots L).length < maxPriceLevels.size :=
    room.2.imp_right (fun different => Nat.lt_of_le_of_ne kept.levelPool.length_le different)
  obtain ⟨book₁,level,ls,nodes,rs,found,proper,shaped₁,levels₁,orders₁,price₁,better,worse,split⟩ :=
    findOrCreateLevel_spec kept.shaped kept.levelPool new.side new.priceTicks freeLevel
  obtain ⟨L₁,L₁_def⟩ : ∃ L₁ : Layout, L₁ = Function.update L new.side (ls ++ (level,nodes) :: rs) := ⟨_,rfl⟩
  rw [← L₁_def] at shaped₁ levels₁
  have queueOld : queue L new.side = ls.flatMap Prod.snd ++ (nodes ++ rs.flatMap Prod.snd) := by
    rcases split with split | ⟨rfl,split⟩
    · rw [queue,split,List.flatMap_append,List.flatMap_cons]
    · rw [queue,split,List.flatMap_append,List.nil_append]
  have slots₁ : (orderSlots L₁).Perm (orderSlots L) := by
    rw [L₁_def]
    rcases split with split | ⟨rfl,split⟩
    · rw [← split,Function.update_eq_self]
    · exact orderSlots_insert L split level []
  -- The order goes into a free slot, which no list reaches yet.
  obtain ⟨node,orders,acquired,fresh,nodeProper,held,contents⟩ := kept.orderPool.acquire freeOrder
  obtain ⟨filled,filled_def⟩ : ∃ filled : RestingOrder, filled =
    { orderId := new.orderId, seq := new.seq, priceTicks := new.priceTicks, remainingQty := new.remainingQty,
      side := new.side, next := kNullNode, prev := kNullNode } := ⟨_,rfl⟩
  obtain ⟨shaped₂,entries₂⟩ := shaped₁.fillSlot (contents.trans (congrArg _ orders₁.symm))
    (fun m => fresh (slots₁.mem_iff.mp m)) filled
  obtain ⟨book₂,book₂_def⟩ : ∃ book₂ : OrderBook maxOrders maxPriceLevels,
    book₂ = { book₁ with orders := orders.modify node (fun _ => filled) } := ⟨_,rfl⟩
  rw [← book₂_def] at shaped₂ entries₂
  have entry₂ : entryAt book₂ node = new := by rw [entries₂,if_pos rfl,filled_def]; rfl
  have others₂ : ∀ n, n ≠ node → entryAt book₂ n = entryAt book n := by
    intro n other
    rw [entries₂,if_neg other,entryAt,entryAt,OrderBook.orderAt,OrderBook.orderAt,orders₁]
  have price₂ : priceAt book₂ level = new.priceTicks := by rw [book₂_def]; exact price₁
  have orderPool₂ : Owns book₂.orders (node :: orderSlots L₁) := by
    rw [book₂_def]
    exact (held.perm (slots₁.symm.cons node)).congr rfl rfl rfl
  have levelPool₂ : Owns book₂.levels (levelSlots L₁) := by rw [book₂_def]; exact levels₁
  have split₁ : L₁ new.side = ls ++ (level,nodes) :: rs := by rw [L₁_def,Function.update_self]
  obtain ⟨xs,ys,book₃,rfl,inserted,ahead,behind,shaped₃,levelPool₃,orderPool₃,entries₃⟩ :=
    insertIntoLevel_linked shaped₂ split₁ nodeProper orderPool₂ levelPool₂ (by rw [entry₂,price₂]) (by rw [entry₂])
  rw [L₁_def,Function.update_idem] at shaped₃ levelPool₃ orderPool₃
  have here : (level,xs ++ ys) ∈ L₁ new.side := by rw [split₁]; simp
  have inQueue : ∀ n ∈ xs ++ ys, entryAt book₂ n = entryAt book n ∧ (entryAt book n).priceTicks = new.priceTicks := by
    intro n m
    have other : n ≠ node := fun same => fresh (slots₁.mem_iff.mp (same ▸ mem_orderSlots here m))
    rw [← others₂ n other,((shaped₂.level new.side _ here).member n m).1,price₂]
    exact ⟨rfl,rfl⟩
  refine ⟨book₃,Function.update L new.side (ls ++ (level,xs ++ node :: ys) :: rs),node,?_,?_⟩
  · have notFull : book.orders.full = false := by
      rw [Bool.eq_false_iff,ne_eq,kept.orderPool.full_iff]; omega
    have acquired₁ : book₁.orders.acquire = (node,orders) := by rw [orders₁]; exact acquired
    rw [filled_def] at book₂_def
    simp only [insertOrder,notFull,found,acquired₁,Bool.false_eq_true,if_false,Option.bind_eq_bind,Option.bind_some,
      if_neg proper,← book₂_def,inserted]
    rfl
  · refine ⟨⟨shaped₃,levelPool₃,orderPool₃,?_⟩,fresh,?_,?_,?_,?_⟩
    · refine nonempty_update kept.nonempty _ ?_
      intro e m
      rw [List.mem_append,List.mem_cons] at m
      rcases m with inL | rfl | inR
      · exact kept.nonempty new.side e (better e inL).1
      · simp
      · exact kept.nonempty new.side e (worse e inR).1
    · rw [entries₃,entry₂]
    · intro n other; rw [entries₃,others₂ n other]
    · exact Function.update_of_ne (opposite_ne new.side) _ L
    · refine ⟨ls.flatMap Prod.snd ++ xs,ys ++ rs.flatMap Prod.snd,by rw [queueOld]; simp,by simp [queue],
        rank_in_side kept better worse (fun n m => (inQueue n m).2) ?_ ?_⟩
      · intro n m
        rw [← entry₂,← (inQueue n (List.mem_append_left _ m)).1]
        exact ahead n m
      · intro n m
        rw [← entry₂,← (inQueue n (List.mem_append_right _ m)).1]
        exact behind n m

/-! ### Removal -/

/-- A slot has left a book, with nothing else moved. -/
structure Taken (book : OrderBook maxOrders maxPriceLevels) (L : Layout) (side : Side) (node : NodeIndex)
    (book' : OrderBook maxOrders maxPriceLevels) (L' : Layout) : Prop where
  kept : Kept book' L'
  entries : ∀ n, entryAt book' n = entryAt book n
  far : L' (opposite side) = L (opposite side)
  place : ∃ xs ys, queue L side = xs ++ node :: ys ∧ queue L' side = xs ++ ys

/-- The count of a level is zero only when its queue is empty. -/
theorem count_eq_zero {nodes : List NodeIndex} (short : nodes.length ≤ maxOrders.size) :
    UInt32.ofNat nodes.length = 0 ↔ nodes = [] := by
  have bound : nodes.length < UInt32.size := by
    have limit := maxOrders.addressable
    simp only [kNullNode] at limit
    simp only [UInt32.size]
    omega
  constructor
  · intro zero
    have value := congrArg UInt32.toNat zero
    rw [UInt32.toNat_ofNat_of_lt' bound] at value
    exact List.eq_nil_of_length_eq_zero value
  · rintro rfl; rfl

section
variable {book : OrderBook maxOrders maxPriceLevels} {L : Layout} {side : Side} {level node : NodeIndex}
  {ls rs : List (NodeIndex × List NodeIndex)} {xs ys : List NodeIndex}

/-- An order is taken from its level and its slot given back. -/
theorem unlinkFromLevel_released (kept : Kept book L) (split : L side = ls ++ (level,xs ++ node :: ys) :: rs)
    {book' : OrderBook maxOrders maxPriceLevels}
    (released : book' =
      { unlinkFromLevel book level node with orders := (unlinkFromLevel book level node).orders.release node }) :
    Shaped book' (Function.update L side (ls ++ (level,xs ++ ys) :: rs)) ∧
      Owns book'.levels (levelSlots (Function.update L side (ls ++ (level,xs ++ ys) :: rs))) ∧
      Owns book'.orders (orderSlots (Function.update L side (ls ++ (level,xs ++ ys) :: rs))) ∧
      ∀ n, entryAt book' n = entryAt book n := by
  have shaped := kept.shaped.unlinkFromLevel split
  obtain ⟨orderPool,levelPool⟩ := unlinkFromLevel_pools book level node kept.orderPool kept.levelPool
  have larger : Function.update (Function.update L side (ls ++ (level,xs ++ ys) :: rs)) side
      (ls ++ (level,xs ++ node :: ys) :: rs) = L := by
    rw [Function.update_idem,← split,Function.update_eq_self]
  have slots := orderSlots_link (Function.update L side (ls ++ (level,xs ++ ys) :: rs))
    (Function.update_self side _ L) node
  rw [larger] at slots
  refine ⟨?_,?_,?_,?_⟩
  · rw [released]
    exact shaped.congr (fun s => by cases s <;> rfl) (fun l => rfl) (fun n _ => rfl)
  · rw [levelSlots_replace L split,released]
    exact levelPool
  · rw [released]
    exact (orderPool.perm slots).release
  · intro n
    rw [released]
    exact entryAt_unlinkFromLevel book level node n

/-- A level without orders is taken from its side and its slot given back. -/
theorem removeLevel_kept (shaped : Shaped book L) (levelPool : Owns book.levels (levelSlots L))
    (orderPool : Owns book.orders (orderSlots L)) (split : L side = ls ++ (level,[]) :: rs)
    (nonempty : ∀ s, ∀ e ∈ Function.update L side (ls ++ rs) s, e.2 ≠ []) :
    Kept (removeLevel book side level) (Function.update L side (ls ++ rs)) ∧
      ∀ n, entryAt (removeLevel book side level) n = entryAt book n := by
  have larger : Function.update (Function.update L side (ls ++ rs)) side (ls ++ (level,[]) :: rs) = L := by
    rw [Function.update_idem,← split,Function.update_eq_self]
  have levelPerm := levelSlots_insert (Function.update L side (ls ++ rs)) (Function.update_self side _ L) level []
  have orderPerm := orderSlots_insert (Function.update L side (ls ++ rs)) (Function.update_self side _ L) level []
  rw [larger] at levelPerm orderPerm
  refine ⟨⟨shaped.removeLevel split,?_,?_,nonempty⟩,?_⟩
  · exact removeLevel_pool book side level (levelPool.perm levelPerm)
  · rw [removeLevel_orders]
    exact orderPool.perm orderPerm
  · intro n
    rw [entryAt,entryAt,OrderBook.orderAt,OrderBook.orderAt,removeLevel_orders]
end

theorem removeOrder_taken {book : OrderBook maxOrders maxPriceLevels} {L : Layout} (kept : Kept book L) {side : Side}
    {node : NodeIndex} (live : node ∈ queue L side) :
    ∃ book' L', removeOrder book node = some book' ∧ Taken book L side node book' L' := by
  obtain ⟨⟨level,nodes⟩,inside,inLevel⟩ := List.mem_flatMap.mp live
  obtain ⟨ls,rs,split⟩ := List.append_of_mem inside
  obtain ⟨xs,ys,rfl⟩ := List.append_of_mem inLevel
  obtain ⟨price,onSide⟩ := (kept.shaped.level side _ inside).member node inLevel
  have located : book.locateLevel (book.orderAt node).side (book.orderAt node).priceTicks = some level := by
    rw [show (book.orderAt node).side = side from onSide,
      show (book.orderAt node).priceTicks = priceAt book level from price]
    exact locateLevel_found kept.shaped kept.levelPool inside
  obtain ⟨book₂,released⟩ : ∃ book₂ : OrderBook maxOrders maxPriceLevels, book₂ =
    { unlinkFromLevel book level node with orders := (unlinkFromLevel book level node).orders.release node } := ⟨_,rfl⟩
  obtain ⟨shaped₂,levelPool₂,orderPool₂,entries₂⟩ := unlinkFromLevel_released kept split released
  have count₂ : (book₂.levelAt level).orderCount = 0 ↔ xs ++ ys = [] := by
    have bound := level_length_le kept.orderPool inside
    rw [(shaped₂.level side (level,xs ++ ys) (by simp)).count]
    refine count_eq_zero (?_ : (xs ++ ys).length ≤ maxOrders.size)
    simp only [List.length_append,List.length_cons] at bound ⊢
    omega
  have run : removeOrder book node =
      if (book₂.levelAt level).orderCount = 0 then some (removeLevel book₂ side level) else some book₂ := by
    have side₂ : (book₂.orderAt node).side = side := (congrArg Entry.side (entries₂ node)).trans onSide
    rw [removeOrder]
    simp only [located,Option.bind_eq_bind,Option.bind_some,← released,side₂]
    rfl
  have queueOld : queue L side = ls.flatMap Prod.snd ++ xs ++ node :: (ys ++ rs.flatMap Prod.snd) := by
    simp [queue,split]
  have nonempty₂ : ∀ e ∈ ls ++ rs, e.2 ≠ [] := by
    intro e m
    refine kept.nonempty side e ?_
    rw [split]
    rcases List.mem_append.mp m with inL | inR
    · exact List.mem_append_left _ inL
    · exact List.mem_append_right _ (List.mem_cons_of_mem _ inR)
  by_cases last : xs ++ ys = []
  · obtain ⟨rfl,rfl⟩ := List.append_eq_nil_iff.mp last
    have nonempty₃ := nonempty_update kept.nonempty side nonempty₂
    rw [← Function.update_idem] at nonempty₃
    obtain ⟨kept₃,entries₃⟩ := removeLevel_kept shaped₂ levelPool₂ orderPool₂ (Function.update_self side _ L) nonempty₃
    rw [Function.update_idem] at kept₃
    refine ⟨removeLevel book₂ side level,Function.update L side (ls ++ rs),?_,kept₃,?_,?_,?_⟩
    · rw [run,if_pos (count₂.mpr last)]
    · intro n
      rw [entries₃,entries₂]
    · exact Function.update_of_ne (opposite_ne side) _ L
    · exact ⟨_,_,queueOld,by simp [queue]⟩
  · refine ⟨book₂,_,?_,⟨shaped₂,levelPool₂,orderPool₂,?_⟩,entries₂,?_,_,_,queueOld,by simp [queue]⟩
    · rw [run,if_neg (fun zero => last (count₂.mp zero))]
    · refine nonempty_update kept.nonempty _ ?_
      intro e m
      rw [List.mem_append,List.mem_cons] at m
      rcases m with inL | rfl | inR
      · exact nonempty₂ e (List.mem_append_left _ inL)
      · exact last
      · exact nonempty₂ e (List.mem_append_right _ inR)
    · exact Function.update_of_ne (opposite_ne side) _ L

/-! ### The other operations -/

theorem kept_clear (book : OrderBook maxOrders maxPriceLevels) : Kept book.clear (fun _ => []) := by
  refine ⟨⟨?_,?_,?_,?_⟩,owns_reset _,owns_reset _,?_⟩
  · intro s
    exact ⟨linked_nil _ _ _,by cases s <;> rfl,List.Pairwise.nil⟩
  · intro s e m; cases m
  · exact List.nodup_nil
  · exact List.nodup_nil
  · intro s e m; cases m

/-- A new book is a book of fresh pools that has been cleared. -/
theorem kept_new : Kept (OrderBook.new : OrderBook maxOrders maxPriceLevels) (fun _ => []) :=
  kept_clear ⟨⟨fun _ => {},fun _ => 0,kNullNode,0⟩,⟨fun _ => {},fun _ => 0,kNullNode,0⟩,kNullNode,kNullNode⟩

theorem setRemainingQty_orderAt (book : OrderBook maxOrders maxPriceLevels) (node : NodeIndex) (qty : UInt32)
    (n : NodeIndex) :
    (book.setRemainingQty node qty).orderAt n =
      { book.orderAt n with remainingQty := if n = node then qty else (book.orderAt n).remainingQty } := by
  rw [setRemainingQty,OrderBook.orderAt,modify_slots]
  split_ifs with same
  · rw [same]; rfl
  · rfl

/-- An assignment to a quantity moves nothing. -/
theorem Kept.setRemainingQty {book : OrderBook maxOrders maxPriceLevels} {L : Layout} (kept : Kept book L)
    (node : NodeIndex) (qty : UInt32) : Kept (book.setRemainingQty node qty) L := by
  have orders := setRemainingQty_orderAt book node qty
  refine ⟨⟨?_,?_,kept.shaped.levelsApart,kept.shaped.ordersApart⟩,kept.levelPool,kept.orderPool.congr rfl rfl rfl,
    kept.nonempty⟩
  · intro s
    exact (kept.shaped.sides s).congr (by cases s <;> rfl) (fun l _ => rfl) (fun l _ => rfl) (fun l _ => rfl)
  · intro s e m
    have ok := kept.shaped.level s e m
    refine ⟨ok.linked.congr (fun n _ => ?_) (fun n _ => ?_),ok.head,ok.tail,ok.count,?_,?_⟩
    · rw [nextOf,orders,nextOf]
    · rw [prevOf,orders,prevOf]
    · intro n inside
      rw [entryAt,orders]
      exact ok.member n inside
    · refine ok.sorted.imp ?_
      intro a b
      simp only [entryAt,orders]
      exact id

/-! ### Search -/

section
variable {book : OrderBook maxOrders maxPriceLevels} {L : Layout}

theorem findInLevel_eq (orderId : UInt64) {s : Side} {level : NodeIndex} {nodes : List NodeIndex}
    (ok : LevelOk book s level nodes) (bound : nodes.length ≤ maxOrders.size) :
    findInLevel book level orderId =
      some ((nodes.find? (fun n => decide ((entryAt book n).orderId = orderId))).getD kNullNode) := by
  have guarded : nodes.findSome? (fun node => if (book.orderAt node).orderId = orderId then some node else none) =
      nodes.find? (fun n => decide ((entryAt book n).orderId = orderId)) := by
    rw [List.find?_eq_findSome?_guard]
    refine congrArg (fun visit => nodes.findSome? visit) (funext fun n => ?_)
    by_cases same : (book.orderAt n).orderId = orderId
    · simp [Option.guard,entryAt,entryOf,same]
    · simp [Option.guard,entryAt,entryOf,same]
  rw [findInLevel,ok.head,show (fun node => (book.orderAt node).next) = nextOf book from rfl,
    scan_forward _ ok.linked.segment ok.linked.noNil (by omega),guarded]
  rfl

/-- A search level by level is a search through the joined queues. -/
theorem findSome_levels (wanted : NodeIndex → Bool) {visit : NodeIndex → Option (Option NodeIndex)}
    (es : List (NodeIndex × List NodeIndex)) (same : ∀ e ∈ es, visit e.1 = (e.2.find? wanted).map some) :
    (es.map Prod.fst).findSome? visit = ((es.flatMap Prod.snd).find? wanted).map some := by
  induction es with
  | nil => rfl
  | cons e rest ih =>
    rw [List.map_cons,List.findSome?_cons,same e List.mem_cons_self,
      ih (fun f m => same f (List.mem_cons_of_mem _ m)),List.flatMap_cons,List.find?_append]
    cases e.2.find? wanted <;> rfl

/-- The first order of a side with the identifier. -/
theorem findOnSide_eq (kept : Kept book L) (orderId : UInt64) (s : Side) :
    findOnSide book (book.sideHead s) orderId =
      some ((queue L s).find? (fun n => decide ((entryAt book n).orderId = orderId))) := by
  obtain ⟨wanted,wanted_def⟩ : ∃ wanted : NodeIndex → Bool,
    wanted = fun n => decide ((entryAt book n).orderId = orderId) := ⟨_,rfl⟩
  have ok := kept.shaped.sides s
  have bound := side_length_le kept.levelPool s
  rw [findOnSide,ok.head,show (fun level => (book.levelAt level).nextLevel) = nextLevelOf book from rfl,
    scan_forward _ ok.linked.segment ok.linked.noNil (by simp; omega),findSome_levels wanted (L s) ?_,← wanted_def]
  · simp only [Option.bind_eq_bind,Option.bind_some,queue]
    cases ((L s).flatMap Prod.snd).find? wanted <;> rfl
  · intro e m
    rw [findInLevel_eq orderId (kept.shaped.level s e m) (level_length_le kept.orderPool m),← wanted_def]
    cases found : e.2.find? wanted with
    | none => simp
    | some node =>
      have proper : node ≠ kNullNode := kept.orderPool.ne_null (mem_orderSlots m (List.mem_of_find?_eq_some found))
      simp [proper]

/-- The search goes through the bids, then the asks. -/
theorem findOrder_eq (kept : Kept book L) (orderId : UInt64) :
    findOrder book orderId = some (((queue L .Buy ++ queue L .Sell).find?
      (fun n => decide ((entryAt book n).orderId = orderId))).getD kNullNode) := by
  have bids := findOnSide_eq kept orderId .Buy
  have asks := findOnSide_eq kept orderId .Sell
  simp only [OrderBook.sideHead] at bids asks
  rw [findOrder,bids,asks,List.find?_append]
  simp only [Option.bind_eq_bind,Option.bind_some]
  cases (queue L .Buy).find? (fun n => decide ((entryAt book n).orderId = orderId)) with
  | some node => rfl
  | none =>
    cases (queue L .Sell).find? (fun n => decide ((entryAt book n).orderId = orderId)) <;> rfl
end

end HyperMatch.BookLayout
