import HyperMatch.BookLayout

/-!
The queue of a level: linking an order into it behind the orders that rank
before or equal to it, and unlinking an order from it. Both change only links;
what the orders are (`entryAt`) stays.
-/
namespace HyperMatch.BookLayout
open HyperMatch.Wire HyperMatch.Links HyperMatch.OrderBook HyperMatch.Pools
set_option linter.unusedSimpArgs false

variable {maxOrders maxPriceLevels : PoolCapacity}

section
variable (book : OrderBook maxOrders maxPriceLevels) (level node cur : NodeIndex)

/-- The order that a new order behind `cur` is linked before. -/
def successor : NodeIndex := if cur = kNullNode then (book.levelAt level).head else (book.orderAt cur).next

theorem linkOrder_orderAt (other : node ≠ cur) (other' : node ≠ successor book level cur) (n : NodeIndex) :
    (linkOrder book level node cur).orderAt n =
      { book.orderAt n with
        prev := if n = node then cur
          else if n = successor book level cur ∧ successor book level cur ≠ kNullNode then node
          else (book.orderAt n).prev
        next := if n = node then successor book level cur
          else if n = cur ∧ cur ≠ kNullNode then node else (book.orderAt n).next } := by
  simp only [linkOrder,successor,OrderBook.orderAt,OrderBook.levelAt] at other' ⊢
  by_cases first : cur = kNullNode
  · simp only [first,if_true] at other' ⊢
    by_cases empty : (book.levels.slots level).head = kNullNode
    · simp only [empty,ne_eq,not_true_eq_false,if_false,modify_slots]
      split_ifs <;> grind
    · simp only [empty,ne_eq,not_false_eq_true,if_true,modify_slots]
      split_ifs <;> grind
  · simp only [first,if_false] at other' ⊢
    by_cases last : (book.orders.slots cur).next = kNullNode
    · simp only [last,ne_eq,not_true_eq_false,if_false,modify_slots]
      split_ifs <;> grind
    · simp only [last,ne_eq,not_false_eq_true,if_true,modify_slots]
      split_ifs <;> grind

theorem linkOrder_levelAt (l : NodeIndex) :
    (linkOrder book level node cur).levelAt l =
      if l = level then
        { book.levelAt level with
          head := if cur = kNullNode then node else (book.levelAt level).head
          tail := if cur = kNullNode then
              (if (book.levelAt level).tail = kNullNode then node else (book.levelAt level).tail)
            else if (book.orderAt cur).next = kNullNode then node else (book.levelAt level).tail
          orderCount := (book.levelAt level).orderCount + 1 }
      else book.levelAt l := by
  by_cases first : cur = kNullNode
  · simp only [linkOrder,first,if_true,OrderBook.orderAt,OrderBook.levelAt]
    by_cases empty : (book.levels.slots level).tail = kNullNode
    · simp only [empty,if_true,modify_slots]
      split_ifs <;> simp_all
    · simp only [empty,if_false,modify_slots]
      split_ifs <;> simp_all
  · simp only [linkOrder,first,if_false,OrderBook.orderAt,OrderBook.levelAt]
    by_cases last : (book.orders.slots cur).next = kNullNode
    · simp only [last,ne_eq,not_true_eq_false,if_false,if_true,modify_slots]
      split_ifs <;> simp_all
    · simp only [last,ne_eq,not_false_eq_true,if_true,if_false,modify_slots]

theorem linkOrder_sideHead (s : Side) : (linkOrder book level node cur).sideHead s = book.sideHead s := by
  cases s <;> simp only [linkOrder,OrderBook.sideHead] <;> split_ifs <;> rfl

theorem linkOrder_pools {usedOrders usedLevels : List NodeIndex} (orders : Owns book.orders usedOrders)
    (levels : Owns book.levels usedLevels) :
    Owns (linkOrder book level node cur).orders usedOrders ∧
      Owns (linkOrder book level node cur).levels usedLevels := by
  simp only [linkOrder]
  split_ifs <;> exact ⟨orders.congr rfl rfl rfl,levels.congr rfl rfl rfl⟩

theorem unlinkFromLevel_orderAt (n : NodeIndex) :
    (unlinkFromLevel book level node).orderAt n =
      { book.orderAt n with
        next := if n = prevOf book node ∧ prevOf book node ≠ kNullNode then nextOf book node else (book.orderAt n).next
        prev := if n = nextOf book node ∧ nextOf book node ≠ kNullNode then prevOf book node
          else (book.orderAt n).prev } := by
  simp only [unlinkFromLevel,OrderBook.orderAt,nextOf,prevOf]
  by_cases first : (book.orders.slots node).prev = kNullNode
  · by_cases last : (book.orders.slots node).next = kNullNode
    · simp [first,last]
    · simp only [first,last,if_true,if_false,modify_slots]
      split_ifs <;> simp_all
  · by_cases last : (book.orders.slots node).next = kNullNode
    · simp only [first,last,if_true,if_false,modify_slots]
      split_ifs <;> simp_all
    · simp only [first,last,if_false,modify_slots]
      split_ifs <;> simp_all

theorem unlinkFromLevel_levelAt (l : NodeIndex) :
    (unlinkFromLevel book level node).levelAt l =
      if l = level then
        { book.levelAt level with
          head := if prevOf book node = kNullNode then nextOf book node else (book.levelAt level).head
          tail := if nextOf book node = kNullNode then prevOf book node else (book.levelAt level).tail
          orderCount := (book.levelAt level).orderCount - 1 }
      else book.levelAt l := by
  simp only [unlinkFromLevel,OrderBook.orderAt,OrderBook.levelAt,nextOf,prevOf]
  by_cases first : (book.orders.slots node).prev = kNullNode
  · by_cases last : (book.orders.slots node).next = kNullNode
    · simp only [first,last,if_true,modify_slots]
      split_ifs <;> simp_all
    · simp only [first,last,if_true,if_false,modify_slots]
      split_ifs <;> simp_all
  · by_cases last : (book.orders.slots node).next = kNullNode
    · simp only [first,last,if_true,if_false,modify_slots]
      split_ifs <;> simp_all
    · simp only [first,last,if_false,modify_slots]

theorem unlinkFromLevel_sideHead (s : Side) : (unlinkFromLevel book level node).sideHead s = book.sideHead s := by
  cases s <;> simp only [unlinkFromLevel,OrderBook.sideHead] <;> split_ifs <;> rfl

theorem unlinkFromLevel_pools {usedOrders usedLevels : List NodeIndex} (orders : Owns book.orders usedOrders)
    (levels : Owns book.levels usedLevels) :
    Owns (unlinkFromLevel book level node).orders usedOrders ∧
      Owns (unlinkFromLevel book level node).levels usedLevels := by
  simp only [unlinkFromLevel]
  split_ifs <;> exact ⟨orders.congr rfl rfl rfl,levels.congr rfl rfl rfl⟩
end

theorem entryAt_linkOrder (book : OrderBook maxOrders maxPriceLevels) (level : NodeIndex) {node cur : NodeIndex}
    (other : node ≠ cur) (other' : node ≠ successor book level cur) (n : NodeIndex) :
    entryAt (linkOrder book level node cur) n = entryAt book n := by
  simp only [entryAt,entryOf,linkOrder_orderAt book level node cur other other' n]
theorem entryAt_unlinkFromLevel (book : OrderBook maxOrders maxPriceLevels) (level node n : NodeIndex) :
    entryAt (unlinkFromLevel book level node) n = entryAt book n := by
  simp only [entryAt,entryOf,unlinkFromLevel_orderAt book level node n]

/-! ### One level -/

section
variable {book : OrderBook maxOrders maxPriceLevels} {side : Side} {level node : NodeIndex} {xs ys : List NodeIndex}

theorem successor_eq (ok : LevelOk book side level (xs ++ ys)) :
    successor book level (back kNullNode xs) = front kNullNode ys := by
  have noNil := ok.linked.noNil
  simp only [List.mem_append,not_or] at noNil
  cases xs using List.reverseRec with
  | nil => simpa [successor] using ok.head
  | append_singleton init a =>
    have proper : a ≠ kNullNode := fun missing => noNil.1 (by simp [missing])
    have linked := ok.linked
    rw [List.append_assoc,List.singleton_append] at linked
    have follows := linked.links.1
    rw [nextOf] at follows
    simpa [successor,proper] using follows

/-- The order stands in its level's queue, between the two parts. -/
theorem LevelOk.linkOrder (ok : LevelOk book side level (xs ++ ys)) (fresh : node ∉ xs ++ ys)
    (proper : node ≠ kNullNode) (price : (entryAt book node).priceTicks = priceAt book level)
    (onSide : (entryAt book node).side = side)
    (ahead : ∀ n ∈ xs, ¬ Before (entryAt book node) (entryAt book n))
    (behind : ∀ n ∈ ys, ¬ Before (entryAt book n) (entryAt book node)) :
    LevelOk (OrderBook.linkOrder book level node (back kNullNode xs)) side level (xs ++ node :: ys) := by
  have noNil := ok.linked.noNil
  simp only [List.mem_append,not_or] at noNil fresh
  have next := successor_eq ok
  have nodeCur : node ≠ back kNullNode xs := ne_back_of_not_mem fresh.1 proper
  have nodeNext : node ≠ successor book level (back kNullNode xs) := by
    rw [next]; exact ne_front_of_not_mem fresh.2 proper
  have orders := linkOrder_orderAt book level node (back kNullNode xs) nodeCur nodeNext
  have entries := entryAt_linkOrder book level nodeCur nodeNext
  rw [next] at orders nodeNext
  have here := linkOrder_levelAt book level node (back kNullNode xs) level
  rw [if_pos rfl] at here
  have away : ∀ n ∈ xs ++ ys, n ≠ node := by
    rintro n m rfl
    rcases List.mem_append.mp m with inX | inY
    · exact fresh.1 inX
    · exact fresh.2 inY
  have curNil : xs ≠ [] → back kNullNode xs ≠ kNullNode := fun some missing => some ((back_eq_nil noNil.1).mp missing)
  have nextNil : ys ≠ [] → front kNullNode ys ≠ kNullNode :=
    fun some missing => some ((front_eq_nil noNil.2).mp missing)
  refine ⟨?_,?_,?_,?_,?_,?_⟩
  · refine ok.linked.insert (by simp [fresh]) proper (by simp [nextOf,orders]) (by simp [prevOf,orders]) ?_ ?_ ?_ ?_
    · intro someX; simp [nextOf,orders,Ne.symm nodeCur,curNil someX]
    · intro someY; simp [prevOf,orders,Ne.symm nodeNext,nextNil someY]
    · intro n m notCur; simp [nextOf,orders,away n m,notCur]
    · intro n m notNext; simp [prevOf,orders,away n m,notNext]
  · rw [here]
    cases xs with
    | nil => simp
    | cons a rest =>
      simp only [curNil (by simp),if_false,ok.head]
      rfl
  · rw [here]
    have last : (if back kNullNode xs = kNullNode then
          (if (book.levelAt level).tail = kNullNode then node else (book.levelAt level).tail)
        else if (book.orderAt (back kNullNode xs)).next = kNullNode then node else (book.levelAt level).tail) =
        if front kNullNode ys = kNullNode then node else (book.levelAt level).tail := by
      by_cases first : back kNullNode xs = kNullNode
      · have none : xs = [] := (back_eq_nil noNil.1).mp first
        subst none
        rw [if_pos first,ok.tail,List.nil_append]
        simp only [back_eq_nil noNil.2,front_eq_nil noNil.2]
      · rw [if_neg first,← next,successor,if_neg first]
    simp only [last,back_append,back_cons]
    cases ys with
    | nil => simp
    | cons b rest => rw [if_neg (nextNil (by simp)),ok.tail,back_append,back_cons]; rfl
  · rw [here]
    simp only [ok.count,List.length_append,List.length_cons,← Nat.add_assoc]
    exact (UInt32.ofNat_add _ 1).symm
  · intro n m
    have price' : priceAt (OrderBook.linkOrder book level node (back kNullNode xs)) level = priceAt book level := by
      rw [priceAt,here]; rfl
    rw [entries n,price']
    rcases List.mem_append.mp m with inX | rest
    · exact ok.member n (List.mem_append_left _ inX)
    · rcases List.mem_cons.mp rest with rfl | inY
      · exact ⟨price,onSide⟩
      · exact ok.member n (List.mem_append_right _ inY)
  · simp only [entries]
    obtain ⟨sortedX,sortedY,across⟩ := List.pairwise_append.mp ok.sorted
    rw [List.pairwise_append,List.pairwise_cons]
    refine ⟨sortedX,⟨behind,sortedY⟩,?_⟩
    intro a ma b mb
    rcases List.mem_cons.mp mb with rfl | inY
    · exact ahead a ma
    · exact across a ma b inY

/-- The order leaves its level's queue. -/
theorem LevelOk.unlinkFromLevel (ok : LevelOk book side level (xs ++ node :: ys)) :
    LevelOk (OrderBook.unlinkFromLevel book level node) side level (xs ++ ys) := by
  have noNil := ok.linked.noNil
  simp only [List.mem_append,List.mem_cons,not_or] at noNil
  obtain ⟨next,prev⟩ := ok.linked.links
  have orders := unlinkFromLevel_orderAt book level node
  have entries := entryAt_unlinkFromLevel book level node
  have here := unlinkFromLevel_levelAt book level node level
  rw [next,prev] at orders here
  rw [if_pos rfl] at here
  have prevNil : xs ≠ [] → back kNullNode xs ≠ kNullNode := fun some missing => some ((back_eq_nil noNil.1).mp missing)
  have nextNil : ys ≠ [] → front kNullNode ys ≠ kNullNode :=
    fun some missing => some ((front_eq_nil noNil.2.2).mp missing)
  refine ⟨?_,?_,?_,?_,?_,?_⟩
  · refine ok.linked.remove ?_ ?_ ?_ ?_
    · intro someX; simp [nextOf,orders,prevNil someX]
    · intro someY; simp [prevOf,orders,nextNil someY]
    · intro n m notPrev; simp [nextOf,orders,notPrev]
    · intro n m notNext; simp [prevOf,orders,notNext]
  · rw [here]
    cases xs with
    | nil => simp
    | cons a rest => simp only [prevNil (by simp),if_false,ok.head]; rfl
  · rw [here]
    cases ys with
    | nil => simp
    | cons b rest => simp only [nextNil (by simp),if_false,ok.tail,back_append,back_cons]
  · rw [here]
    simp only [ok.count,List.length_append,List.length_cons,← Nat.add_assoc,UInt32.ofNat_add]
    exact UInt32.add_sub_cancel _ _
  · intro n m
    have price' : priceAt (OrderBook.unlinkFromLevel book level node) level = priceAt book level := by
      rw [priceAt,here]; rfl
    rw [entries n,price']
    refine ok.member n ?_
    rcases List.mem_append.mp m with inX | inY
    · exact List.mem_append_left _ inX
    · exact List.mem_append_right _ (List.mem_cons_of_mem _ inY)
  · simp only [entries]
    exact ok.sorted.sublist ((List.sublist_cons_self node ys).append_left xs)
end

/-! ### The whole book -/

/-- The layout with the queue of one level replaced. -/
theorem levelSlots_replace (L : Layout) {s : Side} {ls rs : List (NodeIndex × List NodeIndex)} {l : NodeIndex}
    {nodes : List NodeIndex} (split : L s = ls ++ (l,nodes) :: rs) (nodes' : List NodeIndex) :
    levelSlots (Function.update L s (ls ++ (l,nodes') :: rs)) = levelSlots L := by
  cases s <;> simp [levelSlots,split]
theorem orderSlots_replace (L : Layout) (s : Side) (ls rs : List (NodeIndex × List NodeIndex)) (l : NodeIndex)
    (nodes : List NodeIndex) :
    (orderSlots (Function.update L s (ls ++ (l,nodes) :: rs))).Perm
      (nodes ++ orderSlots (Function.update L s (ls ++ rs))) := by
  have perm := orderSlots_insert (Function.update L s (ls ++ rs)) (Function.update_self s _ L) l nodes
  rwa [Function.update_idem] at perm

theorem orderSlots_link (L : Layout) {s : Side} {ls rs : List (NodeIndex × List NodeIndex)} {l : NodeIndex}
    {xs ys : List NodeIndex} (split : L s = ls ++ (l,xs ++ ys) :: rs) (node : NodeIndex) :
    (orderSlots (Function.update L s (ls ++ (l,xs ++ node :: ys) :: rs))).Perm (node :: orderSlots L) := by
  have old := orderSlots_replace L s ls rs l (xs ++ ys)
  rw [← split,Function.update_eq_self] at old
  refine (orderSlots_replace L s ls rs l _).trans ?_
  rw [List.append_assoc,List.cons_append]
  refine List.perm_middle.trans (List.Perm.cons node ?_)
  rw [← List.append_assoc]
  exact old.symm

/-- Replacing one level's queue keeps the shape when the links outside it stay. -/
theorem Shaped.replace {book book' : OrderBook maxOrders maxPriceLevels} {L : Layout} (shaped : Shaped book L)
    {side : Side} {level : NodeIndex} {nodes nodes' : List NodeIndex} {ls rs : List (NodeIndex × List NodeIndex)}
    (split : L side = ls ++ (level,nodes) :: rs) (heads : ∀ s, book'.sideHead s = book.sideHead s)
    (levels : ∀ l, nextLevelOf book' l = nextLevelOf book l ∧ prevLevelOf book' l = prevLevelOf book l ∧
      priceAt book' l = priceAt book l)
    (others : ∀ l, l ≠ level → book'.levelAt l = book.levelAt l)
    (orders : ∀ s, ∀ e ∈ L s, e.1 ≠ level → ∀ n ∈ e.2, book'.orderAt n = book.orderAt n)
    (here : LevelOk book' side level nodes')
    (apart : (orderSlots (Function.update L side (ls ++ (level,nodes') :: rs))).Nodup) :
    Shaped book' (Function.update L side (ls ++ (level,nodes') :: rs)) := by
  have inside : (level,nodes) ∈ L side := by rw [split]; simp
  have slots : ∀ s, (Function.update L side (ls ++ (level,nodes') :: rs) s).map Prod.fst = (L s).map Prod.fst := by
    intro s
    by_cases same : s = side
    · subst same
      simp [split]
    · rw [Function.update_of_ne same]
  have frame : ∀ s, ∀ e ∈ L s, e.1 ≠ level → LevelOk book' s e.1 e.2 := by
    intro s e m other
    have slot := others e.1 other
    exact (shaped.level s e m).congr (by rw [slot]) (by rw [slot]) (by rw [slot]) (levels e.1).2.2 (orders s e m other)
  have unique := @level_unique L shaped.levelsApart
  refine ⟨?_,?_,?_,apart⟩
  · intro s
    rw [slots s]
    exact (shaped.sides s).congr (heads s) (fun l _ => (levels l).1) (fun l _ => (levels l).2.1)
      (fun l _ => (levels l).2.2)
  · intro s e m
    by_cases same : s = side
    · subst same
      rw [Function.update_self] at m
      have distinct : (L s).map Prod.fst |>.Nodup := (shaped.sides s).linked.nodup
      rw [split,List.map_append,List.map_cons,List.nodup_middle,List.nodup_cons] at distinct
      have away : ∀ f ∈ ls ++ rs, f.1 ≠ level := by
        intro f mf clash
        apply distinct.1
        rw [← List.map_append]
        exact List.mem_map.mpr ⟨f,mf,clash⟩
      rcases List.mem_append.mp m with inL | rest
      · exact frame s e (by rw [split]; exact List.mem_append_left _ inL) (away e (List.mem_append_left _ inL))
      · rcases List.mem_cons.mp rest with rfl | inR
        · exact here
        · exact frame s e (by rw [split]; exact List.mem_append_right _ (List.mem_cons_of_mem _ inR))
            (away e (List.mem_append_right _ inR))
    · rw [Function.update_of_ne same] at m
      exact frame s e m (fun clash => same (unique m inside clash).1)
  · rw [levelSlots_replace L split]
    exact shaped.levelsApart

theorem Shaped.linkOrder {book : OrderBook maxOrders maxPriceLevels} {L : Layout} (shaped : Shaped book L)
    {side : Side} {level node : NodeIndex} {xs ys : List NodeIndex} {ls rs : List (NodeIndex × List NodeIndex)}
    (split : L side = ls ++ (level,xs ++ ys) :: rs) (fresh : node ∉ orderSlots L) (proper : node ≠ kNullNode)
    (price : (entryAt book node).priceTicks = priceAt book level) (onSide : (entryAt book node).side = side)
    (ahead : ∀ n ∈ xs, ¬ Before (entryAt book node) (entryAt book n))
    (behind : ∀ n ∈ ys, ¬ Before (entryAt book n) (entryAt book node)) :
    Shaped (OrderBook.linkOrder book level node (back kNullNode xs))
      (Function.update L side (ls ++ (level,xs ++ node :: ys) :: rs)) := by
  have inside : (level,xs ++ ys) ∈ L side := by rw [split]; simp
  have ok := shaped.level side _ inside
  have freshHere : node ∉ xs ++ ys := fun m => fresh (mem_orderSlots inside m)
  have parts := freshHere
  simp only [List.mem_append,not_or] at parts
  have nodeCur : node ≠ back kNullNode xs := ne_back_of_not_mem parts.1 proper
  have nodeNext : node ≠ successor book level (back kNullNode xs) := by
    rw [successor_eq ok]; exact ne_front_of_not_mem parts.2 proper
  refine shaped.replace split (linkOrder_sideHead book level node _) ?_ ?_ ?_
    (ok.linkOrder freshHere proper price onSide ahead behind)
    ((orderSlots_link L split node).nodup_iff.mpr (List.nodup_cons.mpr ⟨fresh,shaped.ordersApart⟩))
  · intro l
    simp only [nextLevelOf,prevLevelOf,priceAt]
    by_cases same : l = level
    · rw [linkOrder_levelAt,if_pos same,same]; exact ⟨rfl,rfl,rfl⟩
    · rw [linkOrder_levelAt,if_neg same]; exact ⟨rfl,rfl,rfl⟩
  · intro l other; rw [linkOrder_levelAt,if_neg other]
  · intro s e m other n inE
    have away : n ∉ xs ++ ys := fun inHere =>
      other (by rw [(order_level_unique shaped.ordersApart m inside inE inHere).2])
    have notNil : n ≠ kNullNode := fun missing => (shaped.level s e m).linked.noNil (missing ▸ inE)
    have notNode : n ≠ node := fun same => fresh (same ▸ mem_orderSlots m inE)
    simp only [List.mem_append,not_or] at away
    rw [linkOrder_orderAt book level node _ nodeCur nodeNext,successor_eq ok]
    simp [notNode,ne_back_of_not_mem away.1 notNil,ne_front_of_not_mem away.2 notNil]

theorem Shaped.unlinkFromLevel {book : OrderBook maxOrders maxPriceLevels} {L : Layout} (shaped : Shaped book L)
    {side : Side} {level node : NodeIndex} {xs ys : List NodeIndex} {ls rs : List (NodeIndex × List NodeIndex)}
    (split : L side = ls ++ (level,xs ++ node :: ys) :: rs) :
    Shaped (OrderBook.unlinkFromLevel book level node) (Function.update L side (ls ++ (level,xs ++ ys) :: rs)) := by
  have inside : (level,xs ++ node :: ys) ∈ L side := by rw [split]; simp
  have ok := shaped.level side _ inside
  obtain ⟨next,prev⟩ := ok.linked.links
  have smaller : Function.update (Function.update L side (ls ++ (level,xs ++ ys) :: rs)) side
      (ls ++ (level,xs ++ node :: ys) :: rs) = L := by
    rw [Function.update_idem,← split,Function.update_eq_self]
  have perm := orderSlots_link (Function.update L side (ls ++ (level,xs ++ ys) :: rs))
    (Function.update_self side _ L) node
  rw [smaller] at perm
  refine shaped.replace split (unlinkFromLevel_sideHead book level node) ?_ ?_ ?_ ok.unlinkFromLevel
    (List.nodup_cons.mp (perm.nodup_iff.mp shaped.ordersApart)).2
  · intro l
    simp only [nextLevelOf,prevLevelOf,priceAt]
    by_cases same : l = level
    · rw [unlinkFromLevel_levelAt,if_pos same,same]; exact ⟨rfl,rfl,rfl⟩
    · rw [unlinkFromLevel_levelAt,if_neg same]; exact ⟨rfl,rfl,rfl⟩
  · intro l other; rw [unlinkFromLevel_levelAt,if_neg other]
  · intro s e m other n inE
    have away : n ∉ xs ++ node :: ys := fun inHere =>
      other (by rw [(order_level_unique shaped.ordersApart m inside inE inHere).2])
    have notNil : n ≠ kNullNode := fun missing => (shaped.level s e m).linked.noNil (missing ▸ inE)
    simp only [List.mem_append,List.mem_cons,not_or] at away
    rw [unlinkFromLevel_orderAt,next,prev]
    simp [ne_back_of_not_mem away.1 notNil,ne_front_of_not_mem away.2.2 notNil]

end HyperMatch.BookLayout
