import HyperMatch.EngineFrames
import HyperMatch.KeySort

/-!
Orders of one side that cross nothing, in any order of their arrival. Each of them
rests whole, at the place that its price, sequence number and identifier give it.
Insertions of orders that these tell apart commute, so the book is the same for every
permutation.
-/
namespace HyperMatch.Processing
open HyperMatch.Wire HyperMatch.OrderBook HyperMatch.BookLayout HyperMatch.MatchingEngine HyperMatch.Matching
open HyperMatch.KeySort (foldl_orderedInsert_perm)

variable {maxOrders maxPriceLevels : PoolCapacity}

/-! ### Rank -/

section
variable {s : Side} {a b c : Entry}

theorem outranks_trans (ab : Outranks s a b) (bc : Outranks s b c) : Outranks s a c := by
  rcases ab with better | ⟨price,before⟩
  · rcases bc with better' | ⟨price',_⟩
    · exact .inl (ranksFirst_trans better better')
    · rw [price'] at better
      exact .inl better
  · rcases bc with better' | ⟨price',before'⟩
    · rw [← price] at better'
      exact .inl better'
    · rw [before_iff] at before before'
      exact .inr ⟨price.trans price',by rw [before_iff]; omega⟩

theorem outranks_irrefl (s : Side) (a : Entry) : ¬ Outranks s a a := by
  rintro (better | ⟨_,before⟩)
  · exact ranksFirst_irrefl s _ better
  · exact before.asymm before

/-- Sequence number and identifier decide where the price does not. -/
theorem outranks_decides (apart : (a.seq,a.orderId) ≠ (b.seq,b.orderId)) : Outranks s a b ↔ ¬ Outranks s b a := by
  constructor
  · intro ab ba
    exact outranks_irrefl s a (outranks_trans ab ba)
  · intro behind
    rw [Outranks,not_or] at behind
    obtain ⟨notBetter,notBefore⟩ := behind
    by_cases price : a.priceTicks = b.priceTicks
    · refine .inr ⟨price,?_⟩
      have late : ¬ Before b a := fun before => notBefore ⟨price.symm,before⟩
      have different : ¬ (a.seq.toNat = b.seq.toNat ∧ a.orderId.toNat = b.orderId.toNat) := by
        rintro ⟨seq,orderId⟩
        exact apart (Prod.ext (UInt64.toNat_inj.mp seq) (UInt64.toNat_inj.mp orderId))
      rw [before_iff] at late ⊢
      omega
    · exact .inl (ranksFirst_total (Ne.symm price) notBetter)
end

/-! ### Orders that rest whole -/

/-- The entry of an order that has traded nothing. -/
def whole (m : NewOrder) : Entry := remainder m m.quantity

/-- The pools have room for orders of a side and for their levels. -/
def Fits (engine : MatchingEngine maxOrders maxPriceLevels) (s : Side) (orders : List NewOrder) : Prop :=
  (resting engine.book s).length + (resting engine.book (opposite s)).length + orders.length ≤ maxOrders.size ∧
    priceCount (resting engine.book s ++ orders.map whole) + priceCount (resting engine.book (opposite s)) ≤
      maxPriceLevels.size

section
variable {engine : MatchingEngine maxOrders maxPriceLevels} {s : Side} {m : NewOrder} {orders : List NewOrder}

theorem priceCount_perm {l l' : List Entry} (perm : l.Perm l') : priceCount l = priceCount l' :=
  ((perm.map Entry.priceTicks).dedup).length_eq

theorem Fits.room (fits : Fits engine m.side (m :: orders)) :
    ¬ NoRoom maxOrders maxPriceLevels (resting engine.book) m.side m.priceTicks := by
  obtain ⟨slots,levels⟩ := fits
  rw [List.length_cons] at slots
  have sides : ∀ count : List Entry → Nat, count (resting engine.book .Buy) + count (resting engine.book .Sell) =
      count (resting engine.book m.side) + count (resting engine.book (opposite m.side)) := by
    intro count
    cases m.side
    · rfl
    · exact Nat.add_comm _ _
  rintro (full | ⟨missing,full⟩)
  · have total := sides List.length
    omega
  · have total := sides priceCount
    have more : priceCount (resting engine.book m.side) < priceCount (resting engine.book m.side ++ (m :: orders).map whole) := by
      refine priceCount_lt (List.subset_append_left _ _) (e := whole m) ?_ missing
      simp
    omega

theorem Fits.step {engine' : MatchingEngine maxOrders maxPriceLevels} (fits : Fits engine s (m :: orders))
    (here : resting engine'.book s = (resting engine.book s).orderedInsert (Outranks s) (whole m))
    (far : resting engine'.book (opposite s) = resting engine.book (opposite s)) : Fits engine' s orders := by
  obtain ⟨slots,levels⟩ := fits
  have perm : ((resting engine.book s).orderedInsert (Outranks s) (whole m)).Perm (whole m :: resting engine.book s) :=
    List.perm_orderedInsert _ _ _
  have prices : priceCount ((resting engine.book s).orderedInsert (Outranks s) (whole m) ++ orders.map whole) =
      priceCount (resting engine.book s ++ (m :: orders).map whole) := by
    refine priceCount_perm ((perm.append_right _).trans ?_)
    exact List.perm_middle.symm
  unfold Fits
  rw [here,far,prices,perm.length_eq]
  rw [List.length_cons] at slots ⊢
  exact ⟨by omega,levels⟩

/-- An order that crosses nothing and has room comes to rest whole. -/
theorem processNewOrderChecked_rests (sound : Sound engine) (valid : validateNewOrder m = none)
    (uncrossing : ∀ e ∈ resting engine.book (opposite m.side), ¬ priceCrosses m.side m.priceTicks e.priceTicks = true)
    (room : ¬ NoRoom maxOrders maxPriceLevels (resting engine.book) m.side m.priceTicks) :
    ∃ engine', engine.processNewOrderChecked m = some ({ accepted := true },engine') ∧ Sound engine' ∧
      resting engine'.book = Function.update (resting engine.book) m.side
        ((resting engine.book m.side).orderedInsert (Outranks m.side) (whole m)) := by
  have quiet : (view engine).sweptBy m = ([],m.quantity,resting engine.book (opposite m.side)) :=
    sweep_none m uncrossing engine.nextExecSeq m.quantity
  have same : (view engine).traded m = resting engine.book := by
    rw [Exchange.traded,quiet]
    exact Function.update_eq_self _ _
  have positive : m.quantity > 0 := by
    obtain ⟨_,least,_⟩ := validated valid
    exact UInt32.lt_of_lt_of_le (show 0 < limits.kMinEngineQuantity by decide) least
  rcases processNewOrderChecked_spec sound m with ⟨reason,refused,_⟩ | ⟨_,engine',ran,sound',viewed,-⟩
  · cases valid.symm.trans refused
  · refine ⟨engine',?_,sound',?_⟩
    · rw [ran,Exchange.newOrder,quiet]
    · have walks : resting engine'.book = ((view engine).newOrder maxOrders maxPriceLevels m).2.walks :=
        congrArg Exchange.walks viewed
      rw [walks,Exchange.newOrder,quiet,same]
      simp only [positive,if_true]
      rw [putToRest]
      exact if_neg room

/-- A whole batch of them: no trade, and every order inserted at its place. -/
theorem run_rests (sound : Sound engine) (sides : ∀ m ∈ orders, m.side = s)
    (valid : ∀ m ∈ orders, validateNewOrder m = none)
    (uncrossing : ∀ m ∈ orders, ∀ e ∈ resting engine.book (opposite s), ¬ priceCrosses s m.priceTicks e.priceTicks = true)
    (fits : Fits engine s orders) :
    ∃ engine', run engine (orders.map .newOrder) = some (orders.map (fun _ => { accepted := true }),engine') ∧
      resting engine'.book s =
        (orders.map whole).foldl (fun sorted e => sorted.orderedInsert (Outranks s) e) (resting engine.book s) ∧
      resting engine'.book (opposite s) = resting engine.book (opposite s) := by
  induction orders generalizing engine with
  | nil => exact ⟨engine,rfl,rfl,rfl⟩
  | cons m rest ih =>
    obtain rfl := sides m List.mem_cons_self
    obtain ⟨middle,ran,sound',walks⟩ := processNewOrderChecked_rests sound (valid m List.mem_cons_self)
      (uncrossing m List.mem_cons_self) fits.room
    have here : resting middle.book m.side = (resting engine.book m.side).orderedInsert (Outranks m.side) (whole m) := by
      rw [walks,Function.update_self]
    have far : resting middle.book (opposite m.side) = resting engine.book (opposite m.side) := by
      rw [walks,Function.update_of_ne (opposite_ne m.side)]
    have uncrossing' : ∀ n ∈ rest, ∀ e ∈ resting middle.book (opposite m.side),
        ¬ priceCrosses m.side n.priceTicks e.priceTicks = true := by
      rw [far]
      exact fun n inside => uncrossing n (List.mem_cons_of_mem m inside)
    obtain ⟨engine',later,sorted,farLater⟩ := ih sound' (fun n inside => sides n (List.mem_cons_of_mem m inside))
      (fun n inside => valid n (List.mem_cons_of_mem m inside)) uncrossing' (fits.step here far)
    refine ⟨engine',?_,?_,farLater.trans far⟩
    · simp [run,Matching.step,ran,later]
    · rw [sorted,here]
      rfl

/-- Valid orders of one side with distinct sequence numbers and identifiers, none of
    which crosses the other side of a reached book, with room for all of them: in every
    order of their arrival they trade nothing and leave the same walks. -/
theorem arrival_order_irrelevant (reached : Reached engine) (sides : ∀ m ∈ orders, m.side = s)
    (valid : ∀ m ∈ orders, validateNewOrder m = none)
    (distinct : (orders.map (fun m => (m.seq,m.orderId))).Nodup)
    (uncrossing : ∀ m ∈ orders, ∀ e ∈ resting engine.book (opposite s), ¬ priceCrosses s m.priceTicks e.priceTicks = true)
    (fits : Fits engine s orders) {permuted : List NewOrder} (perm : orders.Perm permuted) :
    ∃ engine₁ engine₂,
      run engine (orders.map .newOrder) = some (orders.map (fun _ => { accepted := true }),engine₁) ∧
      run engine (permuted.map .newOrder) = some (permuted.map (fun _ => { accepted := true }),engine₂) ∧
      ∀ t, resting engine₁.book t = resting engine₂.book t := by
  have sound := reached.settled.sound
  have fits' : Fits engine s permuted := by
    obtain ⟨slots,levels⟩ := fits
    rw [priceCount_perm ((perm.map whole).append_left _)] at levels
    rw [perm.length_eq] at slots
    exact ⟨slots,levels⟩
  obtain ⟨engine₁,ran₁,here₁,far₁⟩ := run_rests sound sides valid uncrossing fits
  obtain ⟨engine₂,ran₂,here₂,far₂⟩ := run_rests sound (fun m inside => sides m (perm.mem_iff.mpr inside))
    (fun m inside => valid m (perm.mem_iff.mpr inside)) (fun m inside => uncrossing m (perm.mem_iff.mpr inside)) fits'
  have decides : ∀ a ∈ orders.map whole, ∀ b ∈ orders.map whole, a ≠ b → (Outranks s a b ↔ ¬ Outranks s b a) := by
    intro a inA b inB other
    obtain ⟨m,inM,rfl⟩ := List.mem_map.mp inA
    obtain ⟨n,inN,rfl⟩ := List.mem_map.mp inB
    apply outranks_decides
    intro same
    have equal : m = n := List.inj_on_of_nodup_map distinct inM inN same
    exact other (by rw [equal])
  refine ⟨engine₁,engine₂,ran₁,ran₂,?_⟩
  intro t
  by_cases own : t = s
  · rw [own,here₁,here₂]
    have trans : ∀ a b c, Outranks s a b → Outranks s b c → Outranks s a c := fun _ _ _ => outranks_trans
    exact foldl_orderedInsert_perm trans (perm.map whole) decides _
  · rw [eq_opposite own,far₁,far₂]

/-- Three bids of two prices, the later stamps first. -/
def lateFirst : List NewOrder := [⟨9,.Buy,100,4,3⟩,⟨8,.Buy,101,2,2⟩,⟨7,.Buy,100,5,1⟩]

theorem arrival_order_irrelevant_bids :
    ∃ engine₁ engine₂ : MatchingEngine .four .four,
      run MatchingEngine.new (lateFirst.map .newOrder) = some (lateFirst.map (fun _ => { accepted := true }),engine₁) ∧
      run MatchingEngine.new (lateFirst.reverse.map .newOrder) =
        some (lateFirst.reverse.map (fun _ => { accepted := true }),engine₂) ∧
      ∀ t, resting engine₁.book t = resting engine₂.book t := by
  have empty : ∀ t, resting (MatchingEngine.new : MatchingEngine .four .four).book t = [] :=
    fun t => congrFun kept_new.resting_eq t
  refine arrival_order_irrelevant .new (s := .Buy) (by decide) (by decide) (by decide) ?_ ?_ (List.reverse_perm _).symm
  · intro m _ e inside
    rw [empty] at inside
    cases inside
  · rw [Fits,empty,empty]
    decide
end

end HyperMatch.Processing
