import HyperMatch.Arrival
import HyperMatch.GatewayBook

/-!
A history and the replay of its journal, as markets. Only the walks matter for what is
accepted and where it comes to rest, and with increasing stamps only the arrival; so
the accepted part of a history, on any market without orders, leads to the same orders
in the same places (`replay_alike`). The replay refuses no remainder if the history did
not, and its projection is then the book as well.
-/
namespace HyperMatch.Replays
open HyperMatch.Wire HyperMatch.Matching HyperMatch.MatchingEngine HyperMatch.BookLayout HyperMatch.Streams
open HyperMatch.Mirror HyperMatch.GatewayBook
open HyperMatch.OrderBook (PoolCapacity)

variable {maxOrders maxPriceLevels : PoolCapacity}

/-! ### Walks alone -/

/-- Execution numbers do not decide what is traded. -/
theorem sweep_execSeq (incoming : NewOrder) (walk : List Entry) (a b : UInt64) (remaining : UInt32) :
    (sweep incoming walk a remaining).2 = (sweep incoming walk b remaining).2 := by
  induction walk generalizing a b remaining with
  | nil => rfl
  | cons e rest ih =>
    rw [sweep,sweep]
    dsimp only
    split_ifs
    · exact ih _ _ _
    · rfl
    · rfl

section
variable {ex ex' : Exchange}

theorem sweptBy_walks (same : ex'.walks = ex.walks) (incoming : NewOrder) :
    (ex'.sweptBy incoming).2 = (ex.sweptBy incoming).2 := by
  rw [Exchange.sweptBy,Exchange.sweptBy,same]
  exact sweep_execSeq incoming _ _ _ _

theorem traded_walks (same : ex'.walks = ex.walks) (incoming : NewOrder) : ex'.traded incoming = ex.traded incoming := by
  rw [Exchange.traded,Exchange.traded,same,sweptBy_walks same]

theorem dropped_walks (same : ex'.walks = ex.walks) (incoming : NewOrder) :
    ex'.dropped maxOrders maxPriceLevels incoming = ex.dropped maxOrders maxPriceLevels incoming := by
  rw [Exchange.dropped,Exchange.dropped,traded_walks same,sweptBy_walks same]

theorem dropped_unstamped (ex : Exchange) (incoming : NewOrder) :
    ex.unstamped.dropped maxOrders maxPriceLevels incoming = ex.dropped maxOrders maxPriceLevels incoming := by
  rw [Exchange.dropped,Exchange.dropped,traded_unstamped,sweptBy_unstamped]
  simp only [noRoom_unstamped]

theorem dropped_stamp (ex : Exchange) (m : NewOrder) (q : UInt64) :
    ex.dropped maxOrders maxPriceLevels { m with seq := q } = ex.dropped maxOrders maxPriceLevels m := by
  simp only [Exchange.dropped,Exchange.traded,Exchange.sweptBy,sweep_stamp]
  rfl

theorem cancel_walks (same : ex'.walks = ex.walks) (orderId : UInt64) :
    (ex'.cancel orderId).1 = (ex.cancel orderId).1 ∧ (ex'.cancel orderId).2.walks = (ex.cancel orderId).2.walks := by
  obtain ⟨walks,n⟩ := ex
  obtain ⟨walks',n'⟩ := ex'
  cases same
  rw [Exchange.cancel,Exchange.cancel]
  have found : ∀ side, (⟨walks,n'⟩ : Exchange).find orderId side = (⟨walks,n⟩ : Exchange).find orderId side :=
    fun _ => rfl
  rw [found,found]
  cases (⟨walks,n⟩ : Exchange).find orderId .Buy with
  | some e => exact ⟨rfl,rfl⟩
  | none =>
    cases (⟨walks,n⟩ : Exchange).find orderId .Sell with
    | some e => exact ⟨rfl,rfl⟩
    | none => exact ⟨rfl,rfl⟩
end

section
variable {market market' : Market}

/-- Whether a command is accepted, and the walks after it, depend on the walks before. -/
theorem byArrival_walks (same : market'.exchange.walks = market.exchange.walks) (command : Command) :
    (market'.byArrival maxOrders maxPriceLevels command).1.accepted =
        (market.byArrival maxOrders maxPriceLevels command).1.accepted ∧
      (market'.byArrival maxOrders maxPriceLevels command).2.exchange.walks =
        (market.byArrival maxOrders maxPriceLevels command).2.exchange.walks := by
  cases command with
  | newOrder m =>
    rw [Market.byArrival,Market.byArrival]
    cases validateNewOrder m with
    | some reason => exact ⟨rfl,same⟩
    | none => exact ⟨rfl,by simp only [Exchange.arrive,traded_walks same,sweptBy_walks same]⟩
  | cancelOrder c =>
    obtain ⟨found,walks⟩ := cancel_walks same c.orderId
    rw [Market.byArrival,Market.byArrival,Market.cancelOrder,Market.cancelOrder]
    cases taken : market.exchange.cancel c.orderId with
    | mk entry after =>
      cases taken' : market'.exchange.cancel c.orderId with
      | mk entry' after' =>
        rw [taken,taken'] at found walks
        cases found
        cases entry with
        | some e => exact ⟨rfl,walks⟩
        | none => exact ⟨rfl,same⟩

/-! ### Two markets -/

/-- The same orders in the same places, whatever their stamps. -/
def Alike (market market' : Market) : Prop := market'.unstamped.exchange.walks = market.unstamped.exchange.walks

/-- The record that the journal keeps of a command. -/
def asRecord : Command → JournalRecord
  | .newOrder m => .New m.orderId m.side m.priceTicks m.quantity
  | .cancelOrder c => .Cancel c.orderId

theorem unstamped_of_record {command command' : Command} (same : asRecord command' = asRecord command) :
    unstampedCommand command' = unstampedCommand command := by
  cases command with
  | newOrder m =>
    cases command' with
    | newOrder m' =>
      obtain ⟨_,_,_,_,_⟩ := m
      obtain ⟨_,_,_,_,_⟩ := m'
      cases same
      rfl
    | cancelOrder c' => cases same
  | cancelOrder c =>
    cases command' with
    | newOrder m' => cases same
    | cancelOrder c' =>
      obtain ⟨_⟩ := c
      obtain ⟨_⟩ := c'
      cases same
      rfl

/-- Two commands with one record, each with the last stamp of its market. -/
theorem step_alike {stamps stamps' : List UInt64} (stamped : Stamped stamps market) (stamped' : Stamped stamps' market')
    (alike : Alike market market') {command command' : Command} (same : asRecord command' = asRecord command)
    (last : ∀ q ∈ stamp command, ∀ p ∈ stamps, p < q) (last' : ∀ q ∈ stamp command', ∀ p ∈ stamps', p < q) :
    (market'.step maxOrders maxPriceLevels command').1.accepted =
        (market.step maxOrders maxPriceLevels command).1.accepted ∧
      Alike (market.step maxOrders maxPriceLevels command).2 (market'.step maxOrders maxPriceLevels command').2 := by
  have one : market.unstamped.byArrival maxOrders maxPriceLevels command = _ := step_byArrival stamped last
  have two : market'.unstamped.byArrival maxOrders maxPriceLevels command' = _ := step_byArrival stamped' last'
  rw [← byArrival_unstamped] at one two
  rw [unstamped_of_record same] at two
  have both : (market'.unstamped.byArrival maxOrders maxPriceLevels (unstampedCommand command)).1.accepted = _ ∧ _ :=
    byArrival_walks alike (unstampedCommand command)
  rw [one,two] at both
  exact both
end

/-! ### Whole histories -/

/-- The pools have room for what is left of an order. -/
def Room (maxOrders maxPriceLevels : PoolCapacity) (market : Market) : Command → Prop
  | .newOrder m => validateNewOrder m = none → market.exchange.dropped maxOrders maxPriceLevels m = 0
  | .cancelOrder _ => True

def AllRoom (maxOrders maxPriceLevels : PoolCapacity) (market : Market) : List Command → Prop
  | [] => True
  | command :: rest => Room maxOrders maxPriceLevels market command ∧
      AllRoom maxOrders maxPriceLevels (market.step maxOrders maxPriceLevels command).2 rest

section
variable {market market' : Market}

theorem room_alike (alike : Alike market market') {command command' : Command}
    (same : asRecord command' = asRecord command) (room : Room maxOrders maxPriceLevels market command) :
    Room maxOrders maxPriceLevels market' command' := by
  cases command' with
  | cancelOrder c' => trivial
  | newOrder m' =>
    cases command with
    | cancelOrder c => cases same
    | newOrder m =>
      have equal : m' = { m with seq := m'.seq } := by
        obtain ⟨_,_,_,_,_⟩ := m
        obtain ⟨_,_,_,_,_⟩ := m'
        cases same
        rfl
      intro valid
      have walks : market'.exchange.unstamped.walks = market.exchange.unstamped.walks := alike
      rw [equal,dropped_stamp,← dropped_unstamped,dropped_walks walks,dropped_unstamped]
      refine room ?_
      rw [equal] at valid
      exact valid

/-- The stamps before a command are smaller than its own. -/
theorem last_stamp {stamps : List UInt64} {command : Command} {rest : List Command}
    (increasing : (stamps ++ (command :: rest).filterMap stamp).Pairwise (· < ·)) :
    ∀ q ∈ stamp command, ∀ p ∈ stamps, p < q := by
  intro q given p earlier
  rw [stamps_cons] at increasing
  have first := (List.pairwise_append.mp increasing).1
  exact (List.pairwise_append.mp first).2.2 p earlier q (Option.mem_toList.mpr given)

/-- The accepted part of a history, with other increasing stamps, leads to the same
    orders in the same places and refuses no remainder that the history did not. -/
theorem replay_alike {stamps stamps' : List UInt64} (stamped : Stamped stamps market) (stamped' : Stamped stamps' market')
    (alike : Alike market market') {commands replayed : List Command}
    (increasing : (stamps ++ commands.filterMap stamp).Pairwise (· < ·))
    (increasing' : (stamps' ++ replayed.filterMap stamp).Pairwise (· < ·))
    (records : replayed.map asRecord = (acceptedOf commands
      (Market.answers (Market.step maxOrders maxPriceLevels) market commands).1).map asRecord) :
    Alike (Market.answers (Market.step maxOrders maxPriceLevels) market commands).2
        (Market.answers (Market.step maxOrders maxPriceLevels) market' replayed).2 ∧
      (AllRoom maxOrders maxPriceLevels market commands → AllRoom maxOrders maxPriceLevels market' replayed) := by
  induction commands generalizing market market' stamps stamps' replayed with
  | nil =>
    cases List.map_eq_nil_iff.mp records
    exact ⟨alike,id⟩
  | cons command rest ih =>
    have last := last_stamp increasing
    rw [stamps_cons] at increasing
    rw [Market.answers,acceptedOf_cons] at records
    cases kept : (market.step maxOrders maxPriceLevels command).1.accepted with
    | true =>
      rw [if_pos kept,List.map_cons] at records
      obtain ⟨command',later,rfl,same,records⟩ := List.map_eq_cons_iff.mp records
      have last' := last_stamp increasing'
      rw [stamps_cons] at increasing'
      obtain ⟨_,next⟩ := step_alike stamped stamped' alike same last last'
      obtain ⟨alike',room⟩ := ih (step_stamped maxOrders maxPriceLevels stamped command)
        (step_stamped maxOrders maxPriceLevels stamped' command') next increasing increasing' records
      exact ⟨alike',fun all => ⟨room_alike alike same all.1,room all.2⟩⟩
    | false =>
      -- A command that is not accepted leaves no record and changes nothing.
      have still := Market.step_inert maxOrders maxPriceLevels market command kept
      rw [if_neg (by simp [kept])] at records
      obtain ⟨alike',room⟩ := ih (step_stamped maxOrders maxPriceLevels stamped command) stamped'
        (by rw [still]; exact alike) increasing increasing' records
      exact ⟨alike',fun all => room all.2⟩

end

end HyperMatch.Replays
