import HyperMatch.Sweeps

/-!
The matching engine as a total machine. A market is the exchange together with the
identifiers that have left it, oldest first; it answers every command, and a sound
engine answers the same (`run_shows`).
-/
namespace HyperMatch.Matching
open HyperMatch.Wire HyperMatch.OrderBook HyperMatch.BookLayout HyperMatch.MatchingEngine

variable {maxOrders maxPriceLevels : PoolCapacity}

@[ext] structure Market where
  exchange : Exchange
  retired : List UInt64

namespace Market

def empty : Market := ⟨⟨fun _ => [],1⟩,[]⟩

def newOrder (maxOrders maxPriceLevels : PoolCapacity) (market : Market) (incoming : NewOrder) : Outcome × Market :=
  match validateNewOrder incoming with
  | some reason => ({ accepted := false, rejects := [⟨incoming.orderId,reason⟩] },market)
  | none =>
    ({ accepted := true, trades := (market.exchange.newOrder maxOrders maxPriceLevels incoming).1 },
      { exchange := (market.exchange.newOrder maxOrders maxPriceLevels incoming).2
        retired := (market.exchange.filledBy incoming).foldl (RetiredIdSet.recorded maxOrders.size) market.retired })

def cancelOrder (maxOrders : PoolCapacity) (market : Market) (cancel : CancelOrder) : Outcome × Market :=
  match market.exchange.cancel cancel.orderId with
  | (some _,exchange) =>
    ({ accepted := true, acks := [⟨cancel.orderId,.Cancelled⟩] },
      ⟨exchange,RetiredIdSet.recorded maxOrders.size market.retired cancel.orderId⟩)
  | (none,_) =>
    ({ accepted := false,
       rejects := [⟨cancel.orderId,if cancel.orderId ∈ market.retired then .NoLongerResting else .OrderNotFound⟩] },market)

def step (maxOrders maxPriceLevels : PoolCapacity) (market : Market) : Command → Outcome × Market
  | .newOrder m => market.newOrder maxOrders maxPriceLevels m
  | .cancelOrder c => market.cancelOrder maxOrders c

/-- The answers of a machine to a sequence of commands and the market after them. -/
def answers (answer : Market → Command → Outcome × Market) (market : Market) : List Command → List Outcome × Market
  | [] => ([],market)
  | command :: rest =>
    ((answer market command).1 :: (answers answer (answer market command).2 rest).1,
      (answers answer (answer market command).2 rest).2)

/-- A command that is not accepted changes nothing. -/
def Inert (answer : Market → Command → Outcome × Market) : Prop :=
  ∀ market command, (answer market command).1.accepted = false → (answer market command).2 = market

theorem step_inert (maxOrders maxPriceLevels : PoolCapacity) : Inert (step maxOrders maxPriceLevels) := by
  intro market command refused
  cases command with
  | newOrder m =>
    rw [step,newOrder] at refused ⊢
    split at refused
    · rfl
    · cases refused
  | cancelOrder c =>
    rw [step,cancelOrder] at refused ⊢
    split at refused
    · cases refused
    · rfl

end Market

/-! ### The engine as a market -/

/-- A sound engine with the walks, the numbers and the retired identifiers of a
    market. -/
structure Shows (engine : MatchingEngine maxOrders maxPriceLevels) (market : Market) : Prop where
  sound : Sound engine
  viewed : view engine = market.exchange
  records : RetiredIdSet.Records engine.retired market.retired

theorem shows_new : Shows (MatchingEngine.new : MatchingEngine maxOrders maxPriceLevels) Market.empty := by
  have kept : Kept (OrderBook.new : OrderBook maxOrders maxPriceLevels) (fun _ => []) := kept_new
  refine ⟨sound_new,Exchange.ext ?_ rfl,RetiredIdSet.records_new maxOrders.positive⟩
  funext s
  change resting OrderBook.new s = []
  rw [kept.resting_eq]
  rfl

/-- Every sound engine shows some market. -/
theorem shows_of_sound {engine : MatchingEngine maxOrders maxPriceLevels} (sound : Sound engine) :
    ∃ market, Shows engine market := by
  obtain ⟨ids,kept⟩ := sound.retired
  exact ⟨⟨view engine,ids⟩,sound,rfl,kept⟩

section
variable {engine : MatchingEngine maxOrders maxPriceLevels} {market : Market}

/-- One call on the engine is one step of the market. -/
theorem step_shows (shown : Shows engine market) (command : Command) :
    ∃ engine', step engine command = some ((market.step maxOrders maxPriceLevels command).1,engine') ∧
      Shows engine' (market.step maxOrders maxPriceLevels command).2 := by
  cases command with
  | newOrder m =>
    rcases processNewOrderChecked_spec shown.sound m with ⟨reason,invalid,ran⟩ | ⟨valid,engine',ran,sound',viewed,retired⟩
    · refine ⟨engine,?_,?_⟩
      · simp only [step,Market.step,Market.newOrder,invalid]
        exact ran
      · simp only [Market.step,Market.newOrder,invalid]
        exact shown
    · refine ⟨engine',?_,?_⟩
      · simp only [step,Market.step,Market.newOrder,valid,← shown.viewed]
        exact ran
      · simp only [Market.step,Market.newOrder,valid,← shown.viewed]
        exact ⟨sound',viewed,retired market.retired shown.records⟩
  | cancelOrder c =>
    rcases processCancelOrder_spec shown.sound c with ⟨e,engine',ran,sound',taken,retired⟩ | ⟨known,asked,ran,missing⟩
    · rw [shown.viewed] at taken
      refine ⟨engine',?_,?_⟩
      · simp only [step,Market.step,Market.cancelOrder,taken]
        exact ran
      · simp only [Market.step,Market.cancelOrder,taken]
        exact ⟨sound',rfl,retired market.retired shown.records⟩
    · rw [shown.viewed] at missing
      have told := shown.records.contains_eq maxOrders.positive c.orderId
      rw [asked] at told
      cases told
      refine ⟨engine,?_,?_⟩
      · simp only [step,Market.step,Market.cancelOrder,missing]
        simpa using ran
      · simp only [Market.step,Market.cancelOrder,missing]
        exact shown

/-- A run of the engine is a run of the market. -/
theorem run_shows (shown : Shows engine market) (commands : List Command) :
    ∃ engine', run engine commands =
        some ((Market.answers (Market.step maxOrders maxPriceLevels) market commands).1,engine') ∧
      Shows engine' (Market.answers (Market.step maxOrders maxPriceLevels) market commands).2 := by
  induction commands generalizing engine market with
  | nil => exact ⟨engine,rfl,shown⟩
  | cons command rest ih =>
    obtain ⟨middle,stepped,next⟩ := step_shows shown command
    obtain ⟨last,ran,after⟩ := ih next
    exact ⟨last,by simp [run,stepped,ran,Market.answers],after⟩

/-- What a run from a new engine returns. -/
theorem shows_of_run {commands : List Command} {outcomes : List Outcome}
    (ran : run MatchingEngine.new commands = some (outcomes,engine)) :
    outcomes = (Market.answers (Market.step maxOrders maxPriceLevels) Market.empty commands).1 ∧
      Shows engine (Market.answers (Market.step maxOrders maxPriceLevels) Market.empty commands).2 := by
  have start : Shows (MatchingEngine.new : MatchingEngine maxOrders maxPriceLevels) Market.empty := shows_new
  obtain ⟨engine',ran',shown⟩ := run_shows start commands
  obtain ⟨rfl,rfl⟩ := Prod.mk.inj (Option.some.inj (ran.symm.trans ran'))
  exact ⟨rfl,shown⟩

theorem Shows.walks (shown : Shows engine market) (s : Side) : resting engine.book s = market.exchange.walks s := by
  rw [← shown.viewed]
  rfl

theorem Shows.contains (shown : Shows engine market) (id : UInt64) :
    engine.retired.contains id = some (decide (id ∈ market.retired)) :=
  shown.records.contains_eq maxOrders.positive id
end

end HyperMatch.Matching
