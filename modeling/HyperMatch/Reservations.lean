import HyperMatch.GatewayBook
import HyperMatch.Identifiers

/-!
The identifiers that the gateway holds while the server runs. `post_order` reserves an
identifier before it knows whether the order will ever go live; no step of the server
gives one back.
-/
namespace HyperMatch.Reservations
open HyperMatch.Wire HyperMatch.Matching HyperMatch.Streams HyperMatch.GatewayBook HyperMatch.Runs
open HyperMatch.OrderBook (PoolCapacity)

variable {maxOrders maxPriceLevels : PoolCapacity} {s s' : System maxOrders maxPriceLevels}

/-! ### Reservations stay -/

theorem prepare_inUse {app app' : AppState} {responder : Nat} {command : Command}
    (prepared : app.prepare responder command = some app') : app'.gateway = app.gateway := by
  obtain ⟨_,entry,_,_,_,rfl⟩ := prepare_some prepared
  rfl

theorem prepareReplay_inUse (app : AppState) (responder : Nat) (record : JournalRecord) :
    app.gateway.inUse ⊆ (app.prepareReplay responder record).1.gateway.inUse := by
  cases record with
  | New orderId side priceTicks quantity =>
    have reserved : app.gateway.inUse ⊆ (app.gateway.reserve orderId).2.inUse := by
      rw [(Gateway.reserve_spec app.gateway orderId).1]
      exact Finset.subset_insert _ _
    rw [AppState.prepareReplay]
    dsimp only
    split
    · exact reserved
    · rename_i app' prepared
      rw [prepare_inUse prepared]
      exact reserved
  | Cancel orderId =>
    rw [AppState.prepareReplay]
    split
    · exact Finset.Subset.refl _
    · rename_i app' prepared
      rw [prepare_inUse prepared]

theorem traffic_inUse {event : Traffic} (ran : s.traffic event = some s') :
    s.app.gateway.inUse ⊆ s'.app.gateway.inUse := by
  obtain ⟨_,same⟩ | ⟨_,_,same⟩ | ⟨m,_,_,inUse⟩ := asked_step ran
  · rw [same]
  · rw [same]
  · rw [inUse]
    exact Finset.subset_insert _ _

theorem write_app (s : System maxOrders maxPriceLevels) (frame : Frame) : (s.write frame).app = s.app := by
  rw [System.write]
  split
  · rfl
  · rfl

theorem link_inUse {event : Link} (ran : s.link event = some s') : s.app.gateway.inUse ⊆ s'.app.gateway.inUse := by
  cases event with
  | connect readable =>
    obtain ⟨_,⟨_,rfl⟩ | ⟨records,_,rfl⟩⟩ := System.connect_cases ran
    · exact Finset.Subset.refl _
    · exact Finset.Subset.refl _
  | connectFails =>
    obtain ⟨_,rfl⟩ := System.connectFails_cases ran
    exact Finset.Subset.refl _
  | replayNext =>
    obtain ⟨record,rest,app,_,⟨prepared,rfl⟩ | ⟨command,prepared,rfl⟩⟩ := System.replayNext_cases ran
    · have grown := prepareReplay_inUse s.app s.requests.length record
      rwa [prepared] at grown
    · have grown := prepareReplay_inUse s.app s.requests.length record
      rw [prepared] at grown
      rw [write_app]
      exact grown
  | replayNextFails =>
    obtain ⟨record,rest,app,command,_,_,prepared,rfl⟩ := System.replayNextFails_cases ran
    have grown := prepareReplay_inUse s.app s.requests.length record
    rwa [prepared] at grown
  | replayAwaited =>
    obtain ⟨_,_,_,rfl⟩ := System.replayAwaited_cases ran
    exact Finset.Subset.refl _
  | endRestore =>
    obtain ⟨_,rfl⟩ | ⟨_,rfl⟩ := System.endRestore_cases ran
    · exact Finset.Subset.refl _
    · exact Finset.Subset.refl _
  | abandon =>
    obtain ⟨_,rfl⟩ := System.abandon_cases ran
    exact Finset.Subset.refl _
  | serve =>
    obtain ⟨_,rfl⟩ := System.serve_cases ran
    exact Finset.Subset.refl _
  | forwardFails =>
    obtain ⟨_,_,_,_,_,rfl⟩ := System.forwardFails_cases ran
    exact Finset.Subset.refl _
  | readerEnds =>
    obtain ⟨_,_,_,rfl⟩ := System.readerEnds_cases ran
    exact Finset.Subset.refl _
  | disconnect =>
    obtain ⟨_,rfl⟩ := System.disconnect_cases ran
    exact Finset.Subset.refl _
  | failAll =>
    obtain ⟨_,rfl⟩ := System.failAll_cases ran
    exact Finset.Subset.refl _
  | cut frames events =>
    obtain ⟨_,rfl⟩ := System.cut_cases ran
    exact Finset.Subset.refl _
  | processStray =>
    obtain ⟨_,_,_,_,_,_,rfl⟩ := System.processStray_cases ran
    exact Finset.Subset.refl _
  | restartEngine =>
    obtain ⟨_,rfl⟩ := System.restartEngine_cases ran
    exact Finset.Subset.refl _

/-- No step gives an identifier back. -/
theorem step_inUse {event : Event} (ran : s.step event = some s') : s.app.gateway.inUse ⊆ s'.app.gateway.inUse := by
  cases event with
  | traffic event => exact traffic_inUse ran
  | link event => exact link_inUse ran

/-- Any run. -/
abbrev Runs (s s' : System maxOrders maxPriceLevels) : Prop := Leads System.step (fun _ _ => True) s s'

theorem runs_inUse (run : Runs s s') : s.app.gateway.inUse ⊆ s'.app.gateway.inUse := by
  refine run.keeps (P := fun t => s.app.gateway.inUse ⊆ t.app.gateway.inUse) (Finset.Subset.refl _) ?_
  intro t event t' grown _ taken
  exact grown.trans (step_inUse taken)

/-! ### Orders that never go live -/

/-- The call of request `n` ends and no order is live: the handler finds the engine
    disconnected, or the identifier in flight, or receives a reject. -/
def EndsWithoutOrder (n : Nat) (s s' : System maxOrders maxPriceLevels) : Prop :=
  (s.traffic (.check n) = some s' ∧ (s'.requests[n]?.map Request.phase) = some .unavailable) ∨
    (s.traffic (.register n) = some s' ∧ (s'.requests[n]?.map Request.phase) = some .unavailable) ∨
    (s.traffic (.receive n) = some s' ∧ ∃ reply reject, s'.requests[n]?.bind Request.mailbox = some reply ∧
      reply.terminator = .reject reject)

/-- A body that names an identifier in use is refused. -/
theorem acceptNewOrder_duplicate {gateway : Gateway} {body : JsonBody} {id : UInt64}
    (named : Gateway.suppliedId body = some id) (taken : id ∈ gateway.inUse) :
    gateway.acceptNewOrder body = some (.error (.DuplicateOrderId id),gateway) := by
  rw [Gateway.suppliedId] at named
  split at named
  · cases named
  · rename_i side priceTicks quantity field parsed
    rw [Gateway.acceptNewOrder,Gateway.handleNewOrder,parsed]
    simp [Gateway.resolveOrderId_named named,taken]

theorem postOrder_reserves {body : JsonBody} {m : NewOrder} {gateway : Gateway}
    (accepted : s.app.gateway.acceptNewOrder body = some (.ok m,gateway))
    (posted : s.step (.traffic (.postOrder body)) = some s') :
    m.orderId ∉ s.app.gateway.inUse ∧ m.orderId ∈ s'.app.gateway.inUse := by
  have stored : s'.app.gateway = gateway := by
    simp only [System.step,System.traffic,accepted,Option.bind_eq_bind,Option.bind_some,pure,Option.some.injEq] at posted
    rw [← posted]
  obtain ⟨_,wrong,_⟩ | ⟨m',same,free,inUse,_⟩ := Gateway.acceptNewOrder_spec accepted
  · cases wrong
  · cases same
    refine ⟨free,?_⟩
    rw [stored,inUse]
    exact Finset.mem_insert_self _ _

/-- From every state, an order that the gateway accepts and that never goes live leaves
    its identifier in use, which it was not before, and every later order that names the
    identifier is refused as a duplicate. -/
theorem identifier_burnt {body : JsonBody} {m : NewOrder} {gateway : Gateway} {posted before after : System maxOrders maxPriceLevels}
    (accepted : s.app.gateway.acceptNewOrder body = some (.ok m,gateway))
    (arrived : s.step (.traffic (.postOrder body)) = some posted) (during : Runs posted before)
    (ended : EndsWithoutOrder s.requests.length before after) :
    s.app.gateway.isInUse m.orderId = false ∧ after.app.gateway.isInUse m.orderId = true ∧
      ∀ later, Runs after later → ∀ retry, Gateway.suppliedId retry = some m.orderId →
        later.app.gateway.acceptNewOrder retry = some (.error (.DuplicateOrderId m.orderId),later.app.gateway) := by
  obtain ⟨free,reserved⟩ := postOrder_reserves accepted arrived
  have still : m.orderId ∈ after.app.gateway.inUse := by
    have kept := runs_inUse during reserved
    rcases ended with ⟨ran,_⟩ | ⟨ran,_⟩ | ⟨ran,_⟩
    · exact traffic_inUse ran kept
    · exact traffic_inUse ran kept
    · exact traffic_inUse ran kept
  refine ⟨by simp [Gateway.isInUse,free],by simp [Gateway.isInUse,still],?_⟩
  intro later run retry named
  exact acceptNewOrder_duplicate named (runs_inUse run still)

/-- An order that names its identifier. -/
def named : JsonBody :=
  .object (some (.string "buy")) (some (.number none (some 100))) (some (.number (some 5) none)) (some (.number (some 7) none))

/-- While the engine is not connected, an order is answered with 503 after its identifier was reserved. -/
theorem disconnected_ends : ∃ posted after : System .four .four,
    (System.new none : System .four .four).step (.traffic (.postOrder named)) = some posted ∧
      EndsWithoutOrder 0 posted after ∧ after.app.gateway.isInUse 7 = true := by
  have ran : ((System.new none : System .four .four).step (.traffic (.postOrder named))).bind (fun posted =>
      (posted.traffic (.check 0)).map (fun after =>
        (after.requests[0]?.map Request.phase,after.app.gateway.isInUse 7))) = some (some .unavailable,true) := by
    decide +kernel
  obtain ⟨posted,arrived,checked⟩ := Option.bind_eq_some_iff.mp ran
  obtain ⟨after,ended,result⟩ := Option.map_eq_some_iff.mp checked
  rw [Prod.mk.injEq] at result
  exact ⟨posted,after,arrived,.inl ⟨ended,result.1⟩,result.2⟩

theorem identifier_burnt_retry : ∃ posted after : System .four .four,
    (System.new none : System .four .four).step (.traffic (.postOrder named)) = some posted ∧
      EndsWithoutOrder 0 posted after ∧ after.app.gateway.isInUse 7 = true ∧
      after.app.gateway.acceptNewOrder named = some (.error (.DuplicateOrderId 7),after.app.gateway) := by
  obtain ⟨posted,after,arrived,ended,_⟩ := disconnected_ends
  have accepted : (System.new none : System .four .four).app.gateway.acceptNewOrder named =
      some (.ok ⟨7,.Buy,100,5,0⟩,⟨{7},1,1⟩) := rfl
  obtain ⟨_,burnt,refused⟩ := identifier_burnt accepted arrived .start ended
  exact ⟨posted,after,arrived,ended,burnt,refused after .start named rfl⟩

/-- The order of a call that was answered with 503 changes what is in use, and the same body is refused. -/
theorem identifier_not_released : ∃ posted after : System .four .four,
    (System.new none : System .four .four).step (.traffic (.postOrder named)) = some posted ∧
      EndsWithoutOrder 0 posted after ∧
      after.app.gateway.isInUse 7 ≠ (System.new none : System .four .four).app.gateway.isInUse 7 ∧
      after.app.gateway.acceptNewOrder named = some (.error (.DuplicateOrderId 7),after.app.gateway) := by
  obtain ⟨posted,after,arrived,ended,burnt⟩ := disconnected_ends
  refine ⟨posted,after,arrived,ended,?_,acceptNewOrder_duplicate rfl (of_decide_eq_true burnt)⟩
  rw [burnt]
  decide

end HyperMatch.Reservations
