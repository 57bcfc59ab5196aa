import Mathlib.Algebra.Group.Nat.Defs
import HyperMatch.Gateway

/-!
Order identifiers over whole histories of a gateway. Clients supply identifiers, the
gateway assigns them with a cursor that wraps, and the journal reserves them; all of
them are in one set. As long as some identifier is not in use every call returns, and
no identifier is given out twice.
-/
namespace HyperMatch.Gateway
open HyperMatch.Wire

/-! ### The search for a free identifier -/

/-- A search that finds nothing has met only identifiers in use. -/
theorem firstFree_none {inUse : Finset UInt64} {bound : Nat} {start : UInt64} (none : firstFree inUse bound start = .none) :
    ∀ k, k < bound → start + UInt64.ofNat k ∈ inUse := by
  induction bound generalizing start with
  | zero => exact fun k below => absurd below (Nat.not_lt_zero k)
  | succ bound ih =>
    unfold firstFree at none
    split_ifs at none with taken
    intro k below
    cases k with
    | zero => simpa using taken
    | succ k =>
      have later := ih none k (Nat.lt_of_succ_lt_succ below)
      rw [UInt64.ofNat_add,UInt64.add_comm (UInt64.ofNat k),← UInt64.add_assoc]
      exact later

/-- The cursor meets an identifier that is not in use before it has gone around. -/
theorem firstFree_found {inUse : Finset UInt64} (few : inUse.card < 2^64) (start : UInt64) :
    ∃ id, firstFree inUse (inUse.card + 1) start = some id := by
  cases found : firstFree inUse (inUse.card + 1) start with
  | some id => exact ⟨id,rfl⟩
  | none =>
    have met := firstFree_none found
    have distinct : Set.InjOn (fun k => start + UInt64.ofNat k) (Finset.range (inUse.card + 1)) := by
      intro k inK j inJ same
      rw [Finset.coe_range,Set.mem_Iio] at inK inJ
      have equal : UInt64.ofNat k = UInt64.ofNat j := (UInt64.add_right_inj start).mp same
      rw [← UInt64.toNat_inj,UInt64.toNat_ofNat_of_lt' (by simp only [UInt64.size]; omega),
        UInt64.toNat_ofNat_of_lt' (by simp only [UInt64.size]; omega)] at equal
      exact equal
    have many : (Finset.range (inUse.card + 1)).card ≤ inUse.card := by
      apply Finset.card_le_card_of_injOn _ _ distinct
      intro k inK
      rw [Finset.coe_range,Set.mem_Iio] at inK
      exact met k inK
    rw [Finset.card_range] at many
    omega

theorem assignUniqueId_returns {gateway : Gateway} (few : gateway.inUse.card < 2^64) :
    ∃ id, gateway.assignUniqueId = some (id,{ gateway with nextAutoId := id + 1 }) := by
  obtain ⟨id,found⟩ := firstFree_found few gateway.nextAutoId
  exact ⟨id,by simp [assignUniqueId,found]⟩

/-! ### One order -/

theorem parsePrice_ok {field : Option JsonValue} {ticks : UInt64} (parsed : parsePrice field = .ok ticks) : PriceOk ticks := by
  unfold parsePrice at parsed
  split at parsed
  · cases parsed
  · split_ifs at parsed with ranged
    cases parsed
    exact ranged
  · cases parsed

theorem parseQuantity_ok {field : Option JsonValue} {quantity : UInt32} (parsed : parseQuantity field = .ok quantity) :
    QuantityOk quantity := by
  unfold parseQuantity at parsed
  split at parsed
  · cases parsed
  · rename_i wide _ _
    split_ifs at parsed with ranged
    cases parsed
    simp only [UInt64.le_iff_toNat_le,UInt32.toNat_toUInt64,limits.kMinGatewayQuantity,limits.kMaxGatewayQuantity] at ranged
    have small : wide.toNat % 2^32 = wide.toNat := Nat.mod_eq_of_lt (lt_of_le_of_lt ranged.2 (by decide))
    simp only [QuantityOk,UInt32.le_iff_toNat_le,UInt64.toNat_toUInt32,small,limits.kMinGatewayQuantity,
      limits.kMaxGatewayQuantity]
    exact ranged
  · cases parsed

/-- The identifier that an `order_id` field names. -/
def namedId (field : Option JsonValue) : Option UInt64 :=
  match present field with
  | some (.number (some supplied) _) => some supplied
  | _ => none

/-- The identifier that a body with valid fields supplies. -/
def suppliedId (body : JsonBody) : Option UInt64 :=
  match parseFields body with
  | .error _ => none
  | .ok (_,_,_,field) => namedId field

theorem resolveOrderId_named {gateway : Gateway} {field : Option JsonValue} {id : UInt64} (named : namedId field = some id) :
    gateway.resolveOrderId field =
      some (if id ∈ gateway.inUse then .error (.DuplicateOrderId id) else .ok id,gateway) := by
  unfold namedId at named
  split at named
  · rename_i supplied _ number
    obtain rfl := Option.some.inj named
    simp only [resolveOrderId,number]
    split_ifs <;> rfl
  · cases named

theorem parseFields_ok {body : JsonBody} {side : Side} {priceTicks : UInt64} {quantity : UInt32} {field : Option JsonValue}
    (parsed : parseFields body = .ok (side,priceTicks,quantity,field)) : PriceOk priceTicks ∧ QuantityOk quantity := by
  unfold parseFields at parsed
  split at parsed
  · cases parsed
  · cases parsed
  · rename_i sideField priceField quantityField idField
    cases sideParsed : parseSide sideField with
    | error e => simp [sideParsed,bind,Except.bind] at parsed
    | ok parsedSide =>
      cases priceParsed : parsePrice priceField with
      | error e => simp [sideParsed,priceParsed,bind,Except.bind] at parsed
      | ok ticks =>
        cases quantityParsed : parseQuantity quantityField with
        | error e => simp [sideParsed,priceParsed,quantityParsed,bind,Except.bind] at parsed
        | ok amount =>
          simp only [sideParsed,priceParsed,quantityParsed,bind,Except.bind,pure,Except.pure,Except.ok.injEq,
            Prod.mk.injEq] at parsed
          obtain ⟨rfl,rfl,rfl,rfl⟩ := parsed
          exact ⟨parsePrice_ok priceParsed,parseQuantity_ok quantityParsed⟩

/-- What an answer to a body is: an error that changes nothing, and that is about the
    supplied identifier only when that is in use; or an order in range under an
    identifier that was not in use, the supplied one if there is one. -/
def Handled (gateway : Gateway) (body : JsonBody) (gateway' : Gateway) : Except GatewayError ValidatedOrder → Prop
  | .error e => gateway' = gateway ∧ ∀ id, suppliedId body = some id → id ∈ gateway.inUse ∧ e = .DuplicateOrderId id
  | .ok order => order.orderId ∉ gateway.inUse ∧ (∀ id, suppliedId body = some id → order.orderId = id) ∧
      PriceOk order.priceTicks ∧ QuantityOk order.quantity ∧ gateway'.inUse = insert order.orderId gateway.inUse ∧
      gateway'.nextSeq = gateway.nextSeq

theorem handleNewOrder_handled {gateway gateway' : Gateway} {body : JsonBody} {handled : Except GatewayError ValidatedOrder}
    (ran : gateway.handleNewOrder body = some (handled,gateway')) : Handled gateway body gateway' handled := by
  unfold handleNewOrder at ran
  cases parsed : parseFields body with
  | error e =>
    rw [parsed] at ran
    obtain ⟨rfl,rfl⟩ := Prod.mk.inj (Option.some.inj ran)
    refine ⟨rfl,?_⟩
    simp [suppliedId,parsed]
  | ok fields =>
    obtain ⟨side,priceTicks,quantity,field⟩ := fields
    obtain ⟨price,amount⟩ := parseFields_ok parsed
    rw [parsed] at ran
    simp only [Option.bind_eq_bind,Option.bind_eq_some_iff] at ran
    obtain ⟨⟨resolved,middle⟩,resolving,rest⟩ := ran
    obtain ⟨inUse,nextSeq,free,unchanged⟩ := resolveOrderId_spec resolving
    have supplies : suppliedId body = namedId field := by simp [suppliedId,parsed]
    cases resolved with
    | error e =>
      obtain ⟨rfl,rfl⟩ := Prod.mk.inj (Option.some.inj rest)
      refine ⟨unchanged ⟨e,rfl⟩,?_⟩
      intro id supplied
      rw [resolveOrderId_named (supplies.symm.trans supplied)] at resolving
      by_cases taken : id ∈ gateway.inUse
      · rw [if_pos taken] at resolving
        cases resolving
        exact ⟨taken,rfl⟩
      · rw [if_neg taken] at resolving
        cases (Prod.mk.inj (Option.some.inj resolving)).1
    | ok orderId =>
      obtain ⟨rfl,rfl⟩ := Prod.mk.inj (Option.some.inj rest)
      refine ⟨free orderId rfl,?_,price,amount,by rw [inUse],nextSeq⟩
      intro id supplied
      rw [resolveOrderId_named (supplies.symm.trans supplied)] at resolving
      by_cases taken : id ∈ gateway.inUse
      · rw [if_pos taken] at resolving
        cases (Prod.mk.inj (Option.some.inj resolving)).1
      · rw [if_neg taken] at resolving
        cases (Prod.mk.inj (Option.some.inj resolving)).1
        rfl

theorem resolveOrderId_returns {gateway : Gateway} (few : gateway.inUse.card < 2^64) (field : Option JsonValue) :
    ∃ result, gateway.resolveOrderId field = some result := by
  unfold resolveOrderId
  split
  · obtain ⟨id,assigned⟩ := assignUniqueId_returns few
    exact ⟨_,by rw [assigned]; rfl⟩
  · split_ifs <;> exact ⟨_,rfl⟩
  · exact ⟨_,rfl⟩

theorem handleNewOrder_returns {gateway : Gateway} (few : gateway.inUse.card < 2^64) (body : JsonBody) :
    ∃ handled gateway', gateway.handleNewOrder body = some (handled,gateway') := by
  unfold handleNewOrder
  cases parsed : parseFields body with
  | error e => exact ⟨_,_,rfl⟩
  | ok fields =>
    obtain ⟨side,priceTicks,quantity,field⟩ := fields
    obtain ⟨⟨resolved,middle⟩,resolving⟩ := resolveOrderId_returns few field
    simp only [resolving,Option.bind_eq_bind,Option.bind_some]
    cases resolved with
    | error e => exact ⟨_,_,rfl⟩
    | ok id => exact ⟨_,_,rfl⟩

/-! ### Histories -/

inductive Call where
  | handleNewOrder (body : JsonBody)
  | acceptNewOrder (body : JsonBody)
  | reserve (orderId : UInt64)
  deriving Repr, DecidableEq

inductive Result where
  | validated (order : ValidatedOrder)
  | forwarded (message : NewOrder)
  | rejected (error : GatewayError)
  | reserved (fresh : Bool)
  deriving Repr, DecidableEq

def call (gateway : Gateway) : Call → Option (Result × Gateway)
  | .handleNewOrder body => do
    let (handled,gateway) ← gateway.handleNewOrder body
    match handled with
    | .ok order => return (.validated order,gateway)
    | .error e => return (.rejected e,gateway)
  | .acceptNewOrder body => do
    let (accepted,gateway) ← gateway.acceptNewOrder body
    match accepted with
    | .ok message => return (.forwarded message,gateway)
    | .error e => return (.rejected e,gateway)
  | .reserve orderId => some (.reserved (gateway.reserve orderId).1,(gateway.reserve orderId).2)

def Call.body : Call → Option JsonBody
  | .handleNewOrder body => some body
  | .acceptNewOrder body => some body
  | .reserve _ => none

/-- The identifier that a call gives out or reserves. -/
def given : Call × Result → Option UInt64
  | (_,.validated order) => some order.orderId
  | (_,.forwarded message) => some message.orderId
  | (.reserve orderId,.reserved true) => some orderId
  | _ => none

/-- The gateways that calls reach, with the calls and their results so far. -/
inductive Served : List (Call × Result) → Gateway → Prop
  | new : Served [] Gateway.new
  | call {history : List (Call × Result)} {gateway gateway' : Gateway} {c : Call} {result : Result}
      (served : Served history gateway) (ran : gateway.call c = some (result,gateway')) :
      Served (history ++ [(c,result)]) gateway'

/-- What a call does. A call that gives nothing out changes nothing. What one gives out
    was not in use and is then, and it is the supplied identifier if there is one; a
    supplied identifier in use is a duplicate. Orders are in range, and what is
    forwarded has the next stamp. -/
structure Answers (gateway : Gateway) (c : Call) (result : Result) (gateway' : Gateway) : Prop where
  unchanged : given (c,result) = none → gateway' = gateway
  rejected : ∀ e, result = .rejected e → given (c,result) = none
  fresh : ∀ id, given (c,result) = some id → id ∉ gateway.inUse ∧ gateway'.inUse = insert id gateway.inUse
  preserved : ∀ body id, c.body = some body → suppliedId body = some id → id ∉ gateway.inUse → given (c,result) = some id
  duplicate : ∀ body id, c.body = some body → suppliedId body = some id → id ∈ gateway.inUse →
    result = .rejected (.DuplicateOrderId id)
  validated : ∀ order, result = .validated order →
    InRange (.newOrder (gateway'.newOrderMessage order).1) ∧ gateway'.nextSeq = gateway.nextSeq
  forwarded : ∀ message, result = .forwarded message →
    InRange (.newOrder message) ∧ message.seq = gateway.nextSeq ∧ gateway'.nextSeq = gateway.nextSeq + 1

section
variable {gateway gateway' : Gateway} {body : JsonBody} {c : Call}

theorem given_rejected (c : Call) (e : GatewayError) : given (c,.rejected e) = none := by cases c <;> rfl

theorem refused_answers {e : GatewayError} (asked : c.body = some body) (handled : Handled gateway body gateway' (.error e)) :
    Answers gateway c (.rejected e) gateway' := by
  obtain ⟨same,duplicate⟩ := handled
  refine ⟨fun _ => same,fun _ _ => given_rejected c e,?_,?_,?_,nofun,nofun⟩
  · intro id gave
    rw [given_rejected] at gave
    cases gave
  · intro other id asked' supplied free
    cases asked.symm.trans asked'
    exact absurd (duplicate id supplied).1 free
  · intro other id asked' supplied _
    cases asked.symm.trans asked'
    rw [(duplicate id supplied).2]

/-- An order given out, as the two calls return it. -/
theorem accepted_answers {order : ValidatedOrder} {middle : Gateway} {result : Result} (asked : c.body = some body)
    (handled : Handled gateway body middle (.ok order)) (gave : given (c,result) = some order.orderId)
    (inUse : gateway'.inUse = middle.inUse)
    (validated : ∀ other, result = .validated other → other = order ∧ gateway' = middle)
    (forwarded : ∀ message, result = .forwarded message → (message,gateway') = middle.newOrderMessage order) :
    Answers gateway c result gateway' := by
  obtain ⟨free,preserved,price,amount,inserted,nextSeq⟩ := handled
  refine ⟨?_,?_,?_,?_,?_,?_,?_⟩
  · intro nothing
    cases gave.symm.trans nothing
  · rintro e rfl
    rw [given_rejected] at gave
    cases gave
  · intro id gives
    cases gave.symm.trans gives
    exact ⟨free,inUse.trans inserted⟩
  · intro other id asked' supplied _
    cases asked.symm.trans asked'
    rw [gave,preserved id supplied]
  · intro other id asked' supplied taken
    cases asked.symm.trans asked'
    rw [preserved id supplied] at free
    exact absurd taken free
  · intro other shown
    obtain ⟨rfl,rfl⟩ := validated other shown
    exact ⟨⟨price,amount⟩,nextSeq⟩
  · intro message shown
    obtain ⟨rfl,rfl⟩ := Prod.mk.inj (forwarded message shown)
    exact ⟨⟨price,amount⟩,nextSeq,congrArg (· + 1) nextSeq⟩

theorem reserve_taken {orderId : UInt64} (taken : orderId ∈ gateway.inUse) : gateway.reserve orderId = (false,gateway) := by
  simp [reserve,taken]

theorem reserve_free {orderId : UInt64} (free : orderId ∉ gateway.inUse) : (gateway.reserve orderId).1 = true := by
  unfold reserve
  rw [if_neg free]
  simp only
  split_ifs <;> rfl

theorem reserve_answers (gateway : Gateway) (orderId : UInt64) :
    Answers gateway (.reserve orderId) (.reserved (gateway.reserve orderId).1) (gateway.reserve orderId).2 := by
  obtain ⟨inserted,_⟩ := reserve_spec gateway orderId
  have bodiless : ∀ body, Call.body (.reserve orderId) ≠ some body := by simp [Call.body]
  by_cases taken : orderId ∈ gateway.inUse
  · rw [reserve_taken taken]
    refine ⟨fun _ => rfl,by simp,by simp [given],?_,?_,by simp,by simp⟩
    · exact fun body _ asked => absurd asked (bodiless body)
    · exact fun body _ asked => absurd asked (bodiless body)
  · rw [reserve_free taken]
    refine ⟨by simp [given],by simp,?_,?_,?_,by simp,by simp⟩
    · intro id gave
      obtain rfl := Option.some.inj gave
      exact ⟨taken,inserted⟩
    · exact fun body _ asked => absurd asked (bodiless body)
    · exact fun body _ asked => absurd asked (bodiless body)

theorem call_answers {result : Result} (ran : gateway.call c = some (result,gateway')) : Answers gateway c result gateway' := by
  cases c with
  | handleNewOrder body =>
    simp only [call,Option.bind_eq_bind,Option.bind_eq_some_iff] at ran
    obtain ⟨⟨handled,after⟩,handling,rest⟩ := ran
    have known := handleNewOrder_handled handling
    cases handled with
    | error e =>
      obtain ⟨rfl,rfl⟩ := Prod.mk.inj (Option.some.inj rest)
      exact refused_answers rfl known
    | ok order =>
      obtain ⟨rfl,rfl⟩ := Prod.mk.inj (Option.some.inj rest)
      refine accepted_answers rfl known rfl rfl ?_ (by simp)
      intro other same
      cases same
      exact ⟨rfl,rfl⟩
  | acceptNewOrder body =>
    simp only [call,acceptNewOrder,Option.bind_eq_bind,Option.bind_eq_some_iff] at ran
    obtain ⟨⟨accepted,last⟩,⟨⟨handled,after⟩,handling,stamping⟩,rest⟩ := ran
    have known := handleNewOrder_handled handling
    cases handled with
    | error e =>
      obtain ⟨rfl,rfl⟩ := Prod.mk.inj (Option.some.inj stamping)
      obtain ⟨rfl,rfl⟩ := Prod.mk.inj (Option.some.inj rest)
      exact refused_answers rfl known
    | ok order =>
      obtain ⟨rfl,rfl⟩ := Prod.mk.inj (Option.some.inj stamping)
      obtain ⟨rfl,rfl⟩ := Prod.mk.inj (Option.some.inj rest)
      refine accepted_answers rfl known rfl rfl (by simp) ?_
      intro message same
      cases same
      rfl
  | reserve orderId =>
    obtain ⟨rfl,rfl⟩ := Prod.mk.inj (Option.some.inj ran)
    exact reserve_answers gateway orderId

theorem call_returns (few : gateway.inUse.card < 2^64) (c : Call) :
    ∃ result gateway', gateway.call c = some (result,gateway') := by
  cases c with
  | handleNewOrder body =>
    obtain ⟨handled,after,handling⟩ := handleNewOrder_returns few body
    cases handled with
    | error e => exact ⟨.rejected e,after,by simp [call,handling]⟩
    | ok order => exact ⟨.validated order,after,by simp [call,handling]⟩
  | acceptNewOrder body =>
    obtain ⟨handled,after,handling⟩ := handleNewOrder_returns few body
    cases handled with
    | error e => exact ⟨.rejected e,after,by simp [call,acceptNewOrder,handling]⟩
    | ok order =>
      exact ⟨.forwarded (after.newOrderMessage order).1,(after.newOrderMessage order).2,
        by simp [call,acceptNewOrder,handling]⟩
  | reserve orderId => exact ⟨_,_,rfl⟩
end

/-- The identifiers that a history has given out or reserved. -/
def issued (history : List (Call × Result)) : List UInt64 := history.filterMap given

/-- The identifiers in use are those given out, each once. -/
theorem Served.issued {history : List (Call × Result)} {gateway : Gateway} (served : Served history gateway) :
    (issued history).Nodup ∧ ∀ id, id ∈ issued history ↔ id ∈ gateway.inUse := by
  induction served with
  | new => simp [Gateway.issued,Gateway.new]
  | @call history gateway gateway' c result _ ran ih =>
    obtain ⟨distinct,members⟩ := ih
    have answers := call_answers ran
    rw [Gateway.issued,List.filterMap_append]
    cases gave : given (c,result) with
    | none =>
      obtain rfl := answers.unchanged gave
      rw [List.filterMap_cons_none gave,List.filterMap_nil,List.append_nil]
      exact ⟨distinct,members⟩
    | some id =>
      obtain ⟨free,inserted⟩ := answers.fresh id gave
      have absent : id ∉ Gateway.issued history := fun inside => free ((members id).mp inside)
      rw [List.filterMap_cons_some gave,List.filterMap_nil]
      constructor
      · exact List.nodup_append.mpr ⟨distinct,List.nodup_singleton id,by
          rintro a inA b inB rfl
          rw [List.mem_singleton] at inB
          exact absent (inB ▸ inA)⟩
      · intro other
        rw [inserted,Finset.mem_insert,List.mem_append,List.mem_singleton,or_comm,← members other]
        rfl

/-- In every history of a gateway the identifiers given out or reserved are distinct.
    While some identifier is not in use, the search for one ends and every call
    returns, with what it should do (`Answers`). -/
theorem identifiers_never_reissued {history : List (Call × Result)} {gateway : Gateway} (served : Served history gateway) :
    (issued history).Nodup ∧ (∀ id, id ∈ issued history ↔ id ∈ gateway.inUse) ∧
      (gateway.inUse.card < 2^64 → (∃ id, gateway.assignUniqueId = some (id,{ gateway with nextAutoId := id + 1 })) ∧
        ∀ c, ∃ result gateway', gateway.call c = some (result,gateway') ∧ Answers gateway c result gateway') := by
  obtain ⟨distinct,members⟩ := served.issued
  refine ⟨distinct,members,?_⟩
  intro few
  refine ⟨assignUniqueId_returns few,?_⟩
  intro c
  obtain ⟨result,gateway',ran⟩ := call_returns few c
  exact ⟨result,gateway',ran,call_answers ran⟩

/-- A bid without an identifier. -/
def anonymous : JsonBody :=
  .object (some (.string "buy")) (some (.number none (some 100))) (some (.number (some 5) none)) none

/-- The largest identifier reserved, which wraps the cursor to zero. -/
theorem identifiers_never_reissued_wrapped :
    ∃ gateway, Served [(.reserve 18446744073709551615,.reserved true)] gateway ∧ gateway.nextAutoId = 0 ∧
      issued [(.reserve 18446744073709551615,.reserved true)] = [18446744073709551615] ∧
      ∃ result gateway', gateway.call (.acceptNewOrder anonymous) = some (result,gateway') ∧
        Answers gateway (.acceptNewOrder anonymous) result gateway' := by
  have ran : Gateway.new.call (.reserve 18446744073709551615) = some (.reserved true,⟨{18446744073709551615},0,0⟩) := rfl
  have served := Served.new.call ran
  obtain ⟨_,_,answered⟩ := identifiers_never_reissued served
  exact ⟨_,served,rfl,rfl,(answered (by simp)).2 (.acceptNewOrder anonymous)⟩

end HyperMatch.Gateway
