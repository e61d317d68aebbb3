import Nnxt.RunnerSteps

/-!
# Tracking orders within one runner

The engine's counter against the keys of the order map, call by call. A new order
takes the next id, so while nobody names an id before its time it finds no record,
and every record stays that of the order it was made for.
-/

namespace Nnxt.TrackedOrders

set_option autoImplicit false

open HashMap Transition FixedWidth

/-- The new orders applied to the state, in order. -/
def newOrders (calls : List RunnerCall) : List NewOrder :=
  calls.filterMap fun
    | .onActionSent action _ => if action.kind = .newOrder then some action.newOrder else none
    | _ => none

def issuedIds (calls : List RunnerCall) : List UInt64 := (newOrders calls).map (·.orderId)

/-- The state of a new runner after the calls. -/
def stateAfter (calls : List RunnerCall) : RunnerState := (run RunnerView.step .new calls).state

/-- An order event names an id the runner has issued before. -/
def OnlyIssued (calls : List RunnerCall) : Prop :=
  ∀ before event, before ++ [.applyOrderEvent event] <+: calls → event.orderId ∈ issuedIds before

/-- The same order, and no smaller. -/
structure Keeps (old new : Order) : Prop where
  orderId : new.orderId = old.orderId
  instrumentId : new.instrumentId = old.instrumentId
  side : new.side = old.side
  priceType : new.priceType = old.priceType
  limitPrice : new.limitPrice = old.limitPrice
  quantity : old.quantity ≤ new.quantity

/-- The record a new order starts with. -/
def firstRecord (order : NewOrder) : Order := (OrderState.sent order order.timestamp).order

structure FaithfullyTracked (calls : List RunnerCall) : Prop where
  increasing : (issuedIds calls).Pairwise (· < ·)
  fresh : ∀ before action nowNs, before ++ [.onActionSent action nowNs] <+: calls →
    action.kind = .newOrder → (stateAfter before).record action.newOrder.orderId = none
  tracked : ∀ before, before <+: calls → ∀ id,
    (stateAfter before).record id ≠ none ↔ id ∈ issuedIds before
  matching : ∀ before, before <+: calls → ∀ order ∈ newOrders before,
    ∃ st, (stateAfter before).record order.orderId = some st ∧ Keeps (firstRecord order) st.order
  kept : ∀ before later, before <+: later → later <+: calls → ∀ id st,
    (stateAfter before).record id = some st →
      ∃ st', (stateAfter later).record id = some st' ∧ Keeps st.order st'.order

section Orders
variable {a b c : Order}

theorem Keeps.refl (a : Order) : Keeps a a :=
  ⟨rfl, rfl, rfl, rfl, rfl, UInt64.le_refl _⟩

theorem Keeps.trans (h : Keeps a b) (h' : Keeps b c) : Keeps a c where
  orderId := h'.orderId.trans h.orderId
  instrumentId := h'.instrumentId.trans h.instrumentId
  side := h'.side.trans h.side
  priceType := h'.priceType.trans h.priceType
  limitPrice := h'.limitPrice.trans h.limitPrice
  quantity := UInt64.le_trans h.quantity h'.quantity

theorem keeps_cancelSent (nowNs : UInt64) (st : OrderState) :
    Keeps st.order (st.cancelSent nowNs).order := by
  unfold OrderState.cancelSent
  split
  · exact Keeps.refl _
  · exact ⟨rfl, rfl, rfl, rfl, rfl, UInt64.le_refl _⟩

/-- The quantity of an event only ever raises that of the record. -/
theorem keeps_reported (event : OrderEvent) (st : OrderState) :
    Keeps st.order (st.reported event).order := by
  refine ⟨rfl, rfl, rfl, rfl, rfl, ?_⟩
  simp only [OrderState.reported]
  split
  · rename_i hgrows
    exact UInt64.le_of_lt hgrows
  · exact UInt64.le_refl _

theorem keeps_traded (event : TradeEvent) (st : OrderState) :
    Keeps st.order (st.traded event).order :=
  ⟨rfl, rfl, rfl, rfl, rfl, UInt64.le_refl _⟩

end Orders

section Calls
variable {v : RunnerView} {call : RunnerCall} {id : UInt64} {st : OrderState}

theorem record_newOrder {action : Action} (h : action.kind = .newOrder) (nowNs id : UInt64) :
    (v.step (.onActionSent action nowNs)).state.record id =
      if id = action.newOrder.orderId then some (.sent action.newOrder nowNs)
      else v.state.record id := by
  simp only [RunnerView.step, RunnerState.record, RunnerState.onActionSent,
    OrderManager.onActionSent, h, lookup_insert_eq]

/-- A change in place is one of the record or of another one. -/
theorem lookup_modify {m : Map UInt64 OrderState} {f : OrderState → OrderState}
    (hf : ∀ st : OrderState, Keeps st.order (f st).order) (orderId id : UInt64) :
    ∃ g : OrderState → OrderState, (∀ st, Keeps st.order (g st).order) ∧
      (modify orderId f m).lookup id = (m.lookup id).map g := by
  by_cases hid : id = orderId
  · subst hid
    exact ⟨f, hf, lookup_modify_self id f m⟩
  · exact ⟨fun st => st, fun st => Keeps.refl st.order, by rw [lookup_modify_ne hid, Option.map_id']⟩

/-- All that a call does to a record, but for a new order of its id and an order event
of an id without a record. -/
theorem record_step
    (horder : ∀ action nowNs, call = .onActionSent action nowNs → action.kind = .newOrder →
      action.newOrder.orderId ≠ id)
    (hevent : ∀ event, call = .applyOrderEvent event → event.orderId = id →
      v.state.record id ≠ none) :
    ∃ f : OrderState → OrderState, (∀ st, Keeps st.order (f st).order) ∧
      (v.step call).state.record id = (v.state.record id).map f := by
  have hsame : ∀ {s : RunnerState}, s.record id = v.state.record id →
      ∃ f : OrderState → OrderState, (∀ st, Keeps st.order (f st).order) ∧
        s.record id = (v.state.record id).map f := by
    intro s hs
    exact ⟨fun st => st, fun st => Keeps.refl st.order, by rw [hs, Option.map_id']⟩
  cases call with
  | updateMarket book =>
    apply hsame
    rw [RunnerView.step, RunnerState.record, RunnerState.updateMarket_orderManager]
    rfl
  | applyOrderEvent event =>
    by_cases hid : event.orderId = id
    · subst hid
      obtain ⟨st, hst⟩ := Option.ne_none_iff_exists'.mp (hevent event rfl rfl)
      by_cases hseen : event.key ∈ v.state.orderManager.seenFor event.orderId
      · apply hsame
        simp only [RunnerView.step, RunnerState.record, RunnerState.applyOrderEvent,
          OrderManager.applyOrderEvent_of_seen _ hseen]
      · refine ⟨.reported event, keeps_reported event, ?_⟩
        rw [hst, Option.map_some]
        exact OrderManager.lookup_applyOrderEvent_of_new _ hseen hst
    · apply hsame
      exact OrderManager.lookup_applyOrderEvent_ne _ event (Ne.symm hid)
  | applyTradeEvent event =>
    by_cases hseen : event.tradeId ∈ v.state.ledger.fillLedger.seen
    · apply hsame
      simp only [RunnerView.step, RunnerState.applyTradeEvent_of_seen _ hseen]
    · simp only [RunnerView.step, RunnerState.applyTradeEvent_of_new _ hseen]
      exact lookup_modify (keeps_traded event) event.orderId id
  | onActionSent action nowNs =>
    cases hkind : action.kind with
    | newOrder =>
      apply hsame
      rw [record_newOrder hkind, if_neg (horder action nowNs rfl hkind).symm]
    | cancelOrder =>
      simp only [RunnerView.step, RunnerState.record, RunnerState.onActionSent,
        OrderManager.onActionSent, hkind]
      exact lookup_modify (keeps_cancelSent nowNs) action.cancelOrder.orderId id
  | queue call => exact hsame rfl
  | keepQuoteSource source => exact hsame rfl
  | keepOrderEventSource sourceId => exact hsame rfl
  | keepTradeEventSource sourceId => exact hsame rfl
  | keepActionQueue addr => exact hsame rfl

/-- A record outlives every call but a new order of its own id. -/
theorem keeps_step (h : v.state.record id = some st)
    (horder : ∀ action nowNs, call = .onActionSent action nowNs → action.kind = .newOrder →
      action.newOrder.orderId ≠ id) :
    ∃ st', (v.step call).state.record id = some st' ∧ Keeps st.order st'.order := by
  obtain ⟨f, hf, hrecord⟩ := record_step horder fun _ _ _ hnone => by
    rw [h] at hnone
    cases hnone
  exact ⟨f st, by rw [hrecord, h, Option.map_some], hf st⟩

/-- No other call makes a record but an order event of an unknown id. -/
theorem untracked_step (h : v.state.record id = none)
    (horder : ∀ action nowNs, call = .onActionSent action nowNs → action.kind = .newOrder →
      action.newOrder.orderId ≠ id)
    (hevent : ∀ event, call = .applyOrderEvent event → event.orderId ≠ id) :
    (v.step call).state.record id = none := by
  obtain ⟨f, -, hrecord⟩ := record_step horder fun event hcall heq =>
    absurd heq (hevent event hcall)
  rw [hrecord, h, Option.map_none]

end Calls

section Issuing

theorem newOrders_cons (call : RunnerCall) (calls : List RunnerCall) :
    newOrders (call :: calls) = newOrders [call] ++ newOrders calls :=
  List.filterMap_append (l := [call])

theorem newOrders_append (before after : List RunnerCall) :
    newOrders (before ++ after) = newOrders before ++ newOrders after :=
  List.filterMap_append

theorem newOrders_newOrder {action : Action} (h : action.kind = .newOrder) (nowNs : UInt64) :
    newOrders [.onActionSent action nowNs] = [action.newOrder] := by
  simp [newOrders, h]

/-- A call applies one new order or none. -/
theorem newOrders_cases (call : RunnerCall) :
    (∃ action nowNs, call = .onActionSent action nowNs ∧ action.kind = .newOrder ∧
      newOrders [call] = [action.newOrder]) ∨
    ((∀ action nowNs, call = .onActionSent action nowNs → action.kind ≠ .newOrder) ∧
      newOrders [call] = []) := by
  cases call with
  | onActionSent action nowNs =>
    cases hkind : action.kind with
    | newOrder => exact .inl ⟨action, nowNs, rfl, hkind, newOrders_newOrder hkind nowNs⟩
    | cancelOrder =>
      refine .inr ⟨?_, by simp [newOrders, hkind]⟩
      intro _ _ heq
      cases heq
      rw [hkind]
      exact nofun
  | _ => exact .inr ⟨fun _ _ heq => (by cases heq), rfl⟩

theorem nextOrderId_step {v : RunnerView} {call : RunnerCall}
    (h : ∀ action nowNs, call = .onActionSent action nowNs → action.kind ≠ .newOrder) :
    (v.step call).nextOrderId = v.nextOrderId := by
  cases call with
  | onActionSent action nowNs => exact if_neg (h action nowNs rfl)
  | _ => rfl

/-- The ids go up from the counter on while it does not wrap. -/
theorem increasing_of_guarded {v : RunnerView} {calls : List RunnerCall}
    (hguarded : Guarded RunnerView.step RunnerView.Allowed v calls)
    (hfew : v.nextOrderId.toNat + (newOrders calls).length ≤ 2 ^ 64) :
    (issuedIds calls).Pairwise (· < ·) ∧ ∀ id ∈ issuedIds calls, v.nextOrderId ≤ id := by
  induction calls generalizing v with
  | nil => exact ⟨List.Pairwise.nil, fun id hid => absurd hid List.not_mem_nil⟩
  | cons call calls ih =>
    obtain ⟨hallowed, hrest⟩ := guarded_cons.mp hguarded
    rw [newOrders_cons, List.length_append] at hfew
    rcases newOrders_cases call with ⟨action, nowNs, rfl, hkind, hnew⟩ | ⟨hother, hnew⟩
    · have hid : action.newOrder.orderId = v.nextOrderId := hallowed hkind
      have hnext : (v.step (.onActionSent action nowNs)).nextOrderId = v.nextOrderId + 1 :=
        if_pos hkind
      have htoNat : (v.nextOrderId + 1).toNat = (v.nextOrderId.toNat + 1) % 2 ^ 64 := by
        rw [UInt64.toNat_add, UInt64.toNat_one]
      have hlt := v.nextOrderId.toNat_lt
      rw [hnew, List.length_singleton] at hfew
      obtain ⟨hpairwise, hbound⟩ := ih hrest (by rw [hnext]; omega)
      have hlater : ∀ id ∈ issuedIds calls, v.nextOrderId < id := by
        intro id hmem
        have hle := UInt64.le_iff_toNat_le.mp (hbound id hmem)
        have hpos : 0 < (newOrders calls).length := by
          rw [← List.length_map (·.orderId)]
          exact List.length_pos_of_mem hmem
        rw [hnext] at hle
        apply UInt64.lt_iff_toNat_lt.mpr
        omega
      rw [issuedIds, newOrders_cons, hnew, List.singleton_append, List.map_cons, hid]
      refine ⟨List.pairwise_cons.mpr ⟨hlater, hpairwise⟩, ?_⟩
      intro id hmem
      rcases List.mem_cons.mp hmem with rfl | hmem
      · exact UInt64.le_refl _
      · exact UInt64.le_of_lt (hlater id hmem)
    · rw [hnew, List.length_nil, Nat.zero_add] at hfew
      have hsame := nextOrderId_step (v := v) hother
      obtain ⟨hpairwise, hbound⟩ := ih hrest (by rw [hsame]; exact hfew)
      rw [issuedIds, newOrders_cons, hnew, List.nil_append]
      exact ⟨hpairwise, fun id hmem => hsame ▸ hbound id hmem⟩

end Issuing

section Runs
variable {calls before : List RunnerCall}

theorem stateAfter_append (before : List RunnerCall) (call : RunnerCall) :
    stateAfter (before ++ [call]) = ((run RunnerView.step .new before).step call).state := by
  rw [stateAfter, run_append]
  rfl

theorem mem_issuedIds_append (before : List RunnerCall) (call : RunnerCall) (id : UInt64) :
    id ∈ issuedIds (before ++ [call]) ↔ id ∈ issuedIds before ∨ id ∈ issuedIds [call] := by
  rw [issuedIds, newOrders_append, List.map_append, List.mem_append]
  rfl

/-- A record for every id issued and for no other. -/
theorem tracked_of_onlyIssued (hissued : OnlyIssued calls) (hbefore : before <+: calls)
    (id : UInt64) : (stateAfter before).record id ≠ none ↔ id ∈ issuedIds before := by
  induction before using List.reverseRecOn generalizing id with
  | nil => exact iff_of_false (fun h => h rfl) List.not_mem_nil
  | append_singleton before call ih =>
    have hfirst : before <+: calls := (List.prefix_append before [call]).trans hbefore
    rw [stateAfter_append, mem_issuedIds_append, ← ih hfirst id]
    rcases newOrders_cases call with ⟨action, nowNs, rfl, hkind, hnew⟩ | ⟨hother, hnew⟩
    · have hids : issuedIds [.onActionSent action nowNs] = [action.newOrder.orderId] := by
        rw [issuedIds, hnew]
        rfl
      rw [record_newOrder hkind, hids, List.mem_singleton]
      by_cases hid : id = action.newOrder.orderId
      · rw [if_pos hid]
        exact iff_of_true nofun (.inr hid)
      · rw [if_neg hid]
        exact ⟨.inl, fun h => h.resolve_right hid⟩
    · have hids : issuedIds [call] = [] := by
        rw [issuedIds, hnew]
        rfl
      have hneither : ∀ action nowNs, call = .onActionSent action nowNs →
          action.kind = .newOrder → action.newOrder.orderId ≠ id := fun action nowNs heq hkind =>
        absurd hkind (hother action nowNs heq)
      rw [hids, or_iff_left List.not_mem_nil]
      constructor
      · intro hrecord hnone
        apply hrecord
        refine untracked_step hnone hneither ?_
        rintro event rfl heq
        have hknown := (ih hfirst event.orderId).mpr (hissued before event hbefore)
        rw [heq] at hknown
        exact hknown hnone
      · intro hrecord
        obtain ⟨st, hst⟩ := Option.ne_none_iff_exists'.mp hrecord
        obtain ⟨st', hst', -⟩ := keeps_step hst hneither
        rw [hst']
        exact nofun

/-- The id of a new order is none of those before it. -/
theorem fresh_of_increasing (hissued : OnlyIssued calls)
    (hincreasing : (issuedIds calls).Pairwise (· < ·)) {action : Action} {nowNs : UInt64}
    (hbefore : before ++ [.onActionSent action nowNs] <+: calls) (hkind : action.kind = .newOrder) :
    (stateAfter before).record action.newOrder.orderId = none := by
  have hfirst : before <+: calls :=
    (List.prefix_append before [.onActionSent action nowNs]).trans hbefore
  obtain ⟨rest, rfl⟩ := hbefore
  by_contra hrecord
  have hissuedBefore := (tracked_of_onlyIssued hissued hfirst _).mp hrecord
  rw [issuedIds, newOrders_append, newOrders_append, newOrders_newOrder hkind, List.map_append,
    List.map_append] at hincreasing
  have hbeforeId := (List.pairwise_append.mp (List.pairwise_append.mp hincreasing).1).2.2
  exact UInt64.lt_irrefl _ (hbeforeId _ hissuedBefore _ List.mem_cons_self)

/-- A record is kept from any point of the run to any later one. -/
theorem kept_of_fresh {later : List RunnerCall}
    (hfresh : ∀ before action nowNs, before ++ [.onActionSent action nowNs] <+: calls →
      action.kind = .newOrder → (stateAfter before).record action.newOrder.orderId = none)
    (hbefore : before <+: later) (hlater : later <+: calls) {id : UInt64} {st : OrderState}
    (hst : (stateAfter before).record id = some st) :
    ∃ st', (stateAfter later).record id = some st' ∧ Keeps st.order st'.order := by
  obtain ⟨rest, rfl⟩ := hbefore
  induction rest using List.reverseRecOn with
  | nil =>
    rw [List.append_nil]
    exact ⟨st, hst, Keeps.refl _⟩
  | append_singleton rest call ih =>
    rw [← List.append_assoc] at hlater ⊢
    obtain ⟨mid, hmid, hkeeps⟩ := ih ((List.prefix_append _ [call]).trans hlater)
    obtain ⟨st', hst', hkeeps'⟩ := @keeps_step _ call _ _ hmid (by
      rintro action nowNs rfl hkind rfl
      have hnone := hfresh _ action nowNs hlater hkind
      exact absurd (hnone.symm.trans hmid) nofun)
    rw [stateAfter_append]
    exact ⟨st', hst', hkeeps.trans hkeeps'⟩

/-- The record of an order is the one it started with, or a later one of the same order. -/
theorem matching_of_fresh
    (hfresh : ∀ before action nowNs, before ++ [.onActionSent action nowNs] <+: calls →
      action.kind = .newOrder → (stateAfter before).record action.newOrder.orderId = none)
    (hbefore : before <+: calls) {order : NewOrder} (horder : order ∈ newOrders before) :
    ∃ st, (stateAfter before).record order.orderId = some st ∧
      Keeps (firstRecord order) st.order := by
  induction before using List.reverseRecOn with
  | nil => exact absurd horder List.not_mem_nil
  | append_singleton before call ih =>
    rw [newOrders_append, List.mem_append] at horder
    rcases horder with horder | horder
    · obtain ⟨st, hst, hkeeps⟩ := ih ((List.prefix_append before [call]).trans hbefore) horder
      obtain ⟨st', hst', hkeeps'⟩ :=
        kept_of_fresh hfresh (List.prefix_append before [call]) hbefore hst
      exact ⟨st', hst', hkeeps.trans hkeeps'⟩
    · rcases newOrders_cases call with ⟨action, nowNs, rfl, hkind, hnew⟩ | ⟨-, hnew⟩
      · rw [hnew, List.mem_singleton] at horder
        subst horder
        refine ⟨.sent action.newOrder nowNs, ?_, ⟨rfl, rfl, rfl, rfl, rfl, UInt64.le_refl _⟩⟩
        rw [stateAfter_append, record_newOrder hkind, if_pos rfl]
      · rw [hnew] at horder
        exact absurd horder List.not_mem_nil

theorem faithfullyTracked_of_guarded (hissued : OnlyIssued calls)
    (hguarded : Guarded RunnerView.step RunnerView.Allowed .new calls)
    (hfew : (newOrders calls).length < 2 ^ 64) : FaithfullyTracked calls := by
  have hcounter : RunnerView.new.nextOrderId.toNat + (newOrders calls).length ≤ 2 ^ 64 := by
    have hone : RunnerView.new.nextOrderId.toNat = 1 := rfl
    omega
  have hincreasing := (increasing_of_guarded hguarded hcounter).1
  have hfresh := fun before action nowNs hbefore hkind =>
    @fresh_of_increasing calls before hissued hincreasing action nowNs hbefore hkind
  exact
    { increasing := hincreasing
      fresh := hfresh
      tracked := fun before hbefore => tracked_of_onlyIssued hissued hbefore
      matching := fun before hbefore order horder => matching_of_fresh hfresh hbefore horder
      kept := fun before later hbefore hlater id st hst => kept_of_fresh hfresh hbefore hlater hst }

end Runs

/-- While order events name only ids the runner has issued, and there are fewer than
2^64 orders, every run tracks its orders faithfully. -/
theorem orders_tracked_faithfully (config : RunnerConfig) (registered : Except RunnerError Unit)
    (reaction : Reaction) (events : List (Event × Reaction))
    (hissued : OnlyIssued (Session.runCalls config registered reaction events))
    (hfew : (newOrders (Session.runCalls config registered reaction events)).length < 2 ^ 64) :
    stateAfter (Session.runCalls config registered reaction events) =
      (run Session.step (Session.launched config registered reaction) events).runner.state ∧
    FaithfullyTracked (Session.runCalls config registered reaction events) := by
  have hrun := RunnerView.does_run reaction config registered events
  exact ⟨hrun.2.state, faithfullyTracked_of_guarded hissued hrun.1 hfew⟩

section Example

/-- A start that orders five and is connected to a gateway. -/
def orderingStart : Reaction where
  env :=
    { findQueue := fun _ queueType => .error (.queueNotFound queueType)
      connectTrade := fun _ _ => .ok ("gateway", "orders", "trades")
      registerQueue := fun _ _ _ => .ok ()
      opened := fun _ => true
      readError := fun _ => .shutdown }
  contextNs := 0
  nowNs := 0
  calls := [.submitIntent (.targetOrders ⟨default, [⟨.buy, .limit, 0, 5⟩]⟩), .connectTrade "gateway"]
  tickNs := 0
  timerCalls := []

def activeFive : OrderEvent := ⟨default, 1, .active, 0, 5, 0, 0⟩

def noQuotes : Vector Price orderBookDepth := Vector.replicate _ 0

def noVolumes : Vector UInt64 orderBookDepth := Vector.replicate _ 0

/-- The bytes are those of the order event. -/
def activeFiveBytes : Payload where
  book := ⟨default, noQuotes, noVolumes, noQuotes, noVolumes, 0, 0, 0, 0, 0, 0, 0, 0⟩
  orderEvent := activeFive
  tradeEvent := ⟨default, 0, 0, .buy, 0, 0, 0⟩

def orderedFive : NewOrder := ⟨default, 1, 0, .buy, .limit, 0, 5, 0⟩

def quiet : Reaction := ⟨.alone, 0, 0, [], 0, []⟩

/-- The order is applied, the queues are connected, and the event names the order. -/
theorem runCalls_orderingStart :
    Session.runCalls ⟨none, 4, true, "strategy"⟩ (.ok ()) orderingStart
      [(.data 0 activeFiveBytes, quiet)] =
    [.onActionSent (.ofNewOrder orderedFive) 0,
      .queue (.writeTo "action/strategy/gateway" .action 4 true),
      .keepActionQueue "action/strategy/gateway",
      .queue (.readFrom "orders" .orderEvent true), .keepOrderEventSource 0,
      .queue (.readFrom "trades" .tradeEvent true), .keepTradeEventSource 1,
      .queue (.cast 0 .orderEvent)] ++ [.applyOrderEvent activeFive] := by
  rfl

theorem onlyIssued_five :
    OnlyIssued (Session.runCalls ⟨none, 4, true, "strategy"⟩ (.ok ()) orderingStart
      [(.data 0 activeFiveBytes, quiet)]) := by
  rw [runCalls_orderingStart]
  intro before event hbefore
  rcases List.prefix_concat_iff.mp hbefore with heq | hearlier
  · obtain ⟨rfl, hevent⟩ := List.append_inj' heq rfl
    cases hevent
    exact List.mem_cons_self
  · have hmem := hearlier.subset (List.mem_append_right before List.mem_cons_self)
    simp at hmem

theorem orders_tracked_faithfully_five :
    OnlyIssued (Session.runCalls ⟨none, 4, true, "strategy"⟩ (.ok ()) orderingStart
      [(.data 0 activeFiveBytes, quiet)]) ∧
    FaithfullyTracked (Session.runCalls ⟨none, 4, true, "strategy"⟩ (.ok ()) orderingStart
      [(.data 0 activeFiveBytes, quiet)]) := by
  refine ⟨onlyIssued_five, ?_⟩
  have hfew : (newOrders (Session.runCalls ⟨none, 4, true, "strategy"⟩ (.ok ()) orderingStart
      [(.data 0 activeFiveBytes, quiet)])).length < 2 ^ 64 := by
    rw [runCalls_orderingStart]
    exact Nat.lt_of_le_of_lt (Nat.le_refl 1) (by decide)
  exact (orders_tracked_faithfully _ _ _ _ onlyIssued_five hfew).2

end Example

end Nnxt.TrackedOrders
