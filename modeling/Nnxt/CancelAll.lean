import Nnxt.Redelivery
import Nnxt.IntentBatches
import Nnxt.TradeSimulator
import Nnxt.TerminalOrders

/-!
# Cancelling everything

`cancel_all` names every tracked order of an instrument, finished ones included,
although the cancel branch of `on_action_sent` and the exposure both leave finished
orders out. The answer to the cancel of a finished order then rewrites its record.
-/

namespace Nnxt.CancelAll

set_option autoImplicit false

open HashMap Transition OrderManager
open Redelivery (Step step after)
open RunnerState (record Finished)

/-- The actions of the intents of `cancel_all` alone. -/
def cancelActions (s : RunnerState) (i : InstrumentId) (e : ExecutionEngine) (nowNs : UInt64) :
    List Action :=
  (e.execute ((StrategyContext.new nowNs s TimerManager.default).perform (.cancelAll i)).intents s
    nowNs).2

/-- The gateway sends one action after the other and reads its clock for each event. -/
def sendAll (g : TradeSimulator) (readings : Nat → UInt64) : List Action → TradeSimulator
  | [] => g
  | action :: actions =>
    sendAll (g.sendOrder action (readings 0) (readings 1) (readings 2))
      (fun n => readings (n + 3)) actions

/-- The order events with which the simulator answers the actions. -/
def answers (readings : Nat → UInt64) (actions : List Action) : List OrderEvent :=
  orderEventsOf (sendAll TradeSimulator.new readings actions).pollEvents.2

def applyAnswers (s : RunnerState) (events : List OrderEvent) : RunnerState :=
  events.foldl (fun s event => (s.applyOrderEvent event).1) s

/-- A tracked order of the instrument that is not finished. -/
def Live (s : RunnerState) (i : InstrumentId) (orderId : UInt64) : Prop :=
  ∃ st, s.record orderId = some st ∧ st.order.instrumentId = i ∧ ¬ isTerminal st.order.status

/-- The actions are cancels, one for each live order of the instrument and no other. -/
def TargetsLive (s : RunnerState) (i : InstrumentId) : Prop :=
  ∀ e nowNs, (∀ action ∈ cancelActions s i e nowNs, action.kind = .cancelOrder) ∧
    ((cancelActions s i e nowNs).map Action.orderId).Nodup ∧
    ∀ orderId, orderId ∈ (cancelActions s i e nowNs).map Action.orderId ↔ Live s i orderId

/-- Neither the cancels nor the answers to them, whatever happens in between, rewrite
the record of an order that was finished when `cancel_all` was called. -/
def SparesFinished (s : RunnerState) (i : InstrumentId) : Prop :=
  ∀ e nowNs readings (is : List Step) orderId, Finished s orderId →
    let cancelled := s.onActionsSent (cancelActions s i e nowNs) nowNs
    let before := run step cancelled is
    cancelled.record orderId = s.record orderId ∧
      (applyAnswers before (answers readings (cancelActions s i e nowNs))).record orderId =
        before.record orderId

/-- No tracked order of the instrument is finished. -/
def NoneFinished (s : RunnerState) (i : InstrumentId) : Prop :=
  ∀ orderId st, s.record orderId = some st → st.order.instrumentId = i →
    ¬ isTerminal st.order.status

/-- What the simulator answers to a cancel, as far as repetitions are told by it. -/
def cancelledKey : OrderEventKey := ⟨.cancelled, 0, 0⟩

/-- The finished orders of the instrument have reported this answer before. -/
def AnswersKnown (s : RunnerState) (i : InstrumentId) : Prop :=
  ∀ orderId st, s.record orderId = some st → st.order.instrumentId = i →
    isTerminal st.order.status → cancelledKey ∈ s.orderManager.seenFor orderId

/-- Every record carries the id it is filed under. -/
def IdsMatch (s : RunnerState) : Prop :=
  ∀ orderId st, s.record orderId = some st → st.order.orderId = orderId

section Records
variable {s : RunnerState} {i : InstrumentId}

theorem IdsMatch.modify (h : IdsMatch s) (orderId : UInt64) {f : OrderState → OrderState}
    (hf : ∀ st, (f st).order.orderId = st.order.orderId) {id : UInt64} {st : OrderState}
    (hst : (HashMap.modify orderId f s.orderManager.orders).lookup id = some st) :
    st.order.orderId = id := by
  by_cases hid : id = orderId
  · subst hid
    rw [lookup_modify_self, Option.map_eq_some_iff] at hst
    obtain ⟨old, hold, rfl⟩ := hst
    rw [hf, h id old hold]
  · rw [lookup_modify_ne hid] at hst
    exact h id st hst

theorem IdsMatch.actionSent (h : IdsMatch s) (action : Action) (nowNs : UInt64) :
    IdsMatch (s.onActionSent action nowNs) := by
  intro id st hst
  cases hk : action.kind with
  | newOrder =>
    simp only [record, RunnerState.onActionSent, onActionSent, hk, lookup_insert_eq] at hst
    split at hst
    · rename_i hid
      cases hst
      exact hid.symm
    · exact h id st hst
  | cancelOrder =>
    simp only [record, RunnerState.onActionSent, onActionSent, hk] at hst
    refine h.modify action.cancelOrder.orderId ?_ hst
    intro old
    unfold OrderState.cancelSent
    split <;> rfl

theorem IdsMatch.orderEvent (h : IdsMatch s) (event : OrderEvent) :
    IdsMatch (s.applyOrderEvent event).1 := by
  intro id st hst
  by_cases hseen : event.key ∈ s.orderManager.seenFor event.orderId
  · simp only [record, RunnerState.applyOrderEvent, applyOrderEvent_of_seen _ hseen] at hst
    exact h id st hst
  · simp only [record, RunnerState.applyOrderEvent, applyOrderEvent_of_new _ hseen,
      lookup_insert_eq] at hst
    split at hst
    · rename_i hid
      cases hst
      cases hold : s.orderManager.orders.lookup event.orderId with
      | none => exact hid.symm
      | some old => exact (h event.orderId old hold).trans hid.symm
    · exact h id st hst

theorem IdsMatch.tradeEvent (h : IdsMatch s) (event : TradeEvent) :
    IdsMatch (s.applyTradeEvent event).1 := by
  intro id st hst
  by_cases hseen : event.tradeId ∈ s.ledger.fillLedger.seen
  · rw [RunnerState.applyTradeEvent_of_seen s hseen] at hst
    exact h id st hst
  · rw [RunnerState.applyTradeEvent_of_new s hseen] at hst
    exact h.modify event.orderId (f := OrderState.traded event) (fun _ => rfl) hst

theorem idsMatch_after (is : List Step) : IdsMatch (after is) := by
  have hstart : IdsMatch RunnerState.default := fun _ _ h => by cases h
  have keep : ∀ s i, IdsMatch s → IdsMatch (step s i) := by
    intro s i h
    cases i with
    | actionSent action nowNs => exact h.actionSent action nowNs
    | orderEvent event => exact h.orderEvent event
    | tradeEvent event => exact h.tradeEvent event
  exact always_of_step keep hstart is is (List.prefix_refl is)

end Records

section Targets
variable {s : RunnerState} {i : InstrumentId}

theorem execute_cancels (e : ExecutionEngine) (orders : List Order) (s : RunnerState)
    (nowNs : UInt64) :
    (e.execute (orders.map fun order => .cancelOrder ⟨order.instrumentId, order.orderId⟩) s nowNs).2 =
      orders.map fun order => .ofCancelOrder ⟨order.instrumentId, order.orderId, nowNs⟩ := by
  induction orders with
  | nil => rfl
  | cons order orders ih =>
    rw [List.map_cons, ExecutionEngine.execute_cons, List.map_cons]
    exact congrArg (Action.ofCancelOrder ⟨order.instrumentId, order.orderId, nowNs⟩ :: ·) ih

theorem cancelActions_eq (s : RunnerState) (i : InstrumentId) (e : ExecutionEngine) (nowNs : UInt64) :
    cancelActions s i e nowNs =
      (s.orders i).map fun order => .ofCancelOrder ⟨order.instrumentId, order.orderId, nowNs⟩ := by
  rw [← execute_cancels e, cancelActions, StrategyContext.perform]
  rfl

theorem orderIds_cancelActions (s : RunnerState) (i : InstrumentId) (e : ExecutionEngine)
    (nowNs : UInt64) :
    (cancelActions s i e nowNs).map Action.orderId = (s.orders i).map (·.orderId) := by
  rw [cancelActions_eq, List.map_map]
  rfl

theorem kind_of_mem_cancelActions {e : ExecutionEngine} {nowNs : UInt64} {action : Action}
    (h : action ∈ cancelActions s i e nowNs) : action.kind = .cancelOrder := by
  rw [cancelActions_eq] at h
  obtain ⟨order, -, rfl⟩ := List.mem_map.mp h
  rfl

/-- All tracked orders of the instrument are named, whatever their status. -/
theorem mem_orderIds_iff (h : IdsMatch s) (orderId : UInt64) :
    orderId ∈ (s.orders i).map (·.orderId) ↔
      ∃ st, s.record orderId = some st ∧ st.order.instrumentId = i := by
  simp only [RunnerState.orders, OrderManager.ordersOf, List.mem_map, List.mem_filter,
    decide_eq_true_eq]
  constructor
  · rintro ⟨_, ⟨st, ⟨hst, hi⟩, rfl⟩, rfl⟩
    obtain ⟨key, hkey⟩ := mem_values_iff.mp hst
    refine ⟨st, ?_, hi⟩
    rw [h key st hkey]
    exact hkey
  · rintro ⟨st, hst, hi⟩
    exact ⟨st.order, ⟨st, ⟨mem_values_iff.mpr ⟨orderId, hst⟩, hi⟩, rfl⟩, h orderId st hst⟩

theorem nodup_orderIds (h : IdsMatch s) : ((s.orders i).map (·.orderId)).Nodup := by
  have hkeys : (values s.orderManager.orders).map (fun st => st.order.orderId) =
      s.orderManager.orders.keys := by
    rw [values, List.map_map]
    apply List.map_congr_left
    rintro ⟨key, st⟩ hmem
    exact h key st (mem_entries_iff.mp hmem)
  have hnodup : ((values s.orderManager.orders).map fun st => st.order.orderId).Nodup := by
    rw [hkeys]
    exact AList.keys_nodup _
  rw [RunnerState.orders, OrderManager.ordersOf, List.map_map]
  exact hnodup.sublist (List.filter_sublist.map _)

theorem targetsLive_iff (h : IdsMatch s) : TargetsLive s i ↔ NoneFinished s i := by
  constructor
  · intro ht orderId st hst hi hterm
    obtain ⟨-, -, hnamed⟩ := ht ExecutionEngine.new 0
    rw [orderIds_cancelActions] at hnamed
    obtain ⟨st', hst', -, hlive⟩ := (hnamed orderId).mp ((mem_orderIds_iff h orderId).mpr ⟨st, hst, hi⟩)
    rw [hst] at hst'
    cases hst'
    exact hlive hterm
  · intro hn e nowNs
    refine ⟨fun action => kind_of_mem_cancelActions, ?_, ?_⟩
    · rw [orderIds_cancelActions]
      exact nodup_orderIds h
    · intro orderId
      rw [orderIds_cancelActions, mem_orderIds_iff h]
      constructor
      · rintro ⟨st, hst, hi⟩
        exact ⟨st, hst, hi, hn orderId st hst hi⟩
      · rintro ⟨st, hst, hi, -⟩
        exact ⟨st, hst, hi⟩

end Targets

section Answers
variable {s : RunnerState} {i : InstrumentId}

/-- Each cancel is answered with one order event of its id. -/
theorem events_sendAll (g : TradeSimulator) (readings : Nat → UInt64) {actions : List Action}
    (h : ∀ action ∈ actions, action.kind = .cancelOrder) :
    ∃ events : List OrderEvent,
      (sendAll g readings actions).events = g.events ++ events.map .order ∧
      events.map (·.orderId) = actions.map Action.orderId ∧
      (∀ event ∈ events, event.key = cancelledKey) ∧
      ∀ t, (∀ n, readings n = t) → ∀ event ∈ events, event.timestamp = t := by
  induction actions generalizing g readings with
  | nil => exact ⟨[], by simp [sendAll], rfl, by simp, by simp⟩
  | cons action actions ih =>
    rw [List.forall_mem_cons] at h
    let first : OrderEvent :=
      ⟨action.cancelOrder.instrumentId, action.cancelOrder.orderId, .cancelled, 0, 0, 0, readings 0⟩
    obtain ⟨events, hevents, hids, hkeys, htimes⟩ :=
      ih (g.sendOrder action (readings 0) (readings 1) (readings 2)) (fun n => readings (n + 3)) h.2
    have hsent : (g.sendOrder action (readings 0) (readings 1) (readings 2)).events =
        g.events ++ [.order first] := by
      simp only [TradeSimulator.sendOrder, h.1, TradeSimulator.pushOrderEvent, first]
    refine ⟨first :: events, ?_, ?_, ?_, ?_⟩
    · rw [sendAll, hevents, hsent, List.map_cons, List.append_assoc, List.singleton_append]
    · rw [List.map_cons, List.map_cons, hids]
      congr 1
      simp only [Action.orderId, h.1, first]
    · intro event hevent
      rcases List.mem_cons.mp hevent with rfl | hevent
      · rfl
      · exact hkeys event hevent
    · intro t ht event hevent
      rcases List.mem_cons.mp hevent with rfl | hevent
      · exact ht 0
      · exact htimes t (fun n => ht (n + 3)) event hevent

theorem orderEventsOf_map (events : List OrderEvent) :
    orderEventsOf (events.map .order) = events := by
  induction events with
  | nil => rfl
  | cons event events ih => exact congrArg (event :: ·) ih

theorem answers_cancels (readings : Nat → UInt64) (s : RunnerState) (i : InstrumentId)
    (e : ExecutionEngine) (nowNs : UInt64) :
    (answers readings (cancelActions s i e nowNs)).map (·.orderId) = (s.orders i).map (·.orderId) ∧
    (∀ event ∈ answers readings (cancelActions s i e nowNs), event.key = cancelledKey) ∧
    ∀ t, (∀ n, readings n = t) → ∀ event ∈ answers readings (cancelActions s i e nowNs),
      event.timestamp = t := by
  have hkind : ∀ action ∈ cancelActions s i e nowNs, action.kind = .cancelOrder :=
    fun _ => kind_of_mem_cancelActions
  obtain ⟨events, hevents, hids, hkeys, htimes⟩ := events_sendAll TradeSimulator.new readings hkind
  have hanswers : answers readings (cancelActions s i e nowNs) = events := by
    rw [answers, TradeSimulator.pollEvents, hevents]
    exact orderEventsOf_map events
  rw [hanswers, hids, orderIds_cancelActions]
  exact ⟨rfl, hkeys, htimes⟩

/-- Events of other orders and events known already leave a record alone. -/
theorem record_applyAnswers {events : List OrderEvent} {orderId : UInt64}
    (h : ∀ event ∈ events, event.orderId = orderId →
      event.key ∈ s.orderManager.seenFor event.orderId) :
    (applyAnswers s events).record orderId = s.record orderId := by
  induction events generalizing s with
  | nil => rfl
  | cons event events ih =>
    rw [List.forall_mem_cons] at h
    have hrest : ∀ other ∈ events, other.orderId = orderId →
        other.key ∈ (s.applyOrderEvent event).1.orderManager.seenFor other.orderId := by
      intro other hother hid
      exact Redelivery.seenFor_step_subset s (.orderEvent event) other.orderId (h.2 other hother hid)
    have hfirst : (s.applyOrderEvent event).1.record orderId = s.record orderId := by
      by_cases hid : event.orderId = orderId
      · rw [Redelivery.applyOrderEvent_of_key_mem (h.1 hid)]
      · exact OrderManager.lookup_applyOrderEvent_ne s.orderManager event (Ne.symm hid)
    exact (ih hrest).trans hfirst

/-- A first answer to an order leaves its own time in the record, and the answers
behind it are no first ones. -/
theorem timestamp_applyAnswers {events : List OrderEvent} {orderId t : UInt64}
    (hkeys : ∀ event ∈ events, event.key = cancelledKey)
    (htimes : ∀ event ∈ events, event.timestamp = t)
    (hmem : orderId ∈ events.map (·.orderId)) {st : OrderState} (hst : s.record orderId = some st)
    (hnew : cancelledKey ∉ s.orderManager.seenFor orderId) :
    ∃ st', (applyAnswers s events).record orderId = some st' ∧ st'.order.timestamp = t := by
  induction events generalizing s with
  | nil => cases hmem
  | cons event events ih =>
    rw [List.forall_mem_cons] at hkeys htimes
    by_cases hid : event.orderId = orderId
    · subst hid
      have hrest : ∀ other ∈ events, other.orderId = event.orderId →
          other.key ∈ (s.applyOrderEvent event).1.orderManager.seenFor other.orderId := by
        intro other hother hother'
        rw [hkeys.2 other hother, hother', ← hkeys.1]
        exact Redelivery.key_mem_step s event
      have hfirst : (s.applyOrderEvent event).1.record event.orderId = some (st.reported event) :=
        OrderManager.lookup_applyOrderEvent_of_new s.orderManager (hkeys.1 ▸ hnew) hst
      refine ⟨st.reported event, ?_, htimes.1⟩
      exact (record_applyAnswers hrest).trans hfirst
    · rw [List.map_cons, List.mem_cons] at hmem
      have hlater := hmem.resolve_left (Ne.symm hid)
      have hsame : (s.applyOrderEvent event).1.record orderId = some st :=
        (OrderManager.lookup_applyOrderEvent_ne s.orderManager event (Ne.symm hid)).trans hst
      have hunseen : cancelledKey ∉ (s.applyOrderEvent event).1.orderManager.seenFor orderId := by
        have hseen := OrderManager.seenFor_applyOrderEvent s.orderManager event orderId
        rw [if_neg (Ne.symm hid)] at hseen
        exact hseen ▸ hnew
      exact ih hkeys.2 htimes.2 hlater hsame hunseen

end Answers

section Law
variable {s : RunnerState} {i : InstrumentId}

theorem seenFor_run_subset (s : RunnerState) (is : List Step) (orderId : UInt64) :
    s.orderManager.seenFor orderId ⊆ (run step s is).orderManager.seenFor orderId := by
  induction is generalizing s with
  | nil => exact Finset.Subset.refl _
  | cons i is ih => exact (Redelivery.seenFor_step_subset s i orderId).trans (ih (step s i))

theorem seenFor_onActionsSent (s : RunnerState) (actions : List Action) (nowNs orderId : UInt64) :
    (s.onActionsSent actions nowNs).orderManager.seenFor orderId = s.orderManager.seenFor orderId := by
  induction actions generalizing s with
  | nil => rfl
  | cons action actions ih =>
    exact (ih (s.onActionSent action nowNs)).trans
      (OrderManager.seenFor_onActionSent s.orderManager action nowNs orderId)

/-- The cancel branch leaves the record of a finished order as it is. -/
theorem record_onActionsSent {actions : List Action}
    (h : ∀ action ∈ actions, action.kind = .cancelOrder) {orderId : UInt64} {st : OrderState}
    (hst : s.record orderId = some st) (hterm : isTerminal st.order.status) (nowNs : UInt64) :
    (s.onActionsSent actions nowNs).record orderId = some st := by
  induction actions generalizing s with
  | nil => exact hst
  | cons action actions ih =>
    rw [List.forall_mem_cons] at h
    apply ih h.2
    simp only [record, RunnerState.onActionSent, onActionSent, h.1]
    by_cases hid : orderId = action.cancelOrder.orderId
    · subst hid
      have hkept : (s.orderManager.orders.lookup action.cancelOrder.orderId).map (.cancelSent nowNs) =
          some st := by
        have hlookup : s.orderManager.orders.lookup action.cancelOrder.orderId = some st := hst
        rw [hlookup, Option.map_some, TerminalOrders.cancelSent_of_terminal hterm]
      rw [lookup_modify_self, hkept]
    · rw [lookup_modify_ne hid]
      exact hst

theorem sparesFinished_of_known (h : IdsMatch s) (hknown : AnswersKnown s i) :
    SparesFinished s i := by
  intro e nowNs readings is orderId hfinished
  obtain ⟨st, hst, hterm⟩ := hfinished
  obtain ⟨hids, hkeys, -⟩ := answers_cancels readings s i e nowNs
  constructor
  · rw [record_onActionsSent (fun action => kind_of_mem_cancelActions) hst hterm, hst]
  · apply record_applyAnswers
    intro event hevent hid
    -- an answered order is one of the instrument, and this one is finished
    have hnamed : event.orderId ∈ (s.orders i).map (·.orderId) := by
      rw [← hids]
      exact List.mem_map_of_mem hevent
    rw [hid] at hnamed ⊢
    obtain ⟨st', hst', hi⟩ := (mem_orderIds_iff h orderId).mp hnamed
    rw [hst] at hst'
    cases hst'
    apply seenFor_run_subset
    rw [seenFor_onActionsSent, hkeys event hevent]
    exact hknown orderId st hst hi hterm

theorem known_of_sparesFinished (h : IdsMatch s) (hspares : SparesFinished s i) :
    AnswersKnown s i := by
  intro orderId st hst hi hterm
  by_contra hnew
  let t := st.order.timestamp + 1
  obtain ⟨hids, hkeys, htimes⟩ := answers_cancels (fun _ => t) s i ExecutionEngine.new 0
  obtain ⟨hkept, hspared⟩ :=
    hspares ExecutionEngine.new 0 (fun _ => t) [] orderId ⟨st, hst, hterm⟩
  have hmem : orderId ∈
      (answers (fun _ => t) (cancelActions s i ExecutionEngine.new 0)).map (·.orderId) := by
    rw [hids]
    exact (mem_orderIds_iff h orderId).mpr ⟨st, hst, hi⟩
  have hunseen : cancelledKey ∉ (s.onActionsSent (cancelActions s i ExecutionEngine.new 0)
      0).orderManager.seenFor orderId := by
    rw [seenFor_onActionsSent]
    exact hnew
  obtain ⟨st', hst', htime⟩ := timestamp_applyAnswers hkeys (htimes t fun _ => rfl) hmem
    (hkept.trans hst) hunseen
  have hsame : some st' = some st := hst'.symm.trans (hspared.trans (hkept.trans hst))
  cases hsame
  have hlater : st.order.timestamp ≠ st.order.timestamp + 1 := by
    intro heq
    have hlt := st.order.timestamp.toNat_lt
    have hnat := congrArg UInt64.toNat heq
    rw [UInt64.toNat_add, UInt64.toNat_one] at hnat
    omega
  exact hlater htime

/-- In every reachable state, with any books in the market view, `cancel_all` names
exactly the live orders and no finished order is rewritten iff no tracked order of
the instrument is finished; the second half alone holds iff every finished one has
reported such an answer before. -/
theorem cancel_all_exact_iff (is : List Step) (market : List OrderBook) (i : InstrumentId) :
    (TargetsLive { after is with market := market } i ∧
        SparesFinished { after is with market := market } i ↔
      NoneFinished { after is with market := market } i) ∧
    (SparesFinished { after is with market := market } i ↔
      AnswersKnown { after is with market := market } i) := by
  have hids : IdsMatch { after is with market := market } := idsMatch_after is
  have hspares : SparesFinished { after is with market := market } i ↔
      AnswersKnown { after is with market := market } i :=
    ⟨known_of_sparesFinished hids, sparesFinished_of_known hids⟩
  refine ⟨?_, hspares⟩
  rw [targetsLive_iff hids]
  constructor
  · exact fun h => h.1
  · intro hn
    refine ⟨hn, hspares.mpr ?_⟩
    intro orderId st hst hi hterm
    exact absurd hterm (hn orderId st hst hi)

/-- An order sent, reported active and filled. -/
def filledOrder : List Step :=
  [.actionSent buyFive 0, .orderEvent ⟨default, 1, .active, 0, 5, 10, 2⟩,
   .orderEvent ⟨default, 1, .filled, 5, 0, 10, 4⟩]

/-- The filled order is named, and the answer makes it a cancelled one without fills. -/
theorem filled_order_is_rewritten :
    (cancelActions (after filledOrder) default ExecutionEngine.new 5).map Action.orderId = [1] ∧
    ((after filledOrder).record 1).map (fun st => (st.order.status, st.order.filledQuantity)) =
      some (.filled, 5) ∧
    ((applyAnswers ((after filledOrder).onActionsSent
        (cancelActions (after filledOrder) default ExecutionEngine.new 5) 5)
      (answers (fun _ => 6) (cancelActions (after filledOrder) default ExecutionEngine.new 5))).record
        1).map (fun st => (st.order.status, st.order.filledQuantity)) = some (.cancelled, 0) ∧
    ¬ TargetsLive (after filledOrder) default ∧ ¬ SparesFinished (after filledOrder) default := by
  have hrecord : ((after filledOrder).record 1).map
      (fun st => (st.order.status, st.order.filledQuantity, st.order.instrumentId)) =
        some (.filled, 5, default) := by decide
  obtain ⟨st, hst, hdata⟩ := Option.map_eq_some_iff.mp hrecord
  rw [Prod.mk.injEq, Prod.mk.injEq] at hdata
  have hterm : isTerminal st.order.status = true := by
    rw [hdata.1]
    rfl
  have hids := idsMatch_after filledOrder
  refine ⟨by decide, by decide, by decide, ?_, ?_⟩
  · rw [targetsLive_iff hids]
    exact fun hn => hn 1 st hst hdata.2.2 hterm
  · intro hspares
    have hknown := known_of_sparesFinished hids hspares 1 st hst hdata.2.2 hterm
    exact absurd hknown (by decide)

end Law

end Nnxt.CancelAll
