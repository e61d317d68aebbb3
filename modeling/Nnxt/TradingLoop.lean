import Nnxt.OneTarget
import Nnxt.RunnerSteps
import Nnxt.LedgerSum
import Nnxt.TerminalOrders
import Nnxt.Foundation.WrappingCounter

/-!
# A strategy and the simulated exchange

The same loop with a strategy that may ask for anything in every callback. What has
been sent stands in one of three places: still unanswered, answered and queued, or
delivered. The reports and the trades are followed apart from each other, since
nothing ties the two queues together.
-/

namespace Nnxt.TradingLoop

set_option autoImplicit false

open HashMap FixedWidth OrderManager WrappingCounter
open OverTrading (System Trigger)
open TerminalOrders (cancelSent_of_terminal traded_terminal addExposure_of_terminal)

inductive Step where
  | callback (trigger : Trigger) (nowNs : UInt64) (calls : List ContextCall)
  | answer (now₁ now₂ now₃ : UInt64)

def step (s : System) : Step → System
  | .callback trigger nowNs calls => s.handle trigger nowNs calls
  | .answer now₁ now₂ now₃ => s.answer now₁ now₂ now₃

/-- Everything sent has been answered, and every answer delivered. -/
structure AtRest (s : System) : Prop where
  answered : s.handled = s.runner.sent.length
  orderQueue : s.orderQueue = []
  tradeQueue : s.tradeQueue = []

/-- The new orders among the actions. -/
def ordersOf (actions : List Action) : List NewOrder :=
  actions.filterMap fun action => if action.kind = .newOrder then some action.newOrder else none

def signed (order : NewOrder) : Int := (Action.ofNewOrder order).signedQuantity

/-- What the orders of an instrument add up to. -/
def net (i : InstrumentId) (orders : List NewOrder) : Int :=
  ((orders.filter fun order => order.instrumentId = i).map signed).sum

/-- Quantities that the cast to `i64` keeps, and running sums that it can hold. -/
structure Affordable (orders : List NewOrder) : Prop where
  quantity : ∀ order ∈ orders, FitsI64 order.quantity.toNat
  sums : ∀ before, before <+: orders → ∀ i, FitsI64 (net i before)

/-- The order events the simulator answers an action with, by order and key. -/
def answerKeys (action : Action) : List (UInt64 × OrderEventKey) :=
  match action.kind with
  | .newOrder =>
    [(action.newOrder.orderId, ⟨.active, 0, action.newOrder.quantity⟩),
     (action.newOrder.orderId, ⟨.filled, action.newOrder.quantity, 0⟩)]
  | .cancelOrder => [(action.cancelOrder.orderId, ⟨.cancelled, 0, 0⟩)]

def reportOf (event : OrderEvent) : UInt64 × OrderEventKey := (event.orderId, event.key)

/-- The reports still to be delivered, in the order in which they will be. -/
def due (sent : List Action) (handled : Nat) (orderQueue : List OrderEvent) :
    List (UInt64 × OrderEventKey) :=
  orderQueue.map reportOf ++ (sent.drop handled).flatMap answerKeys

structure Fills (order : NewOrder) (trade : TradeEvent) : Prop where
  orderId : trade.orderId = order.orderId
  instrumentId : trade.instrumentId = order.instrumentId
  side : trade.side = order.side
  quantity : trade.quantity = order.quantity

/-- The record of an order that the exchange knows nothing of: as it was sent, and open until
a cancel of it is answered. -/
structure Hangs (order : NewOrder) (delivered : List (UInt64 × OrderEventKey))
    (st : OrderState) : Prop where
  instrumentId : st.order.instrumentId = order.instrumentId
  side : st.order.side = order.side
  quantity : st.order.quantity = order.quantity
  filledQuantity : st.order.filledQuantity = 0
  terminal : isTerminal st.order.status = true ↔ ∃ key, (order.orderId, key) ∈ delivered

/-- The order manager against the reports delivered so far. A record that is still
open waits for a `Filled` report of its order; the orders that are lost wait for nothing. -/
structure Reports (lost : List NewOrder) (delivered : List (UInt64 × OrderEventKey))
    (m : OrderManager) (sent : List Action) (handled : Nat) (orderQueue : List OrderEvent) :
    Prop where
  handled_le : handled ≤ sent.length
  sent_eq : sent.flatMap answerKeys = delivered ++ due sent handled orderQueue
  seen : ∀ id key, key ∈ m.seenFor id ↔ (id, key) ∈ delivered
  awaited : ∀ id st, m.orders.lookup id = some st → isTerminal st.order.status = false →
    id ∉ lost.map (·.orderId) →
      ∃ quantity, (id, ⟨.filled, quantity, 0⟩) ∈ due sent handled orderQueue
  tracked : ∀ order ∈ ordersOf sent, m.orders.lookup order.orderId ≠ none
  hanging : ∀ order ∈ lost, ∃ st, m.orders.lookup order.orderId = some st ∧
    Hangs order delivered st

/-- The ledger against the trades delivered so far: one for each order answered. -/
structure Trades (first : UInt64) (traded : List TradeEvent) (ledger : Ledger)
    (sent : List Action) (handled : Nat) (gateway : TradeSimulator)
    (tradeQueue : List TradeEvent) : Prop where
  ledger : ledger = Ledger.new.applyAll traded
  fills : List.Forall₂ Fills (ordersOf (sent.take handled)) (traded ++ tradeQueue)
  ids : Draws first ((traded ++ tradeQueue).map (·.tradeId)) gateway.nextTradeId
  published : gateway.events = []

section Answers
variable {actions : List Action} {action : Action} {id : UInt64} {key : OrderEventKey}

theorem ordersOf_append (actions actions' : List Action) :
    ordersOf (actions ++ actions') = ordersOf actions ++ ordersOf actions' :=
  List.filterMap_append

theorem ordersOf_newOrder (h : action.kind = .newOrder) : ordersOf [action] = [action.newOrder] := by
  simp [ordersOf, h]

theorem ordersOf_cancelOrder (h : action.kind = .cancelOrder) : ordersOf [action] = [] := by
  simp [ordersOf, h]

/-- An answer is `Active`, `Filled` with nothing remaining, or `Cancelled`. -/
theorem key_of_mem_answerKeys (h : (id, key) ∈ actions.flatMap answerKeys) :
    key.status = .active ∨ (∃ quantity, key = ⟨.filled, quantity, 0⟩) ∨ key.status = .cancelled := by
  obtain ⟨action, -, hmem⟩ := List.mem_flatMap.mp h
  cases hk : action.kind with
  | newOrder =>
    simp only [answerKeys, hk, List.mem_cons, List.not_mem_nil, or_false, Prod.mk.injEq] at hmem
    rcases hmem with ⟨-, rfl⟩ | ⟨-, rfl⟩
    · exact .inl rfl
    · exact .inr (.inl ⟨_, rfl⟩)
  | cancelOrder =>
    simp only [answerKeys, hk, List.mem_singleton, Prod.mk.injEq] at hmem
    rw [hmem.2]
    exact .inr (.inr rfl)

/-- The ids reported `Filled` are those of the new orders, in their order. -/
theorem filledIds_answerKeys (actions : List Action) :
    ((actions.flatMap answerKeys).filter fun report => report.2.status = .filled).map (·.1) =
      (ordersOf actions).map (·.orderId) := by
  induction actions with
  | nil => rfl
  | cons action actions ih =>
    have hcons : ordersOf (action :: actions) = ordersOf [action] ++ ordersOf actions :=
      ordersOf_append [action] actions
    rw [List.flatMap_cons, List.filter_append, List.map_append, ih, hcons, List.map_append]
    congr 1
    cases hk : action.kind with
    | newOrder =>
      rw [ordersOf_newOrder hk]
      simp [answerKeys, hk]
    | cancelOrder =>
      rw [ordersOf_cancelOrder hk]
      simp [answerKeys, hk]

/-- No order is reported `Filled` twice. -/
theorem filled_once {delivered later : List (UInt64 × OrderEventKey)}
    (hids : ((ordersOf actions).map (·.orderId)).Nodup)
    (hsplit : actions.flatMap answerKeys = delivered ++ later) {quantity quantity' : UInt64}
    (hdelivered : (id, ⟨.filled, quantity, 0⟩) ∈ delivered) :
    (id, ⟨.filled, quantity', 0⟩) ∉ later := by
  intro hlater
  rw [← filledIds_answerKeys, hsplit, List.filter_append, List.map_append] at hids
  have hid : ∀ {reports : List (UInt64 × OrderEventKey)} {quantity : UInt64},
      (id, ⟨.filled, quantity, 0⟩) ∈ reports →
        id ∈ (reports.filter fun report => report.2.status = .filled).map (·.1) := by
    intro reports quantity hmem
    exact List.mem_map.mpr ⟨_, List.mem_filter.mpr ⟨hmem, by simp⟩, rfl⟩
  exact List.disjoint_of_nodup_append hids (hid hdelivered) (hid hlater)

/-- Behind an `Active` report its `Filled` one is still to come. -/
theorem filled_behind_active {delivered later : List (UInt64 × OrderEventKey)}
    (hsplit : actions.flatMap answerKeys = delivered ++ (id, key) :: later)
    (hactive : key.status = .active) : ∃ quantity, (id, ⟨.filled, quantity, 0⟩) ∈ later := by
  induction actions generalizing delivered with
  | nil => cases delivered <;> cases hsplit
  | cons action actions ih =>
    rw [List.flatMap_cons] at hsplit
    rcases List.append_eq_append_iff.mp hsplit with ⟨before, rfl, hrest⟩ | ⟨after, hfirst, hrest⟩
    · exact ih hrest
    · cases after with
      | nil =>
        rw [List.append_nil] at hfirst
        rw [List.nil_append] at hrest
        exact @ih [] hrest.symm
      | cons report after =>
        obtain ⟨rfl, rfl⟩ := List.cons_eq_cons.mp hrest
        -- the report is one of the answers to this action, and the first of two
        cases hk : action.kind with
        | newOrder =>
          simp only [answerKeys, hk] at hfirst
          rcases delivered with _ | ⟨first, _ | ⟨second, delivered⟩⟩
          · obtain ⟨hreport, rfl⟩ := List.cons_eq_cons.mp hfirst
            cases hreport
            exact ⟨_, List.mem_append_left _ List.mem_cons_self⟩
          · obtain ⟨-, htail⟩ := List.cons_eq_cons.mp hfirst
            obtain ⟨hreport, -⟩ := List.cons_eq_cons.mp htail
            cases hreport
            cases hactive
          · simp at hfirst
        | cancelOrder =>
          simp only [answerKeys, hk] at hfirst
          rcases delivered with _ | ⟨first, delivered⟩
          · obtain ⟨hreport, -⟩ := List.cons_eq_cons.mp hfirst
            cases hreport
            cases hactive
          · simp at hfirst

/-- The orders that the cancels among the actions name. -/
def cancelledIds (actions : List Action) : List UInt64 :=
  actions.filterMap fun action =>
    if action.kind = .cancelOrder then some action.cancelOrder.orderId else none

theorem mem_cancelledIds :
    id ∈ cancelledIds actions ↔
      ∃ action ∈ actions, action.kind = .cancelOrder ∧ action.cancelOrder.orderId = id := by
  simp only [cancelledIds, List.mem_filterMap, Option.ite_none_right_eq_some, Option.some.injEq]

/-- An order that is not among the new ones is reported on once a cancel of it is answered. -/
theorem mem_answerKeys_of_cancelled (h : id ∉ (ordersOf actions).map (·.orderId)) :
    (id, key) ∈ actions.flatMap answerKeys ↔
      key = ⟨.cancelled, 0, 0⟩ ∧ id ∈ cancelledIds actions := by
  rw [mem_cancelledIds, List.mem_flatMap]
  constructor
  · rintro ⟨action, haction, hmem⟩
    cases hk : action.kind with
    | newOrder =>
      have hsent : action.newOrder ∈ ordersOf actions :=
        List.mem_filterMap.mpr ⟨action, haction, if_pos hk⟩
      have hid : id = action.newOrder.orderId := by
        simp only [answerKeys, hk, List.mem_cons, List.not_mem_nil, or_false, Prod.mk.injEq] at hmem
        exact hmem.elim And.left And.left
      exact absurd (List.mem_map.mpr ⟨_, hsent, hid.symm⟩) h
    | cancelOrder =>
      simp only [answerKeys, hk, List.mem_singleton, Prod.mk.injEq] at hmem
      exact ⟨hmem.2, action, haction, hk, hmem.1.symm⟩
  · rintro ⟨rfl, action, haction, hk, rfl⟩
    refine ⟨action, haction, ?_⟩
    simp [answerKeys, hk]

end Answers

section Hanging
variable {order : NewOrder} {delivered : List (UInt64 × OrderEventKey)} {st : OrderState}

theorem hangs_sent (order : NewOrder) (nowNs : UInt64) :
    Hangs order [] (.sent order nowNs) where
  instrumentId := rfl
  side := rfl
  quantity := rfl
  filledQuantity := rfl
  terminal := by simp [OrderState.sent, isTerminal]

theorem Hangs.cancelSent (h : Hangs order delivered st) (nowNs : UInt64) :
    Hangs order delivered (st.cancelSent nowNs) := by
  unfold OrderState.cancelSent
  cases hopen : isTerminal st.order.status with
  | true => exact h
  | false =>
    refine ⟨h.instrumentId, h.side, h.quantity, h.filledQuantity, ?_⟩
    have hterminal := h.terminal
    rw [hopen] at hterminal
    exact hterminal

/-- A cancel that is answered closes the record. -/
theorem Hangs.reported {event : OrderEvent} (h : Hangs order delivered st)
    (hid : order.orderId = event.orderId) (hkey : event.key = ⟨.cancelled, 0, 0⟩) :
    Hangs order (delivered ++ [reportOf event]) (st.reported event) := by
  have hstatus : event.status = .cancelled := congrArg OrderEventKey.status hkey
  have hfilled : event.filledQuantity = 0 := congrArg OrderEventKey.filledQuantity hkey
  have hremaining : event.remainingQuantity = 0 := congrArg OrderEventKey.remainingQuantity hkey
  have hnothing : ¬ st.order.quantity < saturatingAdd 0 0 := UInt64.not_lt_zero
  refine ⟨h.instrumentId, h.side, ?_, hfilled, ?_⟩
  · simp only [OrderState.reported, hfilled, hremaining, if_neg hnothing]
    exact h.quantity
  · refine iff_of_true ?_ ⟨event.key, List.mem_append_right _ (List.mem_singleton.mpr ?_)⟩
    · simp only [OrderState.reported, hstatus, isTerminal]
    · rw [reportOf, hid]

/-- Reports on other orders leave the record as it is. -/
theorem Hangs.other {report : UInt64 × OrderEventKey} (h : Hangs order delivered st)
    (hother : (∃ key, (order.orderId, key) ∈ delivered) ∨ report.1 ≠ order.orderId) :
    Hangs order (delivered ++ [report]) st := by
  refine ⟨h.instrumentId, h.side, h.quantity, h.filledQuantity, h.terminal.trans ?_⟩
  simp only [List.mem_append, List.mem_singleton]
  constructor
  · rintro ⟨key, hkey⟩
    exact ⟨key, .inl hkey⟩
  · rintro ⟨key, hkey | rfl⟩
    · exact ⟨key, hkey⟩
    · exact hother.resolve_right fun hne => hne rfl

end Hanging

section Reports
variable {lost : List NewOrder} {delivered : List (UInt64 × OrderEventKey)} {m : OrderManager}
  {sent : List Action} {handled : Nat} {orderQueue : List OrderEvent}

theorem reports_default : Reports [] [] OrderManager.default [] 0 [] where
  handled_le := Nat.le_refl 0
  sent_eq := rfl
  seen := fun _ _ => iff_of_false (Finset.notMem_empty _) List.not_mem_nil
  awaited := by
    intro id st hst
    cases hst
  tracked := List.forall_mem_nil _
  hanging := List.forall_mem_nil _

theorem due_append (hle : handled ≤ sent.length) (action : Action) :
    due (sent ++ [action]) handled orderQueue = due sent handled orderQueue ++ answerKeys action := by
  rw [due, due, List.drop_append_of_le_length hle, List.flatMap_append, List.append_assoc,
    List.flatMap_singleton]

theorem hangs_onActionSent {order : NewOrder} {st : OrderState} {action : Action}
    {nowNs : UInt64} (hst : m.orders.lookup order.orderId = some st)
    (h : Hangs order delivered st)
    (hnew : action.kind = .newOrder → order.orderId ≠ action.newOrder.orderId) :
    ∃ st', (m.onActionSent action nowNs).orders.lookup order.orderId = some st' ∧
      Hangs order delivered st' := by
  cases hk : action.kind with
  | newOrder =>
    refine ⟨st, ?_, h⟩
    simp only [onActionSent, hk]
    rw [AList.lookup_insert_ne (hnew hk)]
    exact hst
  | cancelOrder =>
    simp only [onActionSent, hk]
    by_cases hid : order.orderId = action.cancelOrder.orderId
    · refine ⟨st.cancelSent nowNs, ?_, h.cancelSent nowNs⟩
      rw [← hid, lookup_modify_self, hst, Option.map_some]
    · refine ⟨st, ?_, h⟩
      rw [lookup_modify_ne hid]
      exact hst

theorem Reports.send (h : Reports lost delivered m sent handled orderQueue) (action : Action)
    (nowNs : UInt64) (hnew : ∀ order ∈ ordersOf [action], order.orderId ∉ lost.map (·.orderId)) :
    Reports lost delivered (m.onActionSent action nowNs) (sent ++ [action]) handled orderQueue where
  handled_le := by
    rw [List.length_append]
    exact Nat.le_add_right_of_le h.handled_le
  sent_eq := by
    rw [due_append h.handled_le, List.flatMap_append, h.sent_eq, List.append_assoc,
      List.flatMap_singleton]
  seen := fun id key => by rw [seenFor_onActionSent, h.seen]
  awaited := by
    intro id st hst hlive hid
    rw [due_append h.handled_le]
    cases hk : action.kind with
    | newOrder =>
      simp only [onActionSent, hk, lookup_insert_eq] at hst
      split at hst
      · rename_i hsame
        subst hsame
        refine ⟨action.newOrder.quantity, List.mem_append_right _ ?_⟩
        simp [answerKeys, hk]
      · obtain ⟨quantity, hmem⟩ := h.awaited id st hst hlive hid
        exact ⟨quantity, List.mem_append_left _ hmem⟩
    | cancelOrder =>
      simp only [onActionSent, hk] at hst
      by_cases hsame : id = action.cancelOrder.orderId
      · subst hsame
        rw [lookup_modify_self] at hst
        obtain ⟨old, hold, rfl⟩ := Option.map_eq_some_iff.mp hst
        have hbefore : isTerminal old.order.status = false := by
          by_contra hterm
          rw [cancelSent_of_terminal (by simpa using hterm)] at hlive
          exact hterm hlive
        obtain ⟨quantity, hmem⟩ := h.awaited _ old hold hbefore hid
        exact ⟨quantity, List.mem_append_left _ hmem⟩
      · rw [lookup_modify_ne hsame] at hst
        obtain ⟨quantity, hmem⟩ := h.awaited id st hst hlive hid
        exact ⟨quantity, List.mem_append_left _ hmem⟩
  tracked := by
    intro order horder
    rw [ordersOf_append, List.mem_append] at horder
    cases hk : action.kind with
    | newOrder =>
      simp only [onActionSent, hk, lookup_insert_eq]
      split
      · exact Option.some_ne_none _
      · rename_i hid
        rw [ordersOf_newOrder hk, List.mem_singleton] at horder
        rcases horder with horder | rfl
        · exact h.tracked order horder
        · exact absurd rfl hid
    | cancelOrder =>
      rw [ordersOf_cancelOrder hk, or_iff_left List.not_mem_nil] at horder
      simp only [onActionSent, hk]
      exact lookup_modify_ne_none _ _ (h.tracked order horder)
  hanging := by
    intro order horder
    obtain ⟨st, hst, hhangs⟩ := h.hanging order horder
    exact hangs_onActionSent hst hhangs fun hk hid =>
      hnew action.newOrder (by rw [ordersOf_newOrder hk]; exact List.mem_singleton_self _)
        (List.mem_map.mpr ⟨order, horder, hid⟩)

theorem Reports.sendAll (h : Reports lost delivered m sent handled orderQueue)
    (actions : List Action) (nowNs : UInt64)
    (hnew : ∀ order ∈ ordersOf actions, order.orderId ∉ lost.map (·.orderId)) :
    Reports lost delivered (actions.foldl (fun m action => m.onActionSent action nowNs) m)
      (sent ++ actions) handled orderQueue := by
  induction actions generalizing m sent with
  | nil =>
    rw [List.append_nil]
    exact h
  | cons action actions ih =>
    have hcons : ordersOf (action :: actions) = ordersOf [action] ++ ordersOf actions :=
      ordersOf_append [action] actions
    rw [hcons] at hnew
    have hrest := ih (h.send action nowNs fun order horder =>
      hnew order (List.mem_append_left _ horder)) fun order horder =>
        hnew order (List.mem_append_right _ horder)
    rw [List.append_assoc] at hrest
    exact hrest

theorem Reports.answer (h : Reports lost delivered m sent handled orderQueue) {action : Action}
    (haction : sent[handled]? = some action) {events : List OrderEvent}
    (hevents : events.map reportOf = answerKeys action) :
    Reports lost delivered m sent (handled + 1) (orderQueue ++ events) := by
  obtain ⟨hlt, hget⟩ := List.getElem?_eq_some_iff.mp haction
  have hdue : due sent (handled + 1) (orderQueue ++ events) = due sent handled orderQueue := by
    rw [due, due, List.drop_eq_getElem_cons hlt, hget, List.flatMap_cons, List.map_append, hevents,
      List.append_assoc]
  exact ⟨hlt, by rw [hdue, h.sent_eq], h.seen, by rw [hdue]; exact h.awaited, h.tracked,
    h.hanging⟩

/-- The next report is applied, or refused because one like it has been. -/
theorem Reports.deliver {event : OrderEvent}
    (h : Reports lost delivered m sent handled (event :: orderQueue))
    (hids : ((lost ++ ordersOf sent).map (·.orderId)).Nodup) :
    Reports lost (delivered ++ [reportOf event]) (m.applyOrderEvent event).1 sent handled
      orderQueue := by
  rw [List.map_append] at hids
  have hdue : due sent handled (event :: orderQueue) =
      reportOf event :: due sent handled orderQueue := rfl
  have hsplit : sent.flatMap answerKeys =
      delivered ++ (event.orderId, event.key) :: due sent handled orderQueue := by
    rw [h.sent_eq, hdue]
    rfl
  have hanswer : (event.orderId, event.key) ∈ sent.flatMap answerKeys := by
    rw [hsplit]
    exact List.mem_append_right _ List.mem_cons_self
  refine ⟨h.handled_le, by rw [h.sent_eq, hdue, List.append_assoc]; rfl, ?_, ?_, ?_, ?_⟩
  · intro id key
    rw [seenFor_applyOrderEvent, List.mem_append, List.mem_singleton, ← h.seen, reportOf,
      Prod.mk.injEq]
    split
    · rename_i hid
      rw [Finset.mem_insert, or_comm]
      exact or_congr_right ⟨fun hkey => ⟨hid, hkey⟩, And.right⟩
    · rename_i hid
      exact (or_iff_left fun hboth => hid hboth.1).symm
  · intro id st hst hlive hlost
    by_cases hid : id = event.orderId
    · subst hid
      by_cases hseen : event.key ∈ m.seenFor event.orderId
      · -- a refused report cannot be the one the record waits for
        rw [applyOrderEvent_of_seen m hseen] at hst
        obtain ⟨quantity, hmem⟩ := h.awaited _ st hst hlive hlost
        rw [hdue, List.mem_cons] at hmem
        rcases hmem with hhead | hmem
        · have hkey : event.key = ⟨.filled, quantity, 0⟩ := (congrArg Prod.snd hhead).symm
          have hdelivered := (h.seen event.orderId event.key).mp hseen
          rw [hkey] at hdelivered hsplit
          exact absurd List.mem_cons_self
            (filled_once (List.nodup_append.mp hids).2.1 hsplit hdelivered)
        · exact ⟨quantity, hmem⟩
      · rw [applyOrderEvent_of_new m hseen, AList.lookup_insert] at hst
        cases hst
        rcases key_of_mem_answerKeys hanswer with hactive | ⟨quantity, hfilled⟩ | hcancelled
        · exact filled_behind_active hsplit hactive
        · have hstatus : event.status = .filled := congrArg OrderEventKey.status hfilled
          simp [OrderState.reported, hstatus, isTerminal] at hlive
        · have hstatus : event.status = .cancelled := hcancelled
          simp [OrderState.reported, hstatus, isTerminal] at hlive
    · rw [lookup_applyOrderEvent_ne m event hid] at hst
      obtain ⟨quantity, hmem⟩ := h.awaited id st hst hlive hlost
      rw [hdue, List.mem_cons] at hmem
      rcases hmem with hhead | hmem
      · exact absurd (congrArg Prod.fst hhead) hid
      · exact ⟨quantity, hmem⟩
  · intro order horder
    by_cases hid : order.orderId = event.orderId
    · by_cases hseen : event.key ∈ m.seenFor event.orderId
      · rw [applyOrderEvent_of_seen m hseen]
        exact h.tracked order horder
      · rw [hid, applyOrderEvent_of_new m hseen, AList.lookup_insert]
        exact Option.some_ne_none _
    · rw [lookup_applyOrderEvent_ne m event hid]
      exact h.tracked order horder
  · intro order horder
    obtain ⟨st, hst, hhangs⟩ := h.hanging order horder
    by_cases hid : order.orderId = event.orderId
    · by_cases hseen : event.key ∈ m.seenFor event.orderId
      · rw [applyOrderEvent_of_seen m hseen]
        have hbefore := (h.seen event.orderId event.key).mp hseen
        rw [← hid] at hbefore
        exact ⟨st, hst, hhangs.other (.inl ⟨event.key, hbefore⟩)⟩
      · -- the exchange does not know the order, so this is the answer to a cancel
        have hunknown : event.orderId ∉ (ordersOf sent).map (·.orderId) := by
          rw [← hid]
          exact fun hmem => List.disjoint_of_nodup_append hids
            (List.mem_map.mpr ⟨order, horder, rfl⟩) hmem
        have hkey := ((mem_answerKeys_of_cancelled hunknown).mp hanswer).1
        rw [hid] at hst ⊢
        exact ⟨_, lookup_applyOrderEvent_of_new m hseen hst, hhangs.reported hid hkey⟩
    · rw [lookup_applyOrderEvent_ne m event hid]
      exact ⟨st, hst, hhangs.other (.inr (Ne.symm hid))⟩

theorem Reports.trade (h : Reports lost delivered m sent handled orderQueue) {event : TradeEvent}
    (hknown : event.orderId ∉ lost.map (·.orderId)) :
    Reports lost delivered (m.applyTradeEvent event) sent handled orderQueue := by
  refine ⟨h.handled_le, h.sent_eq, h.seen, fun id st hst hlive hlost => ?_, fun order horder =>
    lookup_modify_ne_none _ _ (h.tracked order horder), fun order horder => ?_⟩
  · by_cases hid : id = event.orderId
    · subst hid
      rw [lookup_applyTradeEvent_self] at hst
      obtain ⟨old, hold, rfl⟩ := Option.map_eq_some_iff.mp hst
      refine h.awaited _ old hold ?_ hlost
      by_contra hterm
      rw [traded_terminal (by simpa using hterm) event] at hlive
      cases hlive
    · rw [lookup_applyTradeEvent_ne m event hid] at hst
      exact h.awaited id st hst hlive hlost
  · obtain ⟨st, hst, hhangs⟩ := h.hanging order horder
    have hid : order.orderId ≠ event.orderId :=
      fun hsame => hknown (List.mem_map.mpr ⟨order, horder, hsame⟩)
    exact ⟨st, (lookup_applyTradeEvent_ne m event hid).trans hst, hhangs⟩

end Reports

section Trades
variable {first : UInt64} {traded : List TradeEvent} {ledger : Ledger} {sent : List Action}
  {handled : Nat} {gateway : TradeSimulator} {tradeQueue : List TradeEvent}

theorem exists_of_fills {orders : List NewOrder} {trades : List TradeEvent} {trade : TradeEvent}
    (h : List.Forall₂ Fills orders trades) (htrade : trade ∈ trades) :
    ∃ order ∈ orders, Fills order trade := by
  induction h with
  | nil => exact absurd htrade List.not_mem_nil
  | @cons first _ orders _ hfirst _ ih =>
    rcases List.mem_cons.mp htrade with rfl | hlater
    · exact ⟨first, List.mem_cons_self, hfirst⟩
    · obtain ⟨order, horder, hone⟩ := ih hlater
      exact ⟨order, List.mem_cons_of_mem _ horder, hone⟩

theorem trades_new (first : UInt64) : Trades first [] Ledger.new [] 0 ⟨first, []⟩ [] where
  ledger := rfl
  fills := .nil
  ids := draws_nil first
  published := rfl

theorem Trades.sendAll (h : Trades first traded ledger sent handled gateway tradeQueue)
    (hle : handled ≤ sent.length) (actions : List Action) :
    Trades first traded ledger (sent ++ actions) handled gateway tradeQueue :=
  ⟨h.ledger, by rw [List.take_append_of_le_length hle]; exact h.fills, h.ids, h.published⟩

/-- A new order is filled by one trade at once, a cancel by none. -/
theorem fills_sendOrder (h : gateway.events = []) (action : Action) (now₁ now₂ now₃ : UInt64) :
    List.Forall₂ Fills (ordersOf [action])
      (tradeEventsOf (gateway.sendOrder action now₁ now₂ now₃).pollEvents.2) := by
  cases hk : action.kind with
  | newOrder =>
    have htrades : tradeEventsOf (gateway.sendOrder action now₁ now₂ now₃).pollEvents.2 =
        [⟨action.newOrder.instrumentId, gateway.nextTradeId, action.newOrder.orderId,
          action.newOrder.side, action.newOrder.limitPrice, action.newOrder.quantity, now₂⟩] := by
      simp [TradeSimulator.sendOrder, hk, TradeSimulator.pushOrderEvent,
        TradeSimulator.pushTradeEvent, TradeSimulator.pollEvents, tradeEventsOf, h]
    rw [htrades, ordersOf_newOrder hk]
    exact .cons ⟨rfl, rfl, rfl, rfl⟩ .nil
  | cancelOrder =>
    have htrades : tradeEventsOf (gateway.sendOrder action now₁ now₂ now₃).pollEvents.2 = [] := by
      simp [TradeSimulator.sendOrder, hk, TradeSimulator.pushOrderEvent,
        TradeSimulator.pollEvents, tradeEventsOf, h]
    rw [htrades, ordersOf_cancelOrder hk]
    exact .nil

theorem draws_sendOrder {ids : List UInt64} (hids : Draws first ids gateway.nextTradeId)
    (h : gateway.events = []) (action : Action) (now₁ now₂ now₃ : UInt64) :
    Draws first
      (ids ++ (tradeEventsOf (gateway.sendOrder action now₁ now₂ now₃).pollEvents.2).map
        (·.tradeId))
      (gateway.sendOrder action now₁ now₂ now₃).pollEvents.1.nextTradeId := by
  cases hk : action.kind with
  | newOrder =>
    simp only [TradeSimulator.sendOrder, hk, TradeSimulator.pushOrderEvent,
      TradeSimulator.pushTradeEvent, TradeSimulator.pollEvents, tradeEventsOf, h]
    exact hids.draw
  | cancelOrder =>
    simp only [TradeSimulator.sendOrder, hk, TradeSimulator.pushOrderEvent,
      TradeSimulator.pollEvents, tradeEventsOf, h, List.append_nil, List.nil_append,
      List.filterMap_cons, List.filterMap_nil, List.map_nil]
    exact hids

theorem Trades.answer (h : Trades first traded ledger sent handled gateway tradeQueue)
    {action : Action} (haction : sent[handled]? = some action) (now₁ now₂ now₃ : UInt64) :
    Trades first traded ledger sent (handled + 1)
      (gateway.sendOrder action now₁ now₂ now₃).pollEvents.1
      (tradeQueue ++ tradeEventsOf (gateway.sendOrder action now₁ now₂ now₃).pollEvents.2) := by
  refine ⟨h.ledger, ?_, ?_, rfl⟩
  · rw [List.take_add_one, haction, ordersOf_append, ← List.append_assoc]
    exact List.rel_append h.fills (fills_sendOrder h.published action now₁ now₂ now₃)
  · rw [← List.append_assoc, List.map_append]
    exact draws_sendOrder h.ids h.published action now₁ now₂ now₃

theorem Trades.deliver {event : TradeEvent}
    (h : Trades first traded ledger sent handled gateway (event :: tradeQueue)) :
    Trades first (traded ++ [event]) (ledger.applyTradeEvent event).1 sent handled gateway
      tradeQueue := by
  have hqueue : traded ++ event :: tradeQueue = (traded ++ [event]) ++ tradeQueue := by
    rw [List.append_assoc, List.singleton_append]
  refine ⟨?_, ?_, ?_, h.published⟩
  · rw [Ledger.applyAll_append, ← h.ledger]
    rfl
  · rw [← hqueue]
    exact h.fills
  · rw [← hqueue]
    exact h.ids

end Trades

theorem reports_sendOrder {gateway : TradeSimulator} (h : gateway.events = []) (action : Action)
    (now₁ now₂ now₃ : UInt64) :
    (orderEventsOf (gateway.sendOrder action now₁ now₂ now₃).pollEvents.2).map reportOf =
      answerKeys action := by
  cases hk : action.kind with
  | newOrder =>
    simp [TradeSimulator.sendOrder, hk, TradeSimulator.pushOrderEvent,
      TradeSimulator.pushTradeEvent, TradeSimulator.pollEvents, orderEventsOf, h, answerKeys,
      reportOf, OrderEvent.key]
  | cancelOrder =>
    simp [TradeSimulator.sendOrder, hk, TradeSimulator.pushOrderEvent,
      TradeSimulator.pollEvents, orderEventsOf, h, answerKeys, reportOf, OrderEvent.key]

theorem draws_of_issues {first counter counter' : UInt64} {ids : List UInt64}
    {actions : List Action} (h : Draws first ids counter)
    (hissues : RunnerView.Issues counter actions counter') :
    Draws first (ids ++ (ordersOf actions).map (·.orderId)) counter' := by
  induction actions generalizing ids counter with
  | nil =>
    cases hissues
    rw [ordersOf, List.filterMap_nil, List.map_nil, List.append_nil]
    exact h
  | cons action actions ih =>
    obtain ⟨hid, hrest⟩ := hissues
    have hcons : ordersOf (action :: actions) = ordersOf [action] ++ ordersOf actions :=
      ordersOf_append [action] actions
    rw [hcons, List.map_append, ← List.append_assoc]
    cases hk : action.kind with
    | newOrder =>
      rw [if_pos hk] at hrest
      rw [ordersOf_newOrder hk, List.map_singleton, hid hk]
      exact ih h.draw hrest
    | cancelOrder =>
      have hne : action.kind ≠ .newOrder := by
        rw [hk]
        exact nofun
      rw [if_neg hne] at hrest
      rw [ordersOf_cancelOrder hk, List.map_nil, List.append_nil]
      exact ih h hrest

end Nnxt.TradingLoop
