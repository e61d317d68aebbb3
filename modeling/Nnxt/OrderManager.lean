import Nnxt.Action
import Nnxt.Foundation.HashMap

/-!
# Order lifecycle

The handlers of `order_manager.rs`. Order events set the cumulative fill,
trade events add to it; both are applied to the same record.
-/

namespace Nnxt

set_option autoImplicit false

open HashMap FixedWidth

structure OrderEventKey where
  status : OrderStatus
  filledQuantity : UInt64
  remainingQuantity : UInt64
  deriving DecidableEq

structure OrderState where
  order : Order
  deriving DecidableEq

structure OrderManager where
  orders : Map UInt64 OrderState
  orderEventSeen : Map UInt64 (Finset OrderEventKey)

def isTerminal : OrderStatus → Bool
  | .filled | .cancelled | .rejected => true
  | _ => false

def OrderEvent.key (event : OrderEvent) : OrderEventKey :=
  ⟨event.status, event.filledQuantity, event.remainingQuantity⟩

def OrderState.remaining (state : OrderState) : UInt64 :=
  saturatingSub state.order.quantity state.order.filledQuantity

/-- The cancel branch of `on_action_sent`. -/
def OrderState.cancelSent (nowNs : UInt64) (state : OrderState) : OrderState :=
  if isTerminal state.order.status then state
  else ⟨{ state.order with status := .pendingCancel, timestamp := nowNs }⟩

def OrderState.reported (event : OrderEvent) (state : OrderState) : OrderState :=
  let quantity := saturatingAdd event.filledQuantity event.remainingQuantity
  ⟨{ state.order with
    status := event.status
    -- set to the cumulative fill of the event, whatever the trades have added
    filledQuantity := event.filledQuantity
    timestamp := event.timestamp
    -- the quantity only ever grows
    quantity := if state.order.quantity < quantity then quantity else state.order.quantity }⟩

def OrderState.traded (event : TradeEvent) (state : OrderState) : OrderState :=
  -- added to whatever the order events have set
  let filled := saturatingAdd state.order.filledQuantity event.quantity
  ⟨{ state.order with
    filledQuantity := filled
    timestamp := event.timestamp
    status :=
      if state.order.quantity ≤ filled then .filled
      else if state.order.status = .pendingNew then .active
      else state.order.status }⟩

def OrderState.sent (action : NewOrder) (nowNs : UInt64) : OrderState where
  order :=
    { instrumentId := action.instrumentId
      orderId := action.orderId
      clientOrderId := action.clientOrderId
      side := action.side
      priceType := action.priceType
      limitPrice := action.limitPrice
      quantity := action.quantity
      filledQuantity := 0
      status := .pendingNew
      timestamp := nowNs }

/-- The record made up for an order the runner has never sent. -/
def OrderState.fabricated (event : OrderEvent) : OrderState where
  order :=
    { instrumentId := event.instrumentId
      orderId := event.orderId
      clientOrderId := 0
      side := .buy
      priceType := .limit
      limitPrice := event.lastPrice
      quantity := saturatingAdd event.filledQuantity event.remainingQuantity
      filledQuantity := event.filledQuantity
      status := event.status
      timestamp := event.timestamp }

namespace OrderManager

protected def default : OrderManager := ⟨∅, ∅⟩

def onActionSent (m : OrderManager) (action : Action) (nowNs : UInt64) : OrderManager :=
  match action.kind with
  | .newOrder =>
    { m with orders := m.orders.insert action.newOrder.orderId (.sent action.newOrder nowNs) }
  | .cancelOrder =>
    { m with orders := modify action.cancelOrder.orderId (.cancelSent nowNs) m.orders }

def seenFor (m : OrderManager) (orderId : UInt64) : Finset OrderEventKey :=
  (m.orderEventSeen.lookup orderId).getD ∅

/-- The flag tells whether the event was new. -/
def applyOrderEvent (m : OrderManager) (event : OrderEvent) : OrderManager × Bool :=
  if event.key ∈ m.seenFor event.orderId then (m, false)
  else
    -- an unknown id gets a record of its own
    let state := (m.orders.lookup event.orderId).getD (.fabricated event)
    ({ orders := m.orders.insert event.orderId (state.reported event)
       orderEventSeen :=
         m.orderEventSeen.insert event.orderId (insert event.key (m.seenFor event.orderId)) },
     true)

def applyTradeEvent (m : OrderManager) (event : TradeEvent) : OrderManager :=
  { m with orders := modify event.orderId (.traded event) m.orders }

def addExposure (instrumentId : InstrumentId) (acc : UInt64 × UInt64) (state : OrderState) :
    UInt64 × UInt64 :=
  if state.order.instrumentId ≠ instrumentId then acc
  else if isTerminal state.order.status then acc
  else if state.remaining = 0 then acc
  else match state.order.side with
    | .buy => (saturatingAdd acc.1 state.remaining, acc.2)
    | .sell => (acc.1, saturatingAdd acc.2 state.remaining)

/-- Pending buys and pending sells, summed in iteration order. -/
def pendingExposure (m : OrderManager) (instrumentId : InstrumentId) : UInt64 × UInt64 :=
  (values m.orders).foldl (addExposure instrumentId) (0, 0)

def ordersOf (m : OrderManager) (instrumentId : InstrumentId) : List Order :=
  ((values m.orders).filter fun state => state.order.instrumentId = instrumentId).map (·.order)

section Handlers
variable (m : OrderManager)

theorem applyOrderEvent_of_seen {event : OrderEvent} (h : event.key ∈ m.seenFor event.orderId) :
    m.applyOrderEvent event = (m, false) := if_pos h

theorem applyOrderEvent_of_new {event : OrderEvent} (h : event.key ∉ m.seenFor event.orderId) :
    m.applyOrderEvent event =
      ({ orders := m.orders.insert event.orderId
           (((m.orders.lookup event.orderId).getD (.fabricated event)).reported event)
         orderEventSeen :=
           m.orderEventSeen.insert event.orderId (insert event.key (m.seenFor event.orderId)) },
       true) := if_neg h

theorem applyOrderEvent_accepted_iff (event : OrderEvent) :
    (m.applyOrderEvent event).2 = true ↔ event.key ∉ m.seenFor event.orderId := by
  by_cases h : event.key ∈ m.seenFor event.orderId
  · simp [applyOrderEvent_of_seen m h, h]
  · simp [applyOrderEvent_of_new m h, h]

theorem seenFor_applyOrderEvent (event : OrderEvent) (orderId : UInt64) :
    (m.applyOrderEvent event).1.seenFor orderId =
      if orderId = event.orderId then insert event.key (m.seenFor orderId)
      else m.seenFor orderId := by
  by_cases h : event.key ∈ m.seenFor event.orderId
  · rw [applyOrderEvent_of_seen m h]
    split
    · rename_i heq
      rw [heq, Finset.insert_eq_of_mem h]
    · rfl
  · rw [applyOrderEvent_of_new m h]
    simp only [seenFor, lookup_insert_eq]
    split
    · rename_i heq
      rw [heq, Option.getD_some]
    · rfl

theorem lookup_applyOrderEvent_ne (event : OrderEvent) {orderId : UInt64}
    (hne : orderId ≠ event.orderId) :
    (m.applyOrderEvent event).1.orders.lookup orderId = m.orders.lookup orderId := by
  by_cases h : event.key ∈ m.seenFor event.orderId
  · rw [applyOrderEvent_of_seen m h]
  · rw [applyOrderEvent_of_new m h]
    exact AList.lookup_insert_ne hne

theorem lookup_applyOrderEvent_of_new {event : OrderEvent} {state : OrderState}
    (hnew : event.key ∉ m.seenFor event.orderId)
    (h : m.orders.lookup event.orderId = some state) :
    (m.applyOrderEvent event).1.orders.lookup event.orderId = some (state.reported event) := by
  rw [applyOrderEvent_of_new m hnew, h, Option.getD_some]
  exact AList.lookup_insert _

@[simp] theorem seenFor_applyTradeEvent (event : TradeEvent) (orderId : UInt64) :
    (m.applyTradeEvent event).seenFor orderId = m.seenFor orderId := rfl

theorem lookup_applyTradeEvent_self (event : TradeEvent) :
    (m.applyTradeEvent event).orders.lookup event.orderId =
      (m.orders.lookup event.orderId).map (.traded event) :=
  lookup_modify_self _ _ _

theorem lookup_applyTradeEvent_ne (event : TradeEvent) {orderId : UInt64}
    (hne : orderId ≠ event.orderId) :
    (m.applyTradeEvent event).orders.lookup orderId = m.orders.lookup orderId :=
  lookup_modify_ne hne _ _

@[simp] theorem seenFor_onActionSent (action : Action) (nowNs orderId : UInt64) :
    (m.onActionSent action nowNs).seenFor orderId = m.seenFor orderId := by
  cases h : action.kind <;> simp only [onActionSent, h, seenFor]

end Handlers

end OrderManager

end Nnxt
