import Nnxt.Action

/-!
# The simulated trade gateway

`send_order` answers a new order with three events, two for the order queue and
one for the trade queue, and a cancel with one. The clock is read once for each
event; the readings are arguments.
-/

namespace Nnxt

set_option autoImplicit false

inductive TradeGatewayEvent where
  | order (event : OrderEvent)
  | trade (event : TradeEvent)
  deriving DecidableEq, Repr

def TradeGatewayEvent.orderId : TradeGatewayEvent → UInt64
  | .order event => event.orderId
  | .trade event => event.orderId

structure TradeSimulator where
  nextTradeId : UInt64
  events : List TradeGatewayEvent
  deriving DecidableEq, Repr

namespace TradeSimulator

def new : TradeSimulator := ⟨1, []⟩

def pushOrderEvent (g : TradeSimulator) (orderId : UInt64) (instrumentId : InstrumentId)
    (status : OrderStatus) (filledQuantity remainingQuantity : UInt64) (lastPrice : Price)
    (nowNs : UInt64) : TradeSimulator :=
  { g with events := g.events ++
      [.order ⟨instrumentId, orderId, status, filledQuantity, remainingQuantity, lastPrice, nowNs⟩] }

def pushTradeEvent (g : TradeSimulator) (orderId : UInt64) (instrumentId : InstrumentId)
    (side : Side) (price : Price) (quantity : UInt64) (nowNs : UInt64) : TradeSimulator where
  nextTradeId := g.nextTradeId + 1
  events := g.events ++
    [.trade ⟨instrumentId, g.nextTradeId, orderId, side, price, quantity, nowNs⟩]

def sendOrder (g : TradeSimulator) (action : Action) (now₁ now₂ now₃ : UInt64) : TradeSimulator :=
  match action.kind with
  | .newOrder =>
    let order := action.newOrder
    let g := g.pushOrderEvent order.orderId order.instrumentId .active 0 order.quantity
      order.limitPrice now₁
    let g := g.pushTradeEvent order.orderId order.instrumentId order.side order.limitPrice
      order.quantity now₂
    g.pushOrderEvent order.orderId order.instrumentId .filled order.quantity 0
      order.limitPrice now₃
  | .cancelOrder =>
    let cancel := action.cancelOrder
    g.pushOrderEvent cancel.orderId cancel.instrumentId .cancelled 0 0 0 now₁

def pollEvents (g : TradeSimulator) : TradeSimulator × List TradeGatewayEvent :=
  (⟨g.nextTradeId, []⟩, g.events)

theorem orderId_of_mem_sendOrder {g : TradeSimulator} {action : Action} {now₁ now₂ now₃ : UInt64}
    {event : TradeGatewayEvent} (h : event ∈ (g.sendOrder action now₁ now₂ now₃).events) :
    event ∈ g.events ∨ event.orderId = action.orderId := by
  unfold sendOrder at h
  cases hk : action.kind with
  | newOrder =>
    simp only [hk, pushOrderEvent, pushTradeEvent, List.mem_append, List.mem_singleton] at h
    simp only [Action.orderId, hk]
    rcases h with ((h | h) | h) | h
    · exact Or.inl h
    · exact Or.inr (h ▸ rfl)
    · exact Or.inr (h ▸ rfl)
    · exact Or.inr (h ▸ rfl)
  | cancelOrder =>
    simp only [hk, pushOrderEvent, List.mem_append, List.mem_singleton] at h
    simp only [Action.orderId, hk]
    rcases h with h | h
    · exact Or.inl h
    · exact Or.inr (h ▸ rfl)

end TradeSimulator

def orderEventsOf (events : List TradeGatewayEvent) : List OrderEvent :=
  events.filterMap fun
    | .order event => some event
    | .trade _ => none

def tradeEventsOf (events : List TradeGatewayEvent) : List TradeEvent :=
  events.filterMap fun
    | .order _ => none
    | .trade event => some event

/-- One buy order and the simulator's answer to it, for runs on fixed inputs. -/
def buyFive : Action := .ofNewOrder ⟨default, 1, 0, .buy, .limit, 10, 5, 0⟩

def buyFiveAnswer : List TradeGatewayEvent :=
  (TradeSimulator.new.sendOrder buyFive 2 3 4).pollEvents.2

end Nnxt
