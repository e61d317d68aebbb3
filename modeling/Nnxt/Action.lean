import Nnxt.Specs
import Nnxt.Foundation.FixedWidth

/-!
# Intents of a strategy and actions sent to a gateway

An `Action` carries both payloads, as the C-layout record of the source does;
`kind` says which of them is meant.
-/

namespace Nnxt

set_option autoImplicit false

open FixedWidth

inductive ActionKind where
  | newOrder
  | cancelOrder
  deriving DecidableEq, Repr

structure NewOrder where
  instrumentId : InstrumentId
  orderId : UInt64
  clientOrderId : UInt64
  side : Side
  priceType : PriceType
  limitPrice : Price
  quantity : UInt64
  timestamp : UInt64
  deriving DecidableEq, Repr

structure CancelOrder where
  instrumentId : InstrumentId
  orderId : UInt64
  timestamp : UInt64
  deriving DecidableEq, Repr

structure Action where
  kind : ActionKind
  newOrder : NewOrder
  cancelOrder : CancelOrder
  deriving DecidableEq, Repr

/-- `Action::new_order`; the cancel payload is padding. -/
def Action.ofNewOrder (action : NewOrder) : Action where
  kind := .newOrder
  newOrder := action
  cancelOrder := ⟨action.instrumentId, 0, action.timestamp⟩

/-- `Action::cancel_order`; the order payload is padding. -/
def Action.ofCancelOrder (action : CancelOrder) : Action where
  kind := .cancelOrder
  newOrder := ⟨action.instrumentId, 0, 0, .buy, .limit, 0, 0, action.timestamp⟩
  cancelOrder := action

structure TargetPositionIntent where
  instrumentId : InstrumentId
  targetQuantity : Int64
  priceType : PriceType
  limitPrice : Price
  deriving DecidableEq, Repr

structure TargetOrder where
  side : Side
  priceType : PriceType
  limitPrice : Price
  quantity : UInt64
  deriving DecidableEq, Repr

structure TargetOrdersIntent where
  instrumentId : InstrumentId
  orders : List TargetOrder
  deriving DecidableEq, Repr

structure CancelOrderIntent where
  instrumentId : InstrumentId
  orderId : UInt64
  deriving DecidableEq, Repr

inductive Intent where
  | targetPosition (intent : TargetPositionIntent)
  | targetOrders (intent : TargetOrdersIntent)
  | cancelOrder (intent : CancelOrderIntent)
  deriving DecidableEq, Repr

def Action.orderId (a : Action) : UInt64 :=
  match a.kind with
  | .newOrder => a.newOrder.orderId
  | .cancelOrder => a.cancelOrder.orderId

/-- The quantity of a new order with the sign of its side; a cancel moves nothing. -/
def Action.signedQuantity (a : Action) : Int :=
  match a.kind, a.newOrder.side with
  | .newOrder, .buy => a.newOrder.quantity.toNat
  | .newOrder, .sell => -a.newOrder.quantity.toNat
  | .cancelOrder, _ => 0

/-- The order moves the position by `delta` once it is filled. -/
structure NewOrder.Covers (order : NewOrder) (instrumentId : InstrumentId) (delta : Int64) :
    Prop where
  instrumentId : order.instrumentId = instrumentId
  side : order.side = if 0 < delta then .buy else .sell
  quantity : order.quantity = unsignedAbs delta

theorem NewOrder.Covers.signedQuantity {order : NewOrder} {instrumentId : InstrumentId}
    {delta : Int64} (h : order.Covers instrumentId delta) :
    (Action.ofNewOrder order).signedQuantity = delta.toInt := by
  simp only [Action.signedQuantity, Action.ofNewOrder, h.side, h.quantity]
  by_cases hpos : 0 < delta
  · have hint : 0 < delta.toInt := Int64.lt_iff_toInt_lt.mp hpos
    rw [if_pos hpos]
    simp only [toNat_unsignedAbs]
    omega
  · have hint : ¬ 0 < delta.toInt := fun h => hpos (Int64.lt_iff_toInt_lt.mpr h)
    rw [if_neg hpos]
    simp only [toNat_unsignedAbs]
    omega

end Nnxt
