import Nnxt.OneTarget

/-!
# Where the one order stands

Eight phases cover every interleaving of the two deliveries. Each fixes the
record of the order, the position and what is left on the queues.
-/

namespace Nnxt.OverTrading

set_option autoImplicit false

open HashMap FixedWidth OrderManager

structure Answer (order : NewOrder) where
  active : OrderEvent
  filled : OrderEvent
  trade : TradeEvent
  active_id : active.orderId = order.orderId
  active_key : active.key = ⟨.active, 0, order.quantity⟩
  filled_id : filled.orderId = order.orderId
  filled_key : filled.key = ⟨.filled, order.quantity, 0⟩
  trade_id : trade.orderId = order.orderId
  trade_instrument : trade.instrumentId = order.instrumentId
  trade_side : trade.side = order.side
  trade_quantity : trade.quantity = order.quantity

/-- Where the one order stands. From `answered` on the name tells what has been
delivered, in that order where it matters. -/
inductive Phase where
  | waiting
  | answered
  | active
  | filled
  | traded
  | activeTraded
  | tradedActive
  | done
  deriving DecidableEq

namespace Phase

def handled : Phase → Nat
  | waiting => 0
  | _ => 1

def status : Phase → OrderStatus
  | waiting | answered => .pendingNew
  | active | tradedActive => .active
  | filled | traded | activeTraded | done => .filled

def held (target : Int64) : Phase → Int64
  | waiting | answered | active | filled => 0
  | traded | activeTraded | tradedActive | done => target

def applied (order : NewOrder) : Phase → Finset OrderEventKey
  | waiting | answered | traded => ∅
  | active | activeTraded | tradedActive => {⟨.active, 0, order.quantity⟩}
  | filled | done => {⟨.filled, order.quantity, 0⟩, ⟨.active, 0, order.quantity⟩}

def orderQueue {order : NewOrder} (answer : Answer order) : Phase → List OrderEvent
  | answered | traded => [answer.active, answer.filled]
  | active | activeTraded | tradedActive => [answer.filled]
  | waiting | filled | done => []

def tradeQueue {order : NewOrder} (answer : Answer order) : Phase → List TradeEvent
  | answered | active | filled => [answer.trade]
  | waiting | traded | activeTraded | tradedActive | done => []

def afterOrder : Phase → Phase
  | answered => active
  | active => filled
  | traded => tradedActive
  | activeTraded | tradedActive => done
  | phase => phase

def afterTrade : Phase → Phase
  | answered => traded
  | active => activeTraded
  | filled => done
  | phase => phase

def effective (target : Int64) : Phase → Int64
  | filled => 0
  | tradedActive => target + target
  | _ => target

end Phase

/-- The record of the order; before the end nothing of it counts as filled. -/
structure Tracks (order : NewOrder) (status : OrderStatus) (st : OrderState) : Prop where
  instrumentId : st.order.instrumentId = order.instrumentId
  side : st.order.side = order.side
  quantity : st.order.quantity = order.quantity
  unfilled : isTerminal status = false → st.order.filledQuantity = 0
  status : st.order.status = status

/-- The order has been sent and no second one. -/
structure InPhase (instrumentId : InstrumentId) (target : Int64) {order : NewOrder}
    (answer : Answer order) (phase : Phase) (s : System) : Prop where
  nonzero : target ≠ 0
  covers : order.Covers instrumentId target
  sent : s.runner.sent = [.ofNewOrder order]
  handled : s.handled = phase.handled
  gateway : s.gateway.events = []
  orderQueue : s.orderQueue = phase.orderQueue answer
  tradeQueue : s.tradeQueue = phase.tradeQueue answer
  record : ∃ st, s.runner.state.orderManager.orders = AList.insert order.orderId st ∅ ∧
    Tracks order phase.status st
  applied : s.runner.state.orderManager.seenFor order.orderId = phase.applied order
  held : s.runner.state.ledger.quantity instrumentId = phase.held target
  untraded : ∀ trade ∈ phase.tradeQueue answer, trade.tradeId ∉ s.runner.state.ledger.fillLedger.seen
  unseen : phase = .waiting → s.runner.state.ledger.fillLedger.seen = ∅

structure Unsent (s : System) : Prop where
  orderManager : s.runner.state.orderManager = OrderManager.default
  ledger : s.runner.state.ledger = Ledger.new
  sent : s.runner.sent = []
  handled : s.handled = 0
  gateway : s.gateway.events = []
  orderQueue : s.orderQueue = []
  tradeQueue : s.tradeQueue = []

def Inv (instrumentId : InstrumentId) (target : Int64) (s : System) : Prop :=
  Unsent s ∨ ∃ (order : NewOrder) (answer : Answer order) (phase : Phase),
    InPhase instrumentId target answer phase s

section Record
variable {instrumentId : InstrumentId} {target : Int64} {order : NewOrder} {status : OrderStatus}
  {st : OrderState}

theorem tracks_sent (order : NewOrder) (nowNs : UInt64) :
    Tracks order .pendingNew (.sent order nowNs) := ⟨rfl, rfl, rfl, fun _ => rfl, rfl⟩

theorem Tracks.reported (h : Tracks order status st) {event : OrderEvent} {status' : OrderStatus}
    {filled remaining : UInt64} (hkey : event.key = ⟨status', filled, remaining⟩)
    (hsum : saturatingAdd filled remaining = order.quantity)
    (hunfilled : isTerminal status' = false → filled = 0) :
    Tracks order status' (st.reported event) := by
  have hstatus : event.status = status' := congrArg OrderEventKey.status hkey
  have hfilled : event.filledQuantity = filled := congrArg OrderEventKey.filledQuantity hkey
  have hremaining : event.remainingQuantity = remaining :=
    congrArg OrderEventKey.remainingQuantity hkey
  refine ⟨h.instrumentId, h.side, ?_, ?_, hstatus⟩
  · -- the quantity of a record only grows, and here it is the whole already
    simp only [OrderState.reported, hfilled, hremaining, hsum, h.quantity, ite_self]
  · intro hopen
    exact hfilled.trans (hunfilled hopen)

theorem Tracks.active (h : Tracks order status st) (answer : Answer order) :
    Tracks order .active (st.reported answer.active) :=
  h.reported answer.active_key (zero_saturatingAdd _) fun _ => rfl

theorem Tracks.filled (h : Tracks order status st) (answer : Answer order) :
    Tracks order .filled (st.reported answer.filled) := by
  refine h.reported answer.filled_key (saturatingAdd_zero _) ?_
  intro hopen
  cases hopen

theorem Tracks.traded (h : Tracks order status st) (answer : Answer order) :
    Tracks order .filled (st.traded answer.trade) := by
  -- the whole quantity at once, whatever was reported before
  have hfull : st.order.quantity ≤
      saturatingAdd st.order.filledQuantity answer.trade.quantity := by
    rw [UInt64.le_iff_toNat_le, toNat_saturatingAdd, answer.trade_quantity, h.quantity]
    have hlt := order.quantity.toNat_lt
    omega
  refine ⟨h.instrumentId, h.side, h.quantity, ?_, if_pos hfull⟩
  intro hopen
  cases hopen

theorem Tracks.exposure_of_terminal (h : Tracks order status st)
    (hterm : isTerminal status = true) : addExposure instrumentId (0, 0) st = (0, 0) := by
  unfold addExposure
  rw [h.status, if_pos hterm, ite_self]

theorem Tracks.exposure_of_open (h : Tracks order status st) (hopen : isTerminal status = false)
    (hcovers : order.Covers instrumentId target) (hne : target ≠ 0) :
    addExposure instrumentId (0, 0) st =
      if 0 < target then (unsignedAbs target, 0) else (0, unsignedAbs target) := by
  have hq : st.order.quantity = unsignedAbs target := h.quantity.trans hcovers.quantity
  have hremaining : st.remaining = unsignedAbs target := by
    apply UInt64.toNat_inj.mp
    rw [OrderState.remaining, toNat_saturatingSub, h.unfilled hopen, hq, UInt64.toNat_zero,
      Nat.sub_zero]
  have hpositive : unsignedAbs target ≠ 0 := by
    intro hzero
    have habs := congrArg UInt64.toNat hzero
    rw [toNat_unsignedAbs, UInt64.toNat_zero, Int.natAbs_eq_zero] at habs
    exact hne (Int64.toInt_inj.mp habs)
  unfold addExposure
  rw [h.instrumentId, hcovers.instrumentId, if_neg (not_not.mpr rfl), h.status, hopen,
    if_neg Bool.false_ne_true, hremaining, if_neg hpositive, h.side, hcovers.side]
  by_cases hpos : 0 < target
  · rw [if_pos hpos, if_pos hpos]
    simp only [zero_saturatingAdd]
  · rw [if_neg hpos, if_neg hpos]
    simp only [zero_saturatingAdd]

theorem signed_exposure (held target : Int64) :
    held + (if 0 < target then (unsignedAbs target, 0) else ((0 : UInt64), unsignedAbs target)).1.toInt64
        - (if 0 < target then (unsignedAbs target, 0) else ((0 : UInt64), unsignedAbs target)).2.toInt64
      = held + target := by
  have hzero : (0 : UInt64).toInt64 = 0 := rfl
  by_cases hpos : 0 < target
  · simp only [if_pos hpos, unsignedAbs_toInt64_of_pos hpos, hzero, Int64.sub_zero]
  · simp only [if_neg hpos, unsignedAbs_toInt64_of_not_pos hpos, hzero, Int64.add_zero,
      Int64.sub_neg]

theorem Answer.delta (answer : Answer order) (hcovers : order.Covers instrumentId target) :
    answer.trade.delta = target := by
  simp only [TradeEvent.delta, answer.trade_side, answer.trade_quantity, hcovers.side,
    hcovers.quantity]
  by_cases hpos : 0 < target
  · rw [if_pos hpos]
    exact unsignedAbs_toInt64_of_pos hpos
  · rw [if_neg hpos]
    simp only [unsignedAbs_toInt64_of_not_pos hpos, Int64.neg_neg]

end Record

end Nnxt.OverTrading
