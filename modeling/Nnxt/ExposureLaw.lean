import Nnxt.Exposure

/-!
# What the operations do to the effective position

Each operation exchanges the weight of at most one order; with the sums taken
exactly, the law is what remains of the two sides.
-/

namespace Nnxt.Exposure

set_option autoImplicit false

open HashMap OrderManager FixedWidth

section Operations
variable {s : RunnerState} {i : InstrumentId} {side : Side}

theorem pending_newOrder {action : Action} {nowNs : UInt64} (hk : action.kind = .newOrder)
    (hnone : s.orderManager.orders.lookup action.newOrder.orderId = none) :
    pending side i (s.onActionSent action nowNs).orderManager =
      pending side i s.orderManager +
        (weight side i (OrderState.sent action.newOrder nowNs)).toNat := by
  simp only [RunnerState.onActionSent, onActionSent, hk, pending]
  exact total_insert_of_none _ hnone _

theorem pending_modify (orderId : UInt64) (f : OrderState → OrderState) (m : OrderManager)
    (h : ∀ st, m.orders.lookup orderId = some st → weight side i (f st) = weight side i st) :
    pending side i { m with orders := modify orderId f m.orders } = pending side i m := by
  cases hl : m.orders.lookup orderId with
  | none =>
    simp only [pending]
    rw [modify_of_none hl]
  | some st =>
    have ht := total_modify (fun st => (weight side i st).toNat) hl f
    simp only [h st hl] at ht
    exact Nat.add_right_cancel ht

theorem pending_cancelOrder {action : Action} {nowNs : UInt64} (hk : action.kind = .cancelOrder) :
    pending side i (s.onActionSent action nowNs).orderManager = pending side i s.orderManager := by
  simp only [RunnerState.onActionSent, onActionSent, hk]
  exact pending_modify _ _ _ fun st _ => weight_cancelSent nowNs

theorem pending_trade_of_ne_instrument {event : TradeEvent} {st : OrderState}
    (hst : s.orderManager.orders.lookup event.orderId = some st)
    (hne : st.order.instrumentId ≠ i) :
    pending side i (s.orderManager.applyTradeEvent event) = pending side i s.orderManager := by
  refine pending_modify _ _ _ fun st' hst' => ?_
  have heq : st' = st := Option.some.inj (hst'.symm.trans hst)
  rw [heq, weight_of_ne_instrument hne]
  exact weight_of_ne_instrument hne

theorem pending_trade_of_ne_side {event : TradeEvent} {st : OrderState}
    (hst : s.orderManager.orders.lookup event.orderId = some st)
    (hne : st.order.side ≠ side) :
    pending side i (s.orderManager.applyTradeEvent event) = pending side i s.orderManager := by
  refine pending_modify _ _ _ fun st' hst' => ?_
  have heq : st' = st := Option.some.inj (hst'.symm.trans hst)
  rw [heq, weight_of_ne_side hne]
  exact weight_of_ne_side hne

theorem pending_trade_of_untracked {event : TradeEvent}
    (hnone : s.orderManager.orders.lookup event.orderId = none) :
    pending side i (s.orderManager.applyTradeEvent event) = pending side i s.orderManager := by
  refine pending_modify _ _ _ fun st hst => ?_
  rw [hnone] at hst
  cases hst

theorem pending_trade_of_fill {event : TradeEvent} {st : OrderState}
    (hst : s.orderManager.orders.lookup event.orderId = some st)
    (hi : st.order.instrumentId = i) (hlive : isTerminal st.order.status = false)
    (hside : st.order.side = side) (hle : event.quantity ≤ st.remaining) :
    pending side i (s.orderManager.applyTradeEvent event) + event.quantity.toNat =
      pending side i s.orderManager := by
  have ht := total_modify (fun st => (weight side i st).toNat) hst (.traded event)
  have hw := weight_traded hi hlive hside hle
  simp only [pending, applyTradeEvent]
  omega

def signedTrade (event : TradeEvent) : Int :=
  match event.side with
  | .buy => event.quantity.toNat
  | .sell => -event.quantity.toNat

structure TradeFits (s : RunnerState) (event : TradeEvent) : Prop where
  quantity : FitsI64 event.quantity.toNat
  position : FitsI64 ((s.ledger.quantity event.instrumentId).toInt + signedTrade event)

theorem delta_toInt {event : TradeEvent} (h : FitsI64 event.quantity.toNat) :
    event.delta.toInt = signedTrade event := by
  unfold TradeEvent.delta signedTrade
  cases event.side with
  | buy => exact toInt_toInt64_of_fits h
  | sell =>
    simp only [Int64.toInt_neg, toInt_toInt64_of_fits h]
    have h2 := h.2
    exact bmod_of_fits ⟨by omega, by omega⟩

theorem quantity_trade {event : TradeEvent} (hnew : event.tradeId ∉ s.ledger.fillLedger.seen)
    (hfit : TradeFits s event) :
    ((s.applyTradeEvent event).1.ledger.quantity event.instrumentId).toInt =
      (s.ledger.quantity event.instrumentId).toInt + signedTrade event := by
  rw [RunnerState.applyTradeEvent_of_new s hnew, Ledger.quantity_applyTradeEvent _ hnew]
  have hd := delta_toInt hfit.quantity
  rw [toInt_saturatingAddI64 (by rw [hd]; exact hfit.position), hd]

theorem quantity_trade_ne (event : TradeEvent) (hne : i ≠ event.instrumentId) :
    (s.applyTradeEvent event).1.ledger.quantity i = s.ledger.quantity i := by
  by_cases hseen : event.tradeId ∈ s.ledger.fillLedger.seen
  · rw [RunnerState.applyTradeEvent_of_seen s hseen]
  · rw [RunnerState.applyTradeEvent_of_new s hseen, Ledger.quantity, Ledger.quantity,
      Ledger.position_applyTradeEvent_ne _ event hne]

end Operations

section Law
variable (s : RunnerState)

/-- The orders a trade event may fill without surprise: live, of the trade's
instrument and side, with at least the traded quantity left. -/
def Fillable (st : OrderState) (event : TradeEvent) : Prop :=
  st.order.instrumentId = event.instrumentId ∧ isTerminal st.order.status = false ∧
    st.order.side = event.side ∧ event.quantity ≤ st.remaining

/-- What the operations change in the effective position; every state after an
operation may be iterated in any order. -/
structure Law : Prop where
  newOrder : ∀ (action : Action) (nowNs : UInt64) (s' : RunnerState),
    action.kind = .newOrder → s.orderManager.orders.lookup action.newOrder.orderId = none →
    SameData (s.onActionSent action nowNs) s' →
    (Fits s action.newOrder.instrumentId → Fits s' action.newOrder.instrumentId →
      (s'.effectivePosition action.newOrder.instrumentId).toInt =
        (s.effectivePosition action.newOrder.instrumentId).toInt + action.signedQuantity) ∧
    ∀ i, i ≠ action.newOrder.instrumentId → s'.effectivePosition i = s.effectivePosition i
  cancelOrder : ∀ (action : Action) (nowNs : UInt64) (s' : RunnerState),
    action.kind = .cancelOrder → SameData (s.onActionSent action nowNs) s' →
    ∀ i, s'.effectivePosition i = s.effectivePosition i
  fill : ∀ (event : TradeEvent) (st : OrderState) (s' : RunnerState),
    event.tradeId ∉ s.ledger.fillLedger.seen →
    s.orderManager.orders.lookup event.orderId = some st → Fillable st event →
    SameData (s.applyTradeEvent event).1 s' →
    (TradeFits s event → Fits s event.instrumentId → Fits s' event.instrumentId →
      s'.effectivePosition event.instrumentId = s.effectivePosition event.instrumentId) ∧
    ∀ i, i ≠ event.instrumentId → s'.effectivePosition i = s.effectivePosition i
  untracked : ∀ (event : TradeEvent) (s' : RunnerState),
    event.tradeId ∉ s.ledger.fillLedger.seen →
    s.orderManager.orders.lookup event.orderId = none →
    SameData (s.applyTradeEvent event).1 s' →
    (TradeFits s event → Fits s event.instrumentId → Fits s' event.instrumentId →
      (s'.effectivePosition event.instrumentId).toInt =
        (s.effectivePosition event.instrumentId).toInt + signedTrade event) ∧
    ∀ i, i ≠ event.instrumentId → s'.effectivePosition i = s.effectivePosition i
  duplicate : ∀ (event : TradeEvent) (s' : RunnerState),
    event.tradeId ∈ s.ledger.fillLedger.seen → SameData (s.applyTradeEvent event).1 s' →
    SameData s s' ∧ ∀ i, s'.effectivePosition i = s.effectivePosition i

variable {s}

theorem law_newOrder {action : Action} {nowNs : UInt64} {s' : RunnerState}
    (hk : action.kind = .newOrder)
    (hnone : s.orderManager.orders.lookup action.newOrder.orderId = none)
    (hs' : SameData (s.onActionSent action nowNs) s') :
    (Fits s action.newOrder.instrumentId → Fits s' action.newOrder.instrumentId →
      (s'.effectivePosition action.newOrder.instrumentId).toInt =
        (s.effectivePosition action.newOrder.instrumentId).toInt + action.signedQuantity) ∧
    ∀ i, i ≠ action.newOrder.instrumentId → s'.effectivePosition i = s.effectivePosition i := by
  constructor
  · intro hf hf'
    rw [hs'.effectivePosition_eq, effectivePosition_toInt (hs'.fits hf'), effectivePosition_toInt hf,
      exact, exact, pending_newOrder hk hnone, pending_newOrder hk hnone]
    rw [weight_sent, weight_sent, Action.signedQuantity, hk]
    have hledger : (s.onActionSent action nowNs).ledger = s.ledger := rfl
    rw [hledger]
    cases action.newOrder.side <;> simp <;> omega
  · intro i hne
    have hw : ∀ side, weight side i (.sent action.newOrder nowNs) = 0 :=
      fun side => weight_of_ne_instrument (Ne.symm hne)
    have hq : (s.onActionSent action nowNs).ledger.quantity i = s.ledger.quantity i := rfl
    rw [hs'.effectivePosition_eq]
    apply effectivePosition_congr hq
    · rw [pending_newOrder hk hnone, hw, UInt64.toNat_zero, Nat.add_zero]
    · rw [pending_newOrder hk hnone, hw, UInt64.toNat_zero, Nat.add_zero]

theorem law_cancelOrder {action : Action} {nowNs : UInt64} {s' : RunnerState}
    (hk : action.kind = .cancelOrder) (hs' : SameData (s.onActionSent action nowNs) s')
    (i : InstrumentId) : s'.effectivePosition i = s.effectivePosition i := by
  rw [hs'.effectivePosition_eq]
  exact effectivePosition_congr rfl (pending_cancelOrder hk) (pending_cancelOrder hk)

theorem law_fill {event : TradeEvent} {st : OrderState} {s' : RunnerState}
    (hnew : event.tradeId ∉ s.ledger.fillLedger.seen)
    (hst : s.orderManager.orders.lookup event.orderId = some st) (hfill : Fillable st event)
    (hs' : SameData (s.applyTradeEvent event).1 s') :
    (TradeFits s event → Fits s event.instrumentId → Fits s' event.instrumentId →
      s'.effectivePosition event.instrumentId = s.effectivePosition event.instrumentId) ∧
    ∀ i, i ≠ event.instrumentId → s'.effectivePosition i = s.effectivePosition i := by
  obtain ⟨hi, hlive, hside, hle⟩ := hfill
  have horders : (s.applyTradeEvent event).1.orderManager = s.orderManager.applyTradeEvent event := by
    rw [RunnerState.applyTradeEvent_of_new s hnew]
  constructor
  · intro htf hf hf'
    apply Int64.toInt_inj.mp
    rw [hs'.effectivePosition_eq, effectivePosition_toInt (hs'.fits hf'), effectivePosition_toInt hf,
      exact, exact, quantity_trade hnew htf, horders, signedTrade]
    have hown := pending_trade_of_fill hst hi hlive hside hle
    cases he : event.side with
    | buy =>
      rw [he] at hown hside
      have hother : pending .sell event.instrumentId (s.orderManager.applyTradeEvent event) = _ :=
        pending_trade_of_ne_side hst (by rw [hside]; decide)
      simp only
      omega
    | sell =>
      rw [he] at hown hside
      have hother : pending .buy event.instrumentId (s.orderManager.applyTradeEvent event) = _ :=
        pending_trade_of_ne_side hst (by rw [hside]; decide)
      simp only
      omega
  · intro i hne
    have hother : st.order.instrumentId ≠ i := fun heq => hne (heq.symm.trans hi)
    rw [hs'.effectivePosition_eq]
    apply effectivePosition_congr (quantity_trade_ne event hne)
    · rw [horders, pending_trade_of_ne_instrument hst hother]
    · rw [horders, pending_trade_of_ne_instrument hst hother]

theorem law_untracked {event : TradeEvent} {s' : RunnerState}
    (hnew : event.tradeId ∉ s.ledger.fillLedger.seen)
    (hnone : s.orderManager.orders.lookup event.orderId = none)
    (hs' : SameData (s.applyTradeEvent event).1 s') :
    (TradeFits s event → Fits s event.instrumentId → Fits s' event.instrumentId →
      (s'.effectivePosition event.instrumentId).toInt =
        (s.effectivePosition event.instrumentId).toInt + signedTrade event) ∧
    ∀ i, i ≠ event.instrumentId → s'.effectivePosition i = s.effectivePosition i := by
  have horders : (s.applyTradeEvent event).1.orderManager = s.orderManager.applyTradeEvent event := by
    rw [RunnerState.applyTradeEvent_of_new s hnew]
  constructor
  · intro htf hf hf'
    rw [hs'.effectivePosition_eq, effectivePosition_toInt (hs'.fits hf'), effectivePosition_toInt hf,
      exact, exact, quantity_trade hnew htf, horders, pending_trade_of_untracked hnone,
      pending_trade_of_untracked hnone]
    omega
  · intro i hne
    rw [hs'.effectivePosition_eq]
    apply effectivePosition_congr (quantity_trade_ne event hne)
    · rw [horders, pending_trade_of_untracked hnone]
    · rw [horders, pending_trade_of_untracked hnone]

variable (s)

theorem exposure_law : Law s where
  newOrder := fun _ _ _ hk hnone hs' => law_newOrder hk hnone hs'
  cancelOrder := fun _ _ _ hk hs' i => law_cancelOrder hk hs' i
  fill := fun _ _ _ hnew hst hfill hs' => law_fill hnew hst hfill hs'
  untracked := fun _ _ hnew hnone hs' => law_untracked hnew hnone hs'
  duplicate := by
    intro event s' hseen hs'
    rw [RunnerState.applyTradeEvent_of_seen s hseen] at hs'
    exact ⟨hs', hs'.effectivePosition_eq⟩

def buyFive : Action := .ofNewOrder ⟨default, 1, 0, .buy, .limit, 10, 5, 0⟩

def sentFive : RunnerState := RunnerState.default.onActionSent buyFive 0

def fillTwo : TradeEvent := ⟨default, 1, 1, .buy, 10, 2, 0⟩

def unknownThree : TradeEvent := ⟨default, 2, 9, .sell, 10, 3, 0⟩

/-- Five are ordered, two of them filled, and three sold that nobody ordered. -/
theorem exposure_law_five :
    (sentFive.effectivePosition default).toInt =
        (RunnerState.default.effectivePosition default).toInt + 5 ∧
      (sentFive.applyTradeEvent fillTwo).1.effectivePosition default =
        sentFive.effectivePosition default ∧
      ((sentFive.applyTradeEvent unknownThree).1.effectivePosition default).toInt =
        (sentFive.effectivePosition default).toInt + -3 := by
  have hnothing : Fits RunnerState.default default := ⟨by decide, by decide, by decide⟩
  have hfive : Fits sentFive default := ⟨by decide, by decide, by decide⟩
  refine ⟨?_, ?_, ?_⟩
  · exact ((@exposure_law RunnerState.default).newOrder buyFive 0 sentFive rfl rfl
      (.refl _)).1 hnothing hfive
  · exact ((@exposure_law sentFive).fill fillTwo _ _ (by decide) rfl
      ⟨rfl, rfl, rfl, by decide⟩ (.refl _)).1 ⟨by decide, by decide⟩ hfive
      ⟨by decide, by decide, by decide⟩
  · exact ((@exposure_law sentFive).untracked unknownThree _ (by decide) rfl
      (.refl _)).1 ⟨by decide, by decide⟩ hfive ⟨by decide, by decide, by decide⟩

end Law

end Nnxt.Exposure
