import Nnxt.RunnerState

/-!
# Exposure accounting

The effective position as an exact sum over the live orders, and what each
operation of the runner state changes in it. The exact sums are unbounded
integers, so they do not depend on the iteration order of the order map.
-/

namespace Nnxt.Exposure

set_option autoImplicit false

open HashMap OrderManager FixedWidth

/-- What an order adds to the pending sum of one side of one instrument. -/
def weight (side : Side) (i : InstrumentId) (st : OrderState) : UInt64 :=
  if st.order.instrumentId = i ∧ isTerminal st.order.status = false ∧ st.order.side = side
  then st.remaining else 0

def pending (side : Side) (i : InstrumentId) (m : OrderManager) : Nat :=
  total (fun st => (weight side i st).toNat) m.orders

/-- `position + pending buys - pending sells` in unbounded integers. -/
def exact (s : RunnerState) (i : InstrumentId) : Int :=
  (s.ledger.quantity i).toInt + pending .buy i s.orderManager - pending .sell i s.orderManager

structure Fits (s : RunnerState) (i : InstrumentId) : Prop where
  buy : FitsI64 (pending .buy i s.orderManager)
  sell : FitsI64 (pending .sell i s.orderManager)
  exact : FitsI64 (exact s i)

/-- Two states that differ at most in the iteration order of their hash maps. -/
structure SameData (s s' : RunnerState) : Prop where
  orders : Same s.orderManager.orders s'.orderManager.orders
  seen : Same s.orderManager.orderEventSeen s'.orderManager.orderEventSeen
  fillLedger : s.ledger.fillLedger = s'.ledger.fillLedger
  positions : Same s.ledger.positions s'.ledger.positions
  market : s.market = s'.market

section Sums

theorem addExposure_eq (i : InstrumentId) (acc : UInt64 × UInt64) (st : OrderState) :
    addExposure i acc st =
      (saturatingAdd acc.1 (weight .buy i st), saturatingAdd acc.2 (weight .sell i st)) := by
  unfold addExposure weight
  by_cases hi : st.order.instrumentId = i
  · cases ht : isTerminal st.order.status with
    | true => simp [hi]
    | false =>
      by_cases hr : st.remaining = 0
      · simp [hi, hr]
      · cases hside : st.order.side <;> simp [hi, hr]
  · simp [hi]

theorem foldl_addExposure (i : InstrumentId) (sts : List OrderState) (acc : UInt64 × UInt64) :
    sts.foldl (addExposure i) acc =
      (sts.foldl (fun acc st => saturatingAdd acc (weight .buy i st)) acc.1,
       sts.foldl (fun acc st => saturatingAdd acc (weight .sell i st)) acc.2) := by
  induction sts generalizing acc with
  | nil => rfl
  | cons st sts ih => simp only [List.foldl_cons, ih, addExposure_eq]

/-- Each pending sum is the exact sum, clamped at `u64::MAX`. -/
theorem pendingExposure_toNat (m : OrderManager) (i : InstrumentId) :
    (m.pendingExposure i).1.toNat = min (pending .buy i m) (2 ^ 64 - 1) ∧
      (m.pendingExposure i).2.toNat = min (pending .sell i m) (2 ^ 64 - 1) := by
  rw [pendingExposure, foldl_addExposure]
  constructor
  · rw [foldl_saturatingAdd, UInt64.toNat_zero, Nat.zero_add]
    rfl
  · rw [foldl_saturatingAdd, UInt64.toNat_zero, Nat.zero_add]
    rfl

theorem effectivePosition_toInt {s : RunnerState} {i : InstrumentId} (h : Fits s i) :
    (s.effectivePosition i).toInt = exact s i := by
  obtain ⟨hb, hs⟩ := pendingExposure_toNat s.orderManager i
  have hbuy := h.buy.2
  have hsell := h.sell.2
  rw [Nat.min_eq_left (by omega)] at hb hs
  have hb' : (s.pendingExposure i).1.toNat = pending .buy i s.orderManager := hb
  have hs' : (s.pendingExposure i).2.toNat = pending .sell i s.orderManager := hs
  rw [RunnerState.effectivePosition_eq, Int64.toInt_sub, Int64.toInt_add,
    toInt_toInt64_of_fits (by rw [hb']; exact h.buy),
    toInt_toInt64_of_fits (by rw [hs']; exact h.sell), hb', hs', Int.bmod_sub_bmod]
  exact bmod_of_fits h.exact

theorem effectivePosition_congr {s s' : RunnerState} {i : InstrumentId}
    (hq : s'.ledger.quantity i = s.ledger.quantity i)
    (hb : pending .buy i s'.orderManager = pending .buy i s.orderManager)
    (hs : pending .sell i s'.orderManager = pending .sell i s.orderManager) :
    s'.effectivePosition i = s.effectivePosition i := by
  have hpe : s'.pendingExposure i = s.pendingExposure i := by
    apply Prod.ext
    · apply UInt64.toNat_inj.mp
      rw [RunnerState.pendingExposure, RunnerState.pendingExposure,
        (pendingExposure_toNat _ i).1, (pendingExposure_toNat _ i).1, hb]
    · apply UInt64.toNat_inj.mp
      rw [RunnerState.pendingExposure, RunnerState.pendingExposure,
        (pendingExposure_toNat _ i).2, (pendingExposure_toNat _ i).2, hs]
  rw [RunnerState.effectivePosition_eq, RunnerState.effectivePosition_eq, hq, hpe]

theorem SameData.refl (s : RunnerState) : SameData s s :=
  ⟨.refl _, .refl _, rfl, .refl _, rfl⟩

theorem SameData.quantity_eq {s s' : RunnerState} (h : SameData s s') (i : InstrumentId) :
    s'.ledger.quantity i = s.ledger.quantity i := by
  rw [Ledger.quantity_eq, Ledger.quantity_eq, h.positions.lookup_eq]

theorem SameData.pending_eq {s s' : RunnerState} (h : SameData s s') (side : Side)
    (i : InstrumentId) : pending side i s'.orderManager = pending side i s.orderManager :=
  (total_same _ h.orders).symm

/-- The iteration order of the maps is not observable. -/
theorem SameData.effectivePosition_eq {s s' : RunnerState} (h : SameData s s')
    (i : InstrumentId) : s'.effectivePosition i = s.effectivePosition i :=
  effectivePosition_congr (h.quantity_eq i) (h.pending_eq .buy i) (h.pending_eq .sell i)

theorem SameData.fits {s s' : RunnerState} (h : SameData s s') {i : InstrumentId}
    (hf : Fits s' i) : Fits s i where
  buy := h.pending_eq .buy i ▸ hf.buy
  sell := h.pending_eq .sell i ▸ hf.sell
  exact := by
    have := hf.exact
    rwa [Exposure.exact, h.quantity_eq, h.pending_eq, h.pending_eq] at this

end Sums

section Weights
variable {side : Side} {i : InstrumentId} {st : OrderState}

theorem weight_of_ne_instrument (h : st.order.instrumentId ≠ i) : weight side i st = 0 :=
  if_neg fun hc => h hc.1

theorem weight_of_ne_side (h : st.order.side ≠ side) : weight side i st = 0 :=
  if_neg fun hc => h hc.2.2

theorem weight_of_terminal (h : isTerminal st.order.status = true) : weight side i st = 0 :=
  if_neg fun hc => by simp [h] at hc

theorem remaining_sent (action : NewOrder) (nowNs : UInt64) :
    (OrderState.sent action nowNs).remaining = action.quantity := by
  apply UInt64.toNat_inj.mp
  simp [OrderState.remaining, OrderState.sent]

theorem weight_sent (action : NewOrder) (nowNs : UInt64) :
    weight side action.instrumentId (.sent action nowNs) =
      if action.side = side then action.quantity else 0 := by
  rw [weight, remaining_sent]
  simp [OrderState.sent, isTerminal]

theorem weight_cancelSent (nowNs : UInt64) : weight side i (st.cancelSent nowNs) = weight side i st := by
  unfold OrderState.cancelSent
  cases h : isTerminal st.order.status with
  | true => rfl
  | false =>
    have hcancel : isTerminal .pendingCancel = false := rfl
    simp only [weight, h, hcancel, OrderState.remaining, Bool.false_eq_true, if_false]

theorem traded_terminal_iff {event : TradeEvent}
    (hlive : isTerminal st.order.status = false) :
    isTerminal (st.traded event).order.status = true ↔
      st.order.quantity ≤ saturatingAdd st.order.filledQuantity event.quantity := by
  simp only [OrderState.traded]
  split
  · rename_i hle
    simp [hle, isTerminal]
  · rename_i hle
    split
    · simp [hle, isTerminal]
    · simp [hle, hlive]

/-- A fill within the remaining quantity leaves the pending sum by what it fills. -/
theorem weight_traded {event : TradeEvent} (hi : st.order.instrumentId = i)
    (hlive : isTerminal st.order.status = false) (hside : st.order.side = side)
    (hle : event.quantity ≤ st.remaining) :
    (weight side i (st.traded event)).toNat + event.quantity.toNat = (weight side i st).toNat := by
  have hbefore : weight side i st = st.remaining := if_pos ⟨hi, hlive, hside⟩
  have hq := st.order.quantity.toNat_lt
  rw [UInt64.le_iff_toNat_le, OrderState.remaining, toNat_saturatingSub] at hle
  rw [hbefore, OrderState.remaining, toNat_saturatingSub]
  cases hterm : isTerminal (st.traded event).order.status with
  | true =>
    have hfull := (traded_terminal_iff hlive).mp hterm
    rw [UInt64.le_iff_toNat_le, toNat_saturatingAdd] at hfull
    rw [weight_of_terminal hterm, UInt64.toNat_zero]
    omega
  | false =>
    have hpart : ¬ st.order.quantity ≤ saturatingAdd st.order.filledQuantity event.quantity := by
      intro hc
      rw [(traded_terminal_iff hlive).mpr hc] at hterm
      exact Bool.noConfusion hterm
    have hafter : weight side i (st.traded event) = (st.traded event).remaining :=
      if_pos ⟨hi, hterm, hside⟩
    rw [UInt64.le_iff_toNat_le, toNat_saturatingAdd] at hpart
    rw [hafter, OrderState.remaining, toNat_saturatingSub]
    simp only [OrderState.traded, toNat_saturatingAdd]
    omega

end Weights

end Nnxt.Exposure
