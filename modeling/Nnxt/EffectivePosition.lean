import Nnxt.ExposureLaw
import Nnxt.Redelivery
import Nnxt.Foundation.CheckedArithmetic

/-!
# When the effective position is computed without overflow

The pending sums saturate and the position saturates, but the casts to `i64` and
the two operators between them do not.
-/

namespace Nnxt

set_option autoImplicit false

open FixedWidth Exposure

/-- `effective_position` where a cast that changes the value and an operator
that overflows give no result. -/
def RunnerState.checkedEffectivePosition (s : RunnerState) (instrumentId : InstrumentId) :
    Option Int64 :=
  let positionQty := ((s.position instrumentId).map (·.quantity)).getD 0
  let pending := s.pendingExposure instrumentId
  do
    let pendingBuy ← checkedCast pending.1
    let bought ← checkedAdd positionQty pendingBuy
    let pendingSell ← checkedCast pending.2
    checkedSub bought pendingSell

namespace EffectivePosition

/-- No cast and no operator overflows, and an exact value that fits is the one returned. -/
structure Computed (s : RunnerState) (i : InstrumentId) : Prop where
  unchecked : s.checkedEffectivePosition i = some (s.effectivePosition i)
  value : FitsI64 (exact s i) → (s.effectivePosition i).toInt = exact s i

/-- Bounds on the live orders and the position, in unbounded integers. -/
structure Bounded (s : RunnerState) (i : InstrumentId) : Prop where
  buys : pending .buy i s.orderManager < 2 ^ 63
  sells : pending .sell i s.orderManager < 2 ^ 63
  bought : (s.ledger.quantity i).toInt + pending .buy i s.orderManager < 2 ^ 63
  exact : -2 ^ 63 ≤ exact s i

variable {s : RunnerState} {i : InstrumentId}

theorem Bounded.fits (h : Bounded s i) : Fits s i where
  buy := ⟨by omega, by exact_mod_cast h.buys⟩
  sell := ⟨by omega, by exact_mod_cast h.sells⟩
  exact := by
    have hbought := h.bought
    refine ⟨h.exact, ?_⟩
    unfold Exposure.exact
    omega

theorem computed_of_bounded (h : Bounded s i) : Computed s i := by
  have hfits := h.fits
  obtain ⟨hbuy, hsell⟩ := pendingExposure_toNat s.orderManager i
  have hbuys := h.buys
  have hsells := h.sells
  have hbought := h.bought
  have hposition := fits_toInt (s.ledger.quantity i)
  rw [Nat.min_eq_left (by omega)] at hbuy hsell
  have hcastBuy : FitsI64 (s.pendingExposure i).1.toNat := hbuy ▸ hfits.buy
  have hcastSell : FitsI64 (s.pendingExposure i).2.toNat := hsell ▸ hfits.sell
  have hbuyInt := toInt_toInt64_of_fits hcastBuy
  have hsellInt := toInt_toInt64_of_fits hcastSell
  rw [RunnerState.pendingExposure, hbuy] at hbuyInt
  rw [RunnerState.pendingExposure, hsell] at hsellInt
  have hsum : FitsI64 ((s.ledger.quantity i).toInt + (s.pendingExposure i).1.toInt64.toInt) := by
    rw [RunnerState.pendingExposure, hbuyInt]
    exact ⟨by have := hposition.1; omega, hbought⟩
  have hdiff : FitsI64 ((s.ledger.quantity i + (s.pendingExposure i).1.toInt64).toInt -
      (s.pendingExposure i).2.toInt64.toInt) := by
    rw [Int64.toInt_add, bmod_of_fits hsum, RunnerState.pendingExposure, hbuyInt, hsellInt]
    exact hfits.exact
  refine ⟨?_, fun _ => effectivePosition_toInt hfits⟩
  have hquantity : ((s.position i).map (·.quantity)).getD 0 = s.ledger.quantity i := rfl
  rw [RunnerState.checkedEffectivePosition, hquantity, RunnerState.effectivePosition_eq]
  simp only [checkedCast_of_fits hcastBuy, checkedAdd_of_fits hsum, checkedCast_of_fits hcastSell,
    checkedSub_of_fits hdiff, Option.bind_eq_bind, Option.bind_some]

theorem bounded_of_computed (h : Computed s i) : Bounded s i := by
  have hsteps := h.unchecked
  simp only [RunnerState.checkedEffectivePosition, Option.bind_eq_bind,
    Option.bind_eq_some_iff] at hsteps
  obtain ⟨buy, hcastBuy, bought, hsum, sell, hcastSell, hdiff⟩ := hsteps
  have hbuy := checkedI64_eq_some_iff.mp hcastBuy
  have hbought := checkedI64_eq_some_iff.mp hsum
  have hsell := checkedI64_eq_some_iff.mp hcastSell
  have hresult := checkedI64_eq_some_iff.mp hdiff
  obtain ⟨htotalBuy, htotalSell⟩ := pendingExposure_toNat s.orderManager i
  have hbuyFits := fits_toInt buy
  have hsellFits := fits_toInt sell
  -- a sum that was clamped would not have passed the cast
  have hbuys : buy.toInt = pending .buy i s.orderManager := by
    rw [RunnerState.pendingExposure, htotalBuy] at hbuy
    have := hbuyFits.2
    omega
  have hsells : sell.toInt = pending .sell i s.orderManager := by
    rw [RunnerState.pendingExposure, htotalSell] at hsell
    have := hsellFits.2
    omega
  have hquantity : bought.toInt = (s.ledger.quantity i).toInt + pending .buy i s.orderManager :=
    hbuys ▸ hbought
  have hexact : (s.effectivePosition i).toInt = exact s i := by
    rw [hresult, hquantity, hsells]
    rfl
  refine ⟨?_, ?_, ?_, ?_⟩
  · have := hbuyFits.2
    omega
  · have := hsellFits.2
    omega
  · rw [← hquantity]
    exact (fits_toInt bought).2
  · rw [← hexact]
    exact (fits_toInt (s.effectivePosition i)).1

/-- In every state a runner can reach: `effective_position` is computed without
overflow, and to the exact value, exactly when the four bounds hold. -/
theorem computed_iff_bounded (is : List Redelivery.Step) (i : InstrumentId) :
    Computed (Redelivery.after is) i ↔ Bounded (Redelivery.after is) i :=
  ⟨bounded_of_computed, computed_of_bounded⟩

theorem pending_after_newOrder (order : NewOrder) (nowNs : UInt64) :
    pending order.side order.instrumentId
      (Redelivery.after [.actionSent (.ofNewOrder order) nowNs]).orderManager =
        order.quantity.toNat := by
  have hsent := @pending_newOrder RunnerState.default order.instrumentId order.side
    (.ofNewOrder order) nowNs rfl rfl
  have hempty : pending order.side order.instrumentId RunnerState.default.orderManager = 0 := rfl
  rw [hempty, Nat.zero_add] at hsent
  refine hsent.trans (congrArg UInt64.toNat ?_)
  exact (weight_sent order nowNs).trans (if_pos rfl)

/-- What a target of `i64::MIN` leads to where nothing is held: one sell of `2 ^ 63`. -/
def sellAll : NewOrder := ⟨default, 1, 1, .sell, .limit, 10, 9223372036854775808, 0⟩

theorem sell_of_least_target_overflows :
    ¬ ∀ (is : List Redelivery.Step) (i : InstrumentId), Computed (Redelivery.after is) i := by
  intro h
  have hsells := (bounded_of_computed (h [.actionSent (.ofNewOrder sellAll) 0] default)).sells
  have hpending : pending .sell default
      (Redelivery.after [.actionSent (.ofNewOrder sellAll) 0]).orderManager = 2 ^ 63 :=
    pending_after_newOrder sellAll 0
  rw [hpending] at hsells
  exact Nat.lt_irrefl _ hsells

end EffectivePosition

end Nnxt
