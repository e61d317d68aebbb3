import Nnxt.IntentBatches
import Nnxt.ExposureLaw

/-!
# A target position intent reaches its target

The order for the gap joins the pending sum of its side, so the gap is closed as
soon as the order is sent, and the same intent has nothing left to ask for.
-/

namespace Nnxt.TargetReached

set_option autoImplicit false

open FixedWidth Exposure OrderManager

/-- The pending sums and the gap are within `i64`; the position and the target
are by their type. -/
structure InRange (s : RunnerState) (intent : TargetPositionIntent) : Prop where
  buy : FitsI64 (s.pendingExposure intent.instrumentId).1.toNat
  sell : FitsI64 (s.pendingExposure intent.instrumentId).2.toNat
  gap : FitsI64 (intent.targetQuantity.toInt - (s.effectivePosition intent.instrumentId).toInt)

section Sent
variable {s : RunnerState} {i : InstrumentId} {action : NewOrder} {nowNs : UInt64}

theorem pending_sent (side : Side) (hnone : s.record action.orderId = none) (nowNs : UInt64) :
    pending side i (s.onActionSent (.ofNewOrder action) nowNs).orderManager =
      pending side i s.orderManager + (weight side i (.sent action nowNs)).toNat :=
  @pending_newOrder s i side (.ofNewOrder action) nowNs rfl hnone

/-- The pending sum of the side the order is on grows by its quantity. -/
theorem pendingExposure_sent (hnone : s.record action.orderId = none)
    (hbuy : (s.pendingExposure action.instrumentId).1.toNat + action.quantity.toNat < 2 ^ 64)
    (hsell : (s.pendingExposure action.instrumentId).2.toNat + action.quantity.toNat < 2 ^ 64) :
    (s.onActionSent (.ofNewOrder action) nowNs).pendingExposure action.instrumentId =
      match action.side with
      | .buy => ((s.pendingExposure action.instrumentId).1 + action.quantity,
          (s.pendingExposure action.instrumentId).2)
      | .sell => ((s.pendingExposure action.instrumentId).1,
          (s.pendingExposure action.instrumentId).2 + action.quantity) := by
  have hafter : ∀ side, pending side action.instrumentId
      (s.onActionSent (.ofNewOrder action) nowNs).orderManager =
        pending side action.instrumentId s.orderManager +
          (if action.side = side then action.quantity else 0).toNat := by
    intro side
    rw [pending_sent side hnone, weight_sent]
  obtain ⟨hb, hs⟩ := pendingExposure_toNat s.orderManager action.instrumentId
  obtain ⟨hb', hs'⟩ := pendingExposure_toNat
    (s.onActionSent (.ofNewOrder action) nowNs).orderManager action.instrumentId
  rw [hafter] at hb' hs'
  simp only [RunnerState.pendingExposure] at hbuy hsell ⊢
  cases hside : action.side with
  | buy =>
    simp only [hside, if_true, reduceCtorEq, if_false, UInt64.toNat_zero] at hb' hs'
    apply Prod.ext <;> apply UInt64.toNat_inj.mp
    · rw [hb', UInt64.toNat_add, Nat.mod_eq_of_lt hbuy]
      omega
    · rw [hs', hs]
      rfl
  | sell =>
    simp only [hside, if_true, reduceCtorEq, if_false, UInt64.toNat_zero] at hb' hs'
    apply Prod.ext <;> apply UInt64.toNat_inj.mp
    · rw [hb', hb]
      rfl
    · rw [hs', UInt64.toNat_add, Nat.mod_eq_of_lt hsell]
      omega

/-- An order that covers `delta` moves the effective position by `delta` at once. -/
theorem effectivePosition_sent_covers {delta : Int64} (hcovers : action.Covers i delta)
    (hnone : s.record action.orderId = none) (hbuy : FitsI64 (s.pendingExposure i).1.toNat)
    (hsell : FitsI64 (s.pendingExposure i).2.toNat) (nowNs : UInt64) :
    (s.onActionSent (.ofNewOrder action) nowNs).effectivePosition i =
      s.effectivePosition i + delta := by
  obtain ⟨rfl, hside, hquantity⟩ := hcovers
  have hle : action.quantity.toNat ≤ 2 ^ 63 := by
    have hlow := delta.le_toInt
    have hhigh := delta.toInt_lt
    rw [hquantity, toNat_unsignedAbs]
    omega
  have hb := hbuy.2
  have hs := hsell.2
  have hsent := @pendingExposure_sent s action nowNs hnone (by omega) (by omega)
  have hledger : (s.onActionSent (.ofNewOrder action) nowNs).ledger = s.ledger := rfl
  rw [RunnerState.effectivePosition_eq, RunnerState.effectivePosition_eq, hsent, hledger, hside,
    hquantity]
  by_cases hpos : 0 < delta
  · simp only [if_pos hpos, UInt64.toInt64_add, unsignedAbs_toInt64_of_pos hpos]
    grind
  · simp only [if_neg hpos, UInt64.toInt64_add, unsignedAbs_toInt64_of_not_pos hpos]
    grind

theorem effectivePosition_sent_ne (hnone : s.record action.orderId = none)
    (hne : i ≠ action.instrumentId) :
    (s.onActionSent (.ofNewOrder action) nowNs).effectivePosition i = s.effectivePosition i := by
  have hw : ∀ side, (weight side i (.sent action nowNs)).toNat = 0 := by
    intro side
    rw [weight_of_ne_instrument (Ne.symm hne), UInt64.toNat_zero]
  have hpending : ∀ side, pending side i (s.onActionSent (.ofNewOrder action) nowNs).orderManager =
      pending side i s.orderManager := by
    intro side
    rw [pending_sent side hnone, hw, Nat.add_zero]
  exact effectivePosition_congr rfl (hpending .buy) (hpending .sell)

end Sent

section Gap
variable {e : ExecutionEngine} {s : RunnerState} {intent : TargetPositionIntent}

theorem InRange.gap_eq (h : InRange s intent) :
    intent.gap s = intent.targetQuantity - s.effectivePosition intent.instrumentId := by
  apply Int64.toInt_inj.mp
  rw [Int64.toInt_sub, bmod_of_fits h.gap]
  exact toInt_ofIntClamp_of_fits h.gap

/-- The order for the gap puts the effective position on the target, flips included. -/
theorem effectivePosition_targetOrder (hfree : s.record e.counter = none) (h : InRange s intent)
    (nowNs : UInt64) :
    (s.onActionSent (.ofNewOrder (e.targetOrder intent (intent.gap s) nowNs)) nowNs).effectivePosition
      intent.instrumentId = intent.targetQuantity := by
  have hcovers := e.covers_targetOrder intent (intent.gap s) nowNs
  have hmoved := effectivePosition_sent_covers hcovers hfree h.buy h.sell nowNs
  rw [hmoved, h.gap_eq]
  grind

end Gap

/-- What one submission of the intent, and a second one after it, come to. -/
structure Reached (d : Desk) (intent : TargetPositionIntent) (nowNs : UInt64) : Prop where
  oneOrder : (d.submit nowNs [.targetPosition intent]).2.length ≤ 1
  reached : (d.submit nowNs [.targetPosition intent]).1.state.effectivePosition
    intent.instrumentId = intent.targetQuantity
  others : ∀ i, i ≠ intent.instrumentId →
    (d.submit nowNs [.targetPosition intent]).1.state.effectivePosition i = d.state.effectivePosition i
  silent : ∀ laterNs,
    ((d.submit nowNs [.targetPosition intent]).1.submit laterNs [.targetPosition intent]).2 = []

theorem submit_silent {d : Desk} {intent : TargetPositionIntent} (nowNs : UInt64)
    (hmet : d.state.effectivePosition intent.instrumentId = intent.targetQuantity) :
    d.submit nowNs [.targetPosition intent] = (d, []) := by
  have hnothing := d.engine.targetPositionActions_of_met nowNs hmet
  simp only [Desk.submit, ExecutionEngine.execute_targetPosition, hnothing]
  rfl

theorem submit_missed {d : Desk} {intent : TargetPositionIntent} (nowNs : UInt64)
    (hmissed : d.state.effectivePosition intent.instrumentId ≠ intent.targetQuantity) :
    d.submit nowNs [.targetPosition intent] =
      (⟨d.engine.nextId.1, d.state.onActionSent
          (.ofNewOrder (d.engine.targetOrder intent (intent.gap d.state) nowNs)) nowNs⟩,
        [.ofNewOrder (d.engine.targetOrder intent (intent.gap d.state) nowNs)]) := by
  have horder := d.engine.targetPositionActions_of_missed nowNs hmissed
  simp only [Desk.submit, ExecutionEngine.execute_targetPosition, horder]
  rfl

theorem submit_reaches {d : Desk} {intent : TargetPositionIntent} (nowNs : UInt64)
    (hfree : d.state.record d.engine.counter = none) (h : InRange d.state intent) :
    (d.submit nowNs [.targetPosition intent]).1.state.effectivePosition intent.instrumentId =
      intent.targetQuantity := by
  by_cases hmet : d.state.effectivePosition intent.instrumentId = intent.targetQuantity
  · rw [submit_silent nowNs hmet]
    exact hmet
  · rw [submit_missed nowNs hmet]
    exact effectivePosition_targetOrder hfree h nowNs

theorem submit_others {d : Desk} {intent : TargetPositionIntent} (nowNs : UInt64)
    (hfree : d.state.record d.engine.counter = none) {i : InstrumentId}
    (hne : i ≠ intent.instrumentId) :
    (d.submit nowNs [.targetPosition intent]).1.state.effectivePosition i =
      d.state.effectivePosition i := by
  by_cases hmet : d.state.effectivePosition intent.instrumentId = intent.targetQuantity
  · rw [submit_silent nowNs hmet]
  · rw [submit_missed nowNs hmet]
    exact effectivePosition_sent_ne hfree hne

theorem submit_one_order (d : Desk) (intent : TargetPositionIntent) (nowNs : UInt64) :
    (d.submit nowNs [.targetPosition intent]).2.length ≤ 1 := by
  by_cases hmet : d.state.effectivePosition intent.instrumentId = intent.targetQuantity
  · rw [submit_silent nowNs hmet]
    exact Nat.zero_le 1
  · rw [submit_missed nowNs hmet, List.length_singleton]

theorem target_reached {d : Desk} {intent : TargetPositionIntent} (nowNs : UInt64)
    (hfree : d.state.record d.engine.counter = none) (h : InRange d.state intent) :
    Reached d intent nowNs where
  oneOrder := submit_one_order d intent nowNs
  reached := submit_reaches nowNs hfree h
  others := fun _ hne => submit_others nowNs hfree hne
  silent := fun laterNs => by rw [submit_silent laterNs (submit_reaches nowNs hfree h)]

/-- Five bought, and the target flips to three short. -/
def boughtFive : Desk where
  engine := ⟨2⟩
  state := RunnerState.default.onActionSent
    (.ofNewOrder ⟨default, 1, 0, .buy, .limit, 7, 5, 1⟩) 1

theorem target_reached_flip :
    Reached boughtFive ⟨default, -3, .limit, 7⟩ 2 ∧
      ((boughtFive.submit 2 [.targetPosition ⟨default, -3, .limit, 7⟩]).2.map
        Action.signedQuantity) = [-8] := by
  refine ⟨target_reached 2 rfl ⟨?_, ?_, ?_⟩, by decide⟩ <;> decide

end Nnxt.TargetReached
