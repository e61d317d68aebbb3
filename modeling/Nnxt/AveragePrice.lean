import Mathlib.Algebra.Order.Ring.Rat
import Nnxt.LedgerSum
import Nnxt.Foundation.SignedRuns
import Nnxt.Foundation.WeightedMean

/-!
# The average price of one instrument

The position of an instrument is the fold of its accepted trades. The cases of
`next_avg_price` are those of a sum of signed changes: it is closed, it is
opened or turned, it grows, or it is reduced.
-/

namespace Nnxt

set_option autoImplicit false

open Exposure FixedWidth SignedRuns WeightedMean

def Ledger.avgPrice (l : Ledger) (instrumentId : InstrumentId) : Price :=
  ((l.position instrumentId).map (·.avgPrice)).getD 0

namespace AveragePrice

section NextAvgPrice
variable {prevQty delta nextQty : Int64} {prevAvg tradePrice : Price}

theorem nextAvgPrice_closed (h : nextQty.toInt = 0) :
    nextAvgPrice prevQty prevAvg delta tradePrice nextQty = 0 := by
  apply if_pos
  rwa [← Int64.toInt_inj, Int64.toInt_zero]

theorem nextAvgPrice_of_open (h : nextQty.toInt ≠ 0) :
    nextAvgPrice prevQty prevAvg delta tradePrice nextQty =
      if prevQty.toInt = 0 ∨ prevQty.toInt.sign = delta.toInt.sign then
        if (prevQty.toInt.natAbs : Price) + delta.toInt.natAbs = 0 then 0
        else mix prevAvg prevQty.toInt.natAbs tradePrice delta.toInt.natAbs
      else if nextQty.toInt.sign ≠ prevQty.toInt.sign then tradePrice
      else prevAvg := by
  have hnext : nextQty ≠ 0 := by
    rwa [Ne, ← Int64.toInt_inj, Int64.toInt_zero]
  have hprev : prevQty = 0 ↔ prevQty.toInt = 0 := by
    rw [← Int64.toInt_inj, Int64.toInt_zero]
  simp only [nextAvgPrice, if_neg hnext, hprev, toNat_unsignedAbs, mix]

variable (hnext : nextQty.toInt = prevQty.toInt + delta.toInt)

include hnext in
/-- From nothing, or through zero to the other side: the price of the trade. -/
theorem nextAvgPrice_opened (hdelta : delta.toInt ≠ 0) (hopen : nextQty.toInt ≠ 0)
    (hsign : nextQty.toInt.sign ≠ prevQty.toInt.sign) :
    nextAvgPrice prevQty prevAvg delta tradePrice nextQty = tradePrice := by
  rw [nextAvgPrice_of_open hopen]
  by_cases hzero : prevQty.toInt = 0
  · have habs : (delta.toInt.natAbs : Price) ≠ 0 := by
      rwa [Nat.cast_ne_zero, Int.natAbs_ne_zero]
    rw [if_pos (Or.inl hzero), hzero, Int.natAbs_zero, Nat.cast_zero, zero_add, if_neg habs,
      mix_zero habs]
  · have hopposite : ¬ (prevQty.toInt = 0 ∨ prevQty.toInt.sign = delta.toInt.sign) := by
      rw [Ne, sign_eq_sign_iff] at hsign
      rw [sign_eq_sign_iff]
      omega
    rw [if_neg hopposite, if_pos hsign]

include hnext in
theorem nextAvgPrice_grown (hsign : nextQty.toInt.sign = prevQty.toInt.sign)
    (hmore : prevQty.toInt.natAbs < nextQty.toInt.natAbs) :
    nextAvgPrice prevQty prevAvg delta tradePrice nextQty =
      mix prevAvg prevQty.toInt.natAbs tradePrice delta.toInt.natAbs := by
  have hopen : nextQty.toInt ≠ 0 := by omega
  have hsame : prevQty.toInt.sign = delta.toInt.sign := by
    rw [sign_eq_sign_iff] at hsign ⊢
    omega
  -- the sources' guard against a total of zero is not reached
  have htotal : (prevQty.toInt.natAbs : Price) + delta.toInt.natAbs ≠ 0 := by
    rw [← Nat.cast_add, Nat.cast_ne_zero]
    omega
  rw [nextAvgPrice_of_open hopen, if_pos (Or.inr hsame), if_neg htotal]

include hnext in
theorem nextAvgPrice_reduced (hheld : prevQty.toInt ≠ 0)
    (hsign : nextQty.toInt.sign = prevQty.toInt.sign)
    (hless : nextQty.toInt.natAbs < prevQty.toInt.natAbs) :
    nextAvgPrice prevQty prevAvg delta tradePrice nextQty = prevAvg := by
  have hopen : nextQty.toInt ≠ 0 := by
    intro hzero
    rw [hzero, Int.sign_zero] at hsign
    exact hheld (Int.sign_eq_zero_iff_zero.mp hsign.symm)
  have hopposite : ¬ (prevQty.toInt = 0 ∨ prevQty.toInt.sign = delta.toInt.sign) := by
    rw [sign_eq_sign_iff] at hsign ⊢
    omega
  rw [nextAvgPrice_of_open hopen, if_neg hopposite, if_neg (fun hne => hne hsign)]

end NextAvgPrice

/-- The trades of one instrument that were accepted. -/
def tradesOf (i : InstrumentId) (events : List TradeEvent) : List TradeEvent :=
  (Ledger.new.accepted events).filter fun event => event.instrumentId = i

/-- The position that a list of trades leaves. -/
def held (trades : List TradeEvent) : PositionState :=
  trades.foldl (fun state event => state.traded event) ⟨0, 0, 0⟩

section Trades
variable {l : Ledger} {event : TradeEvent} {i : InstrumentId}

theorem held_append (trades : List TradeEvent) (event : TradeEvent) :
    held (trades ++ [event]) = (held trades).traded event := List.foldl_concat _ _ _ _

theorem avgPrice_eq (l : Ledger) (i : InstrumentId) :
    l.avgPrice i = ((l.positions.lookup i).map (·.avgPrice)).getD 0 := by
  cases h : l.positions.lookup i <;> simp [Ledger.avgPrice, Ledger.position, Ledger.toPosition, h]

theorem avgPrice_applyTradeEvent (hnew : event.tradeId ∉ l.fillLedger.seen) :
    (l.applyTradeEvent event).1.avgPrice event.instrumentId =
      nextAvgPrice (l.quantity event.instrumentId) (l.avgPrice event.instrumentId) event.delta
        event.price (saturatingAddI64 (l.quantity event.instrumentId) event.delta) := by
  rw [Ledger.applyTradeEvent_of_new l hnew, avgPrice_eq, avgPrice_eq, Ledger.quantity_eq,
    AList.lookup_insert]
  cases l.positions.lookup event.instrumentId <;> rfl

theorem tradesOf_append (events : List TradeEvent) (event : TradeEvent) :
    tradesOf i (events ++ [event]) =
      if event.instrumentId = i ∧ event.tradeId ∉ (Ledger.new.applyAll events).fillLedger.seen then
        tradesOf i events ++ [event]
      else tradesOf i events := by
  rw [tradesOf, Ledger.accepted_append, Ledger.accepted_singleton, List.filter_append]
  simp only [Ledger.applyTradeEvent_accepted_iff]
  by_cases hseen : event.tradeId ∈ (Ledger.new.applyAll events).fillLedger.seen
  · simp [tradesOf, hseen]
  · by_cases hi : event.instrumentId = i <;> simp [tradesOf, hseen, hi]

/-- The position of an instrument is a function of its accepted trades. -/
theorem position_eq_held (events : List TradeEvent) (i : InstrumentId) :
    (Ledger.new.applyAll events).quantity i = (held (tradesOf i events)).quantity ∧
    (Ledger.new.applyAll events).avgPrice i = (held (tradesOf i events)).avgPrice := by
  induction events using List.reverseRecOn with
  | nil => exact ⟨rfl, rfl⟩
  | append_singleton events event ih =>
    obtain ⟨hquantity, havg⟩ := ih
    have hstep : Ledger.new.applyAll (events ++ [event]) =
        ((Ledger.new.applyAll events).applyTradeEvent event).1 := Ledger.applyAll_append _ _ _
    rw [hstep, tradesOf_append]
    by_cases hseen : event.tradeId ∈ (Ledger.new.applyAll events).fillLedger.seen
    · rw [if_neg (fun h => h.2 hseen), Ledger.applyTradeEvent_of_seen _ hseen]
      exact ⟨hquantity, havg⟩
    · by_cases hi : event.instrumentId = i
      · subst hi
        rw [if_pos ⟨rfl, hseen⟩, held_append, Ledger.quantity_applyTradeEvent _ hseen,
          avgPrice_applyTradeEvent hseen, hquantity, havg]
        exact ⟨rfl, rfl⟩
      · have hother := Ledger.position_applyTradeEvent_ne (Ledger.new.applyAll events) event
          (Ne.symm hi)
        rw [if_neg (fun h => hi h.1), Ledger.quantity, Ledger.avgPrice, hother]
        exact ⟨hquantity, havg⟩

end Trades

end AveragePrice

end Nnxt
