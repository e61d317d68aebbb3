import Nnxt.ExposureLaw
import Nnxt.Foundation.CheckedArithmetic

/-!
# A trade moves the position in its own direction

The addition to the position is guarded by its saturation. The cast and the sign
before it are not: a quantity from `2 ^ 63` on turns the trade around.
-/

namespace Nnxt

set_option autoImplicit false

open FixedWidth Exposure

/-- The signed quantity, where the negation that overflows gives no result. -/
def TradeEvent.checkedDelta (event : TradeEvent) : Option Int64 :=
  match event.side with
  | .buy => some event.quantity.toInt64
  | .sell => checkedNeg event.quantity.toInt64

namespace TradeDirection

/-- The integers clamped at the bounds of `i64`. -/
def clamped (x : Int) : Int := max (-2 ^ 63) (min (2 ^ 63 - 1) x)

/-- What an accepted trade does to the positions when it moves its own by its quantity. -/
structure TradeMoves (l : Ledger) (event : TradeEvent) : Prop where
  noOverflow : event.checkedDelta = some event.delta
  buy : event.side = .buy →
    l.quantity event.instrumentId ≤ (l.applyTradeEvent event).1.quantity event.instrumentId
  sell : event.side = .sell →
    (l.applyTradeEvent event).1.quantity event.instrumentId ≤ l.quantity event.instrumentId
  change : ((l.applyTradeEvent event).1.quantity event.instrumentId).toInt =
    clamped ((l.quantity event.instrumentId).toInt + signedTrade event)
  others : ∀ i, i ≠ event.instrumentId →
    (l.applyTradeEvent event).1.position i = l.position i

variable {l : Ledger} {event : TradeEvent}

theorem toInt_saturatingAddI64_eq (a b : Int64) :
    (saturatingAddI64 a b).toInt = clamped (a.toInt + b.toInt) := toInt_ofIntClamp _

/-- Clamping keeps a value on its side of one that is in range. -/
theorem toInt_le_clamped {a : Int64} {x : Int} (h : a.toInt ≤ x) : a.toInt ≤ clamped x := by
  have hhigh := a.toInt_lt
  unfold clamped
  omega

theorem clamped_le_toInt {a : Int64} {x : Int} (h : x ≤ a.toInt) : clamped x ≤ a.toInt := by
  have hlow := a.le_toInt
  unfold clamped
  omega

/-- The clamp does not hide on which side of a value in range the sum lies. -/
theorem clamped_ne_of_between {a : Int64} {x y : Int} (hx : x < a.toInt) (hy : a.toInt < y) :
    clamped x ≠ clamped y := by
  have hlow := a.le_toInt
  have hhigh := a.toInt_lt
  unfold clamped
  omega

theorem quantity_toInt_applyTradeEvent (hnew : event.tradeId ∉ l.fillLedger.seen) :
    ((l.applyTradeEvent event).1.quantity event.instrumentId).toInt =
      clamped ((l.quantity event.instrumentId).toInt + event.delta.toInt) := by
  rw [Ledger.quantity_applyTradeEvent l hnew, toInt_saturatingAddI64_eq]

theorem checkedDelta_of_fits (h : FitsI64 event.quantity.toNat) :
    event.checkedDelta = some event.delta := by
  unfold TradeEvent.checkedDelta TradeEvent.delta
  cases event.side with
  | buy => rfl
  | sell =>
    apply checkedNeg_of_fits
    have hhigh := h.2
    rw [toInt_toInt64_of_fits h]
    exact ⟨by omega, by omega⟩

theorem moves_of_fits (hnew : event.tradeId ∉ l.fillLedger.seen)
    (h : FitsI64 event.quantity.toNat) : TradeMoves l event := by
  have hchange : ((l.applyTradeEvent event).1.quantity event.instrumentId).toInt =
      clamped ((l.quantity event.instrumentId).toInt + signedTrade event) := by
    rw [quantity_toInt_applyTradeEvent hnew, delta_toInt h]
  refine ⟨checkedDelta_of_fits h, ?_, ?_, hchange, ?_⟩
  · intro hside
    apply Int64.le_iff_toInt_le.mpr
    rw [hchange]
    apply toInt_le_clamped
    have hsigned : signedTrade event = event.quantity.toNat := by rw [signedTrade, hside]
    omega
  · intro hside
    apply Int64.le_iff_toInt_le.mpr
    rw [hchange]
    apply clamped_le_toInt
    have hsigned : signedTrade event = -event.quantity.toNat := by rw [signedTrade, hside]
    omega
  · intro i hne
    exact Ledger.position_applyTradeEvent_ne l event hne

/-- From `2 ^ 63` on the cast is the quantity less a whole turn of the word. -/
theorem toInt_toInt64_of_large {q : UInt64} (h : 2 ^ 63 ≤ q.toNat) :
    q.toInt64.toInt = q.toNat - 2 ^ 64 := by
  have hlt := q.toNat_lt
  rw [toInt_toInt64, Int.bmod_def]
  omega

theorem not_moves_of_large (hnew : event.tradeId ∉ l.fillLedger.seen)
    (h : 2 ^ 63 ≤ event.quantity.toNat) : ¬ TradeMoves l event := by
  intro hmoves
  have hcast := toInt_toInt64_of_large h
  have hlt := event.quantity.toNat_lt
  have hchange := hmoves.change
  rw [quantity_toInt_applyTradeEvent hnew] at hchange
  generalize l.quantity event.instrumentId = position at hchange
  cases hside : event.side with
  | buy =>
    have hdelta : event.delta = event.quantity.toInt64 := by rw [TradeEvent.delta, hside]
    have hsigned : signedTrade event = event.quantity.toNat := by rw [signedTrade, hside]
    rw [hdelta, hsigned] at hchange
    exact @clamped_ne_of_between position _ _ (by omega) (by omega) hchange
  | sell =>
    have hsigned : signedTrade event = -event.quantity.toNat := by rw [signedTrade, hside]
    -- a sell of exactly `2 ^ 63` does not get past its negation
    have hneg := hmoves.noOverflow
    have hchecked : event.checkedDelta = checkedNeg event.quantity.toInt64 := by
      rw [TradeEvent.checkedDelta, hside]
    rw [hchecked] at hneg
    have hdelta := checkedI64_eq_some_iff.mp hneg
    have hhigh := event.delta.toInt_lt
    rw [hsigned] at hchange
    exact @clamped_ne_of_between position _ _ (by omega) (by omega) hchange.symm

/-- An accepted trade moves its position in its own direction, and nothing else,
exactly when its quantity fits in an `i64`. -/
theorem moves_iff_quantity_fits (l : Ledger) (event : TradeEvent)
    (haccepted : (l.applyTradeEvent event).2.isSome) :
    TradeMoves l event ↔ event.quantity.toNat < 2 ^ 63 := by
  have hnew := (Ledger.applyTradeEvent_accepted_iff l event).mp haccepted
  constructor
  · intro hmoves
    apply Nat.lt_of_not_le
    intro hlarge
    exact not_moves_of_large hnew hlarge hmoves
  · intro hlt
    exact moves_of_fits hnew ⟨by omega, by omega⟩

def buyThree : TradeEvent := ⟨default, 1, 1, .buy, 10, 3, 1⟩

theorem moves_iff_quantity_fits_three :
    TradeMoves Ledger.new buyThree ↔ buyThree.quantity.toNat < 2 ^ 63 :=
  moves_iff_quantity_fits Ledger.new buyThree rfl

/-- The first quantity that the cast to `i64` does not keep. -/
def buyHalf : TradeEvent := ⟨default, 1, 1, .buy, 10, 9223372036854775808, 1⟩

theorem buy_of_half_lowers :
    ¬ ∀ (l : Ledger) (event : TradeEvent), (l.applyTradeEvent event).2.isSome →
      TradeMoves l event := by
  intro h
  have hnew : buyHalf.tradeId ∉ Ledger.new.fillLedger.seen := Finset.notMem_empty _
  have haccepted := (Ledger.applyTradeEvent_accepted_iff Ledger.new buyHalf).mpr hnew
  exact not_moves_of_large hnew (Nat.le_refl _) (h Ledger.new buyHalf haccepted)

end TradeDirection

end Nnxt
