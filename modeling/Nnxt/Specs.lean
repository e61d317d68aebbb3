import Mathlib.Data.Rat.Defs
import Mathlib.Data.Finset.Insert

/-!
# Shared trading data

The records of the `nnxt-specs` crate, field by field. Prices are `f64` in the
source; they are read as exact rationals here, since the modelled code copies
them and takes weighted means but never rounds on purpose.
-/

namespace Nnxt

set_option autoImplicit false

inductive Side where
  | buy
  | sell
  deriving DecidableEq, Repr

inductive PriceType where
  | limit
  | market
  | opponentBest
  | ownBest
  deriving DecidableEq, Repr

inductive OrderStatus where
  | pending
  | pendingNew
  | active
  | pendingCancel
  | filled
  | cancelled
  | rejected
  | partialFilled
  deriving DecidableEq, Repr

/-- `f64` prices as exact rationals. -/
abbrev Price := ℚ

/-- Sixty-four zero-padded bytes. -/
structure InstrumentId where
  bytes : Vector UInt8 64
  deriving DecidableEq, Repr

instance : Inhabited InstrumentId := ⟨⟨Vector.replicate 64 0⟩⟩

structure Order where
  instrumentId : InstrumentId
  orderId : UInt64
  clientOrderId : UInt64
  side : Side
  priceType : PriceType
  limitPrice : Price
  quantity : UInt64
  filledQuantity : UInt64
  status : OrderStatus
  timestamp : UInt64
  deriving DecidableEq, Repr

structure Position where
  instrumentId : InstrumentId
  quantity : Int64
  avgPrice : Price
  lastUpdateNs : UInt64
  deriving DecidableEq, Repr

structure OrderEvent where
  instrumentId : InstrumentId
  orderId : UInt64
  status : OrderStatus
  filledQuantity : UInt64
  remainingQuantity : UInt64
  lastPrice : Price
  timestamp : UInt64
  deriving DecidableEq, Repr

structure TradeEvent where
  instrumentId : InstrumentId
  tradeId : UInt64
  orderId : UInt64
  side : Side
  price : Price
  quantity : UInt64
  timestamp : UInt64
  deriving DecidableEq, Repr

def orderBookDepth : Nat := 10

structure OrderBook where
  instrumentId : InstrumentId
  bidPrice : Vector Price orderBookDepth
  bidVolume : Vector UInt64 orderBookDepth
  askPrice : Vector Price orderBookDepth
  askVolume : Vector UInt64 orderBookDepth
  lastPrice : Price
  volume : UInt64
  turnover : Price
  upperLimitPrice : Price
  lowerLimitPrice : Price
  preClosePrice : Price
  tradeCount : UInt64
  timestamp : UInt64
  deriving DecidableEq

end Nnxt
