import Nnxt.OrderManager
import Nnxt.Ledger

/-!
# State of a strategy runner

The order manager and the ledger side by side, and the position they add up
to. Order events reach only the order manager; a trade event reaches the order
manager only when the ledger has accepted it.
-/

namespace Nnxt

set_option autoImplicit false

open HashMap FixedWidth

structure RunnerState where
  orderManager : OrderManager
  ledger : Ledger
  market : List OrderBook

namespace RunnerState

protected def default : RunnerState := ⟨OrderManager.default, Ledger.new, []⟩

def position (s : RunnerState) (instrumentId : InstrumentId) : Option Position :=
  s.ledger.position instrumentId

def orders (s : RunnerState) (instrumentId : InstrumentId) : List Order :=
  s.orderManager.ordersOf instrumentId

def marketView (s : RunnerState) (instrumentId : InstrumentId) : Option OrderBook :=
  s.market.find? fun book => book.instrumentId = instrumentId

def updateMarket (s : RunnerState) (book : OrderBook) : RunnerState :=
  match s.market.findIdx? fun entry => entry.instrumentId = book.instrumentId with
  | some index => { s with market := s.market.set index book }
  | none => { s with market := s.market ++ [book] }

def onActionSent (s : RunnerState) (action : Action) (nowNs : UInt64) : RunnerState :=
  { s with orderManager := s.orderManager.onActionSent action nowNs }

def applyOrderEvent (s : RunnerState) (event : OrderEvent) : RunnerState × Bool :=
  ({ s with orderManager := (s.orderManager.applyOrderEvent event).1 },
   (s.orderManager.applyOrderEvent event).2)

def applyTradeEvent (s : RunnerState) (event : TradeEvent) : RunnerState × Bool :=
  -- the ledger decides for both: the order manager has no check of its own
  if (s.ledger.applyTradeEvent event).2.isSome then
    ({ s with
        ledger := (s.ledger.applyTradeEvent event).1
        orderManager := s.orderManager.applyTradeEvent event }, true)
  else (s, false)

def pendingExposure (s : RunnerState) (instrumentId : InstrumentId) : UInt64 × UInt64 :=
  s.orderManager.pendingExposure instrumentId

/-- `position + pending_buy as i64 - pending_sell as i64`, with plain operators. -/
def effectivePosition (s : RunnerState) (instrumentId : InstrumentId) : Int64 :=
  let positionQty := ((s.position instrumentId).map (·.quantity)).getD 0
  let pending := s.pendingExposure instrumentId
  positionQty + pending.1.toInt64 - pending.2.toInt64

theorem effectivePosition_eq (s : RunnerState) (i : InstrumentId) :
    s.effectivePosition i = s.ledger.quantity i + (s.pendingExposure i).1.toInt64
      - (s.pendingExposure i).2.toInt64 := rfl

def record (s : RunnerState) (orderId : UInt64) : Option OrderState :=
  s.orderManager.orders.lookup orderId

def Finished (s : RunnerState) (orderId : UInt64) : Prop :=
  ∃ st, s.record orderId = some st ∧ isTerminal st.order.status

theorem finished_iff_any (s : RunnerState) (orderId : UInt64) :
    ((s.record orderId).any fun st => isTerminal st.order.status) ↔ s.Finished orderId := by
  cases h : s.record orderId <;> simp [Finished, h]

instance (s : RunnerState) (orderId : UInt64) : Decidable (s.Finished orderId) :=
  decidable_of_iff _ (finished_iff_any s orderId)

theorem effectivePosition_default (instrumentId : InstrumentId) :
    RunnerState.default.effectivePosition instrumentId = 0 := by
  have hposition : RunnerState.default.position instrumentId = none := rfl
  have hpending : RunnerState.default.pendingExposure instrumentId = (0, 0) := rfl
  simp only [effectivePosition, hposition, hpending]
  decide

section Handlers
variable (s : RunnerState)

@[simp] theorem updateMarket_orderManager (book : OrderBook) :
    (s.updateMarket book).orderManager = s.orderManager := by
  unfold updateMarket
  split <;> rfl

@[simp] theorem updateMarket_ledger (book : OrderBook) :
    (s.updateMarket book).ledger = s.ledger := by
  unfold updateMarket
  split <;> rfl

theorem applyTradeEvent_of_seen {event : TradeEvent} (h : event.tradeId ∈ s.ledger.fillLedger.seen) :
    s.applyTradeEvent event = (s, false) := by
  simp [applyTradeEvent, Ledger.applyTradeEvent_of_seen s.ledger h]

theorem applyTradeEvent_of_new {event : TradeEvent} (h : event.tradeId ∉ s.ledger.fillLedger.seen) :
    s.applyTradeEvent event =
      ({ s with
          ledger := (s.ledger.applyTradeEvent event).1
          orderManager := s.orderManager.applyTradeEvent event }, true) :=
  if_pos ((Ledger.applyTradeEvent_accepted_iff _ _).mpr h)

theorem applyTradeEvent_accepted_iff (event : TradeEvent) :
    (s.applyTradeEvent event).2 = true ↔ event.tradeId ∉ s.ledger.fillLedger.seen := by
  by_cases h : event.tradeId ∈ s.ledger.fillLedger.seen
  · simp [applyTradeEvent_of_seen s h, h]
  · simp [applyTradeEvent_of_new s h, h]

theorem valid_applyTradeEvent (h : s.ledger.fillLedger.Valid) (event : TradeEvent) :
    (s.applyTradeEvent event).1.ledger.fillLedger.Valid := by
  by_cases hseen : event.tradeId ∈ s.ledger.fillLedger.seen
  · rw [applyTradeEvent_of_seen s hseen]
    exact h
  · rw [applyTradeEvent_of_new s hseen, Ledger.applyTradeEvent_of_new s.ledger hseen]
    exact h.checkAndInsert event.tradeId

theorem seen_after_applyTradeEvent (h : s.ledger.fillLedger.Valid) (event : TradeEvent) :
    event.tradeId ∈ (s.applyTradeEvent event).1.ledger.fillLedger.seen := by
  by_cases hseen : event.tradeId ∈ s.ledger.fillLedger.seen
  · rw [applyTradeEvent_of_seen s hseen]
    exact hseen
  · rw [applyTradeEvent_of_new s hseen, Ledger.applyTradeEvent_of_new s.ledger hseen]
    exact h.mem_seen_checkAndInsert event.tradeId

theorem seen_applyTradeEvent_subset (event : TradeEvent) :
    (s.applyTradeEvent event).1.ledger.fillLedger.seen ⊆
      insert event.tradeId s.ledger.fillLedger.seen := by
  by_cases h : event.tradeId ∈ s.ledger.fillLedger.seen
  · rw [applyTradeEvent_of_seen s h]
    exact Finset.subset_insert _ _
  · rw [applyTradeEvent_of_new s h, Ledger.applyTradeEvent_of_new s.ledger h]
    exact FillLedger.seen_checkAndInsert_subset _ _

end Handlers

section Market

theorem find_set_self {entries : List OrderBook} {index : Nat} {book : OrderBook}
    (h : entries.findIdx? (fun entry => entry.instrumentId = book.instrumentId) = some index) :
    (entries.set index book).find? (fun entry => entry.instrumentId = book.instrumentId) =
      some book := by
  obtain ⟨hlt, _, hbefore⟩ := List.findIdx?_eq_some_iff_getElem.mp h
  rw [List.find?_eq_some_iff_getElem]
  refine ⟨decide_eq_true rfl, index, by rwa [List.length_set], List.getElem_set_self _, ?_⟩
  intro j hj
  rw [List.getElem_set_ne (by omega)]
  simpa using hbefore j hj

theorem marketView_updateMarket (s : RunnerState) (book : OrderBook) (i : InstrumentId) :
    (s.updateMarket book).marketView i =
      if i = book.instrumentId then some book else s.marketView i := by
  by_cases hi : i = book.instrumentId
  · rw [if_pos hi, hi]
    unfold updateMarket marketView
    split
    · rename_i index hfound
      exact find_set_self hfound
    · rename_i hnone
      have hold : s.market.find? (fun entry => entry.instrumentId = book.instrumentId) = none := by
        rw [List.find?_eq_none]
        rw [List.findIdx?_eq_none_iff] at hnone
        simpa using hnone
      rw [List.find?_append, hold, Option.none_or, List.find?_singleton, if_pos (by simp)]
  · rw [if_neg hi]
    unfold updateMarket marketView
    split
    · rename_i index hfound
      obtain ⟨hlt, hentry, _⟩ := List.findIdx?_eq_some_iff_getElem.mp hfound
      rw [decide_eq_true_eq] at hentry
      have hsplit := List.take_append_drop index s.market
      rw [List.drop_eq_getElem_cons hlt] at hsplit
      rw [List.set_eq_take_cons_drop _ hlt]
      conv_rhs => rw [← hsplit]
      rw [List.find?_append, List.find?_append, List.find?_cons_of_neg, List.find?_cons_of_neg]
      · simpa [hentry] using Ne.symm hi
      · simpa using Ne.symm hi
    · rw [List.find?_append, List.find?_singleton, if_neg (by simpa using Ne.symm hi), Option.or_none]

end Market

end RunnerState

end Nnxt
