import Mathlib.Algebra.Field.Rat
import Mathlib.Data.Finset.Basic
import Nnxt.Specs
import Nnxt.Foundation.HashMap

/-!
# Position ledger with trade deduplication

A window of the most recently accepted trade ids in front of one signed
position for each instrument.
-/

namespace Nnxt

set_option autoImplicit false

open HashMap FixedWidth

def defaultFillWindow : Nat := 10000

structure FillLedger where
  maxSize : Nat
  deque : List UInt64
  seen : Finset UInt64

namespace FillLedger

def new (maxSize : Nat) : FillLedger := ⟨maxSize, [], ∅⟩

/-- The flag tells whether the trade id was new; the oldest id leaves a full window. -/
def checkAndInsert (l : FillLedger) (tradeId : UInt64) : FillLedger × Bool :=
  if tradeId ∈ l.seen then (l, false)
  else
    let seen := insert tradeId l.seen
    let deque := l.deque ++ [tradeId]
    if l.maxSize < deque.length then
      match deque with
      | evicted :: rest => (⟨l.maxSize, rest, seen.erase evicted⟩, true)
      | [] => (⟨l.maxSize, deque, seen⟩, true)
    else (⟨l.maxSize, deque, seen⟩, true)

theorem checkAndInsert_of_seen {l : FillLedger} {tradeId : UInt64} (h : tradeId ∈ l.seen) :
    l.checkAndInsert tradeId = (l, false) := if_pos h

theorem checkAndInsert_accepted_iff (l : FillLedger) (tradeId : UInt64) :
    (l.checkAndInsert tradeId).2 = true ↔ tradeId ∉ l.seen := by
  simp only [checkAndInsert]
  split
  · simp_all
  · split
    · split <;> simp_all
    · simp_all

theorem seen_checkAndInsert_subset (l : FillLedger) (tradeId : UInt64) :
    (l.checkAndInsert tradeId).1.seen ⊆ insert tradeId l.seen := by
  simp only [checkAndInsert]
  split
  · exact Finset.subset_insert _ _
  · split
    · split
      · exact Finset.erase_subset _ _
      · exact Finset.Subset.refl _
    · exact Finset.Subset.refl _

/-- The window and the set hold the same ids, each once, and the window is not empty by size. -/
structure Valid (l : FillLedger) : Prop where
  positive : 0 < l.maxSize
  nodup : l.deque.Nodup
  mem_iff : ∀ tradeId, tradeId ∈ l.deque ↔ tradeId ∈ l.seen

theorem valid_new {maxSize : Nat} (h : 0 < maxSize) : (new maxSize).Valid :=
  ⟨h, List.nodup_nil, fun _ => iff_of_false List.not_mem_nil (Finset.notMem_empty _)⟩

theorem Valid.nodup_append {l : FillLedger} (h : l.Valid) {tradeId : UInt64}
    (hnew : tradeId ∉ l.seen) : (l.deque ++ [tradeId]).Nodup := by
  refine List.nodup_append.mpr ⟨h.nodup, List.nodup_singleton _, ?_⟩
  intro a ha b hb
  rw [List.mem_singleton.mp hb]
  intro heq
  exact hnew ((h.mem_iff tradeId).mp (heq ▸ ha))

theorem Valid.mem_append {l : FillLedger} (h : l.Valid) (tradeId id : UInt64) :
    id ∈ l.deque ++ [tradeId] ↔ id ∈ insert tradeId l.seen := by
  rw [List.mem_append, List.mem_singleton, h.mem_iff, Finset.mem_insert, or_comm]

/-- The id that leaves a full window is the oldest, never the one just offered. -/
theorem Valid.evicted_ne {l : FillLedger} (h : l.Valid) {tradeId evicted : UInt64}
    {rest : List UInt64} (hnew : tradeId ∉ l.seen) (hfull : l.maxSize < (l.deque ++ [tradeId]).length)
    (hdeque : l.deque ++ [tradeId] = evicted :: rest) : evicted ≠ tradeId := by
  have hpositive := h.positive
  cases hold : l.deque with
  | nil =>
    rw [hold, List.nil_append, List.length_singleton] at hfull
    omega
  | cons oldest later =>
    rw [hold, List.cons_append, List.cons.injEq] at hdeque
    intro heq
    apply hnew
    rw [← heq, ← hdeque.1, ← h.mem_iff, hold]
    exact List.mem_cons_self

theorem Valid.checkAndInsert {l : FillLedger} (h : l.Valid) (tradeId : UInt64) :
    (l.checkAndInsert tradeId).1.Valid := by
  simp only [FillLedger.checkAndInsert]
  split
  · exact h
  · rename_i hnew
    have hnodup := h.nodup_append hnew
    split
    · split
      · rename_i evicted rest hdeque
        rw [hdeque] at hnodup
        obtain ⟨hnot, hrest⟩ := List.nodup_cons.mp hnodup
        refine ⟨h.positive, hrest, fun id => ?_⟩
        rw [Finset.mem_erase, ← h.mem_append tradeId id, hdeque, List.mem_cons]
        constructor
        · intro hmem
          exact ⟨fun heq => hnot (heq ▸ hmem), Or.inr hmem⟩
        · rintro ⟨hne, hmem⟩
          exact hmem.resolve_left hne
      · exact ⟨h.positive, hnodup, h.mem_append tradeId⟩
    · exact ⟨h.positive, hnodup, h.mem_append tradeId⟩

theorem Valid.mem_seen_checkAndInsert {l : FillLedger} (h : l.Valid) (tradeId : UInt64) :
    tradeId ∈ (l.checkAndInsert tradeId).1.seen := by
  simp only [FillLedger.checkAndInsert]
  split
  · assumption
  · rename_i hnew
    split
    · rename_i hfull
      split
      · rename_i evicted rest hdeque
        have hne := h.evicted_ne hnew hfull hdeque
        exact Finset.mem_erase.mpr ⟨Ne.symm hne, Finset.mem_insert_self _ _⟩
      · exact Finset.mem_insert_self _ _
    · exact Finset.mem_insert_self _ _

end FillLedger

structure PositionState where
  quantity : Int64
  avgPrice : Price
  lastUpdateNs : UInt64
  deriving DecidableEq

structure Ledger where
  fillLedger : FillLedger
  positions : Map InstrumentId PositionState

def nextAvgPrice (prevQty : Int64) (prevAvg : Price) (delta : Int64) (tradePrice : Price)
    (nextQty : Int64) : Price :=
  if nextQty = 0 then 0
  else
    let prevSign := prevQty.toInt.sign
    let deltaSign := delta.toInt.sign
    if prevQty = 0 ∨ prevSign = deltaSign then
      let prevAbs : Price := (unsignedAbs prevQty).toNat
      let deltaAbs : Price := (unsignedAbs delta).toNat
      let total := prevAbs + deltaAbs
      if total = 0 then 0 else (prevAvg * prevAbs + tradePrice * deltaAbs) / total
    else if nextQty.toInt.sign ≠ prevSign then tradePrice
    else prevAvg

/-- The signed quantity of a trade, cast to `i64` before the sign is applied. -/
def TradeEvent.delta (event : TradeEvent) : Int64 :=
  match event.side with
  | .buy => event.quantity.toInt64
  | .sell => -event.quantity.toInt64

def PositionState.traded (event : TradeEvent) (state : PositionState) : PositionState :=
  let nextQty := saturatingAddI64 state.quantity event.delta
  { quantity := nextQty
    avgPrice := nextAvgPrice state.quantity state.avgPrice event.delta event.price nextQty
    lastUpdateNs := event.timestamp }

namespace Ledger

def new : Ledger := ⟨FillLedger.new defaultFillWindow, ∅⟩

def toPosition (instrumentId : InstrumentId) (state : PositionState) : Position :=
  ⟨instrumentId, state.quantity, state.avgPrice, state.lastUpdateNs⟩

/-- The position is `none` for a trade id still in the window. -/
def applyTradeEvent (l : Ledger) (event : TradeEvent) : Ledger × Option Position :=
  if (l.fillLedger.checkAndInsert event.tradeId).2 then
    let entry := (l.positions.lookup event.instrumentId).getD ⟨0, 0, event.timestamp⟩
    let state := entry.traded event
    ({ fillLedger := (l.fillLedger.checkAndInsert event.tradeId).1
       positions := l.positions.insert event.instrumentId state },
     some (toPosition event.instrumentId state))
  else (l, none)

def position (l : Ledger) (instrumentId : InstrumentId) : Option Position :=
  (l.positions.lookup instrumentId).map (toPosition instrumentId)

def quantity (l : Ledger) (instrumentId : InstrumentId) : Int64 :=
  ((l.position instrumentId).map (·.quantity)).getD 0

section Trades
variable (l : Ledger)

theorem applyTradeEvent_of_seen {event : TradeEvent} (h : event.tradeId ∈ l.fillLedger.seen) :
    l.applyTradeEvent event = (l, none) := by
  simp [applyTradeEvent, FillLedger.checkAndInsert_of_seen h]

theorem applyTradeEvent_of_new {event : TradeEvent} (h : event.tradeId ∉ l.fillLedger.seen) :
    l.applyTradeEvent event =
      ({ fillLedger := (l.fillLedger.checkAndInsert event.tradeId).1
         positions := l.positions.insert event.instrumentId
           (((l.positions.lookup event.instrumentId).getD ⟨0, 0, event.timestamp⟩).traded event) },
       some (toPosition event.instrumentId
         (((l.positions.lookup event.instrumentId).getD ⟨0, 0, event.timestamp⟩).traded event))) :=
  if_pos ((FillLedger.checkAndInsert_accepted_iff _ _).mpr h)

theorem applyTradeEvent_accepted_iff (event : TradeEvent) :
    (l.applyTradeEvent event).2.isSome ↔ event.tradeId ∉ l.fillLedger.seen := by
  by_cases h : event.tradeId ∈ l.fillLedger.seen
  · simp [applyTradeEvent_of_seen l h, h]
  · simp [applyTradeEvent_of_new l h, h]

theorem quantity_eq (instrumentId : InstrumentId) :
    l.quantity instrumentId =
      ((l.positions.lookup instrumentId).map (·.quantity)).getD 0 := by
  cases h : l.positions.lookup instrumentId <;> simp [quantity, position, toPosition, h]

/-- An accepted trade adds its signed quantity, clamped, to its own instrument. -/
theorem quantity_applyTradeEvent {event : TradeEvent} (h : event.tradeId ∉ l.fillLedger.seen) :
    (l.applyTradeEvent event).1.quantity event.instrumentId =
      saturatingAddI64 (l.quantity event.instrumentId) event.delta := by
  rw [applyTradeEvent_of_new l h, quantity_eq, quantity_eq, AList.lookup_insert]
  cases l.positions.lookup event.instrumentId <;> rfl

theorem position_applyTradeEvent_ne (event : TradeEvent) {instrumentId : InstrumentId}
    (hne : instrumentId ≠ event.instrumentId) :
    (l.applyTradeEvent event).1.position instrumentId = l.position instrumentId := by
  by_cases h : event.tradeId ∈ l.fillLedger.seen
  · rw [applyTradeEvent_of_seen l h]
  · rw [applyTradeEvent_of_new l h, position, position, AList.lookup_insert_ne hne]

end Trades

end Ledger

end Nnxt
