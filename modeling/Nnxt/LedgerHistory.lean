import Nnxt.Ledger
import Nnxt.Foundation.RecentWindow

/-!
# The ledger along a sequence of trades

The queue of the fill ledger is the end of the history of accepted ids, so a
trade is judged by that history alone.
-/

namespace Nnxt

set_option autoImplicit false

open RecentWindow

namespace FillLedger

/-- The queue is what the window keeps of the history of accepted ids. -/
structure Tracks (l : FillLedger) (history : List UInt64) : Prop where
  valid : l.Valid
  recent : l.deque = history.rtake l.maxSize

section Window
variable {l : FillLedger} {history : List UInt64} {tradeId : UInt64}

theorem tracks_new {maxSize : Nat} (h : 0 < maxSize) : (new maxSize).Tracks [] :=
  ⟨valid_new h, (List.rtake_nil maxSize).symm⟩

theorem maxSize_checkAndInsert (l : FillLedger) (tradeId : UInt64) :
    (l.checkAndInsert tradeId).1.maxSize = l.maxSize := by
  simp only [checkAndInsert]
  split
  · rfl
  · split
    · split <;> rfl
    · rfl

theorem deque_checkAndInsert_of_new (h : tradeId ∉ l.seen) :
    (l.checkAndInsert tradeId).1.deque =
      if l.maxSize < (l.deque ++ [tradeId]).length then (l.deque ++ [tradeId]).tail
      else l.deque ++ [tradeId] := by
  simp only [checkAndInsert, if_neg h]
  split
  · split
    · rename_i hdeque
      rw [hdeque, List.tail_cons]
    · rename_i hnil
      rw [hnil, List.tail_nil]
  · rfl

theorem Tracks.mem_seen_iff (h : l.Tracks history) (tradeId : UInt64) :
    tradeId ∈ l.seen ↔ tradeId ∈ history.rtake l.maxSize := by
  rw [← h.valid.mem_iff, h.recent]

theorem Tracks.length_le (h : l.Tracks history) : l.deque.length ≤ l.maxSize := by
  rw [h.recent, length_rtake]
  exact Nat.min_le_left _ _

theorem Tracks.checkAndInsert (h : l.Tracks history) (tradeId : UInt64) :
    (l.checkAndInsert tradeId).1.Tracks (offer l.maxSize history tradeId) := by
  refine ⟨h.valid.checkAndInsert tradeId, ?_⟩
  rw [maxSize_checkAndInsert]
  by_cases hseen : tradeId ∈ l.seen
  · rw [checkAndInsert_of_seen hseen, offer_of_recent ((h.mem_seen_iff tradeId).mp hseen), h.recent]
  · have hnew : tradeId ∉ history.rtake l.maxSize := fun hmem => hseen ((h.mem_seen_iff tradeId).mpr hmem)
    rw [deque_checkAndInsert_of_new hseen, offer_of_new hnew,
      rtake_append_singleton h.valid.positive, h.recent]

end Window

end FillLedger

namespace Ledger

def applyAll (l : Ledger) (events : List TradeEvent) : Ledger :=
  events.foldl (fun l event => (l.applyTradeEvent event).1) l

/-- The events for which `apply_trade_event` returns a position. -/
def accepted (l : Ledger) : List TradeEvent → List TradeEvent
  | [] => []
  | event :: events =>
    let later := (l.applyTradeEvent event).1.accepted events
    if (l.applyTradeEvent event).2.isSome then event :: later else later

def acceptedIds (l : Ledger) (events : List TradeEvent) : List UInt64 :=
  (l.accepted events).map (·.tradeId)

section History
variable {l : Ledger} {history : List UInt64}

theorem applyAll_append (l : Ledger) (events later : List TradeEvent) :
    l.applyAll (events ++ later) = (l.applyAll events).applyAll later := List.foldl_append

theorem accepted_append (l : Ledger) (events later : List TradeEvent) :
    l.accepted (events ++ later) = l.accepted events ++ (l.applyAll events).accepted later := by
  induction events generalizing l with
  | nil => rfl
  | cons event events ih =>
    have hstep : l.applyAll (event :: events) = (l.applyTradeEvent event).1.applyAll events := rfl
    simp only [List.cons_append, accepted, hstep, ih]
    split <;> rfl

theorem accepted_singleton (l : Ledger) (event : TradeEvent) :
    l.accepted [event] = if (l.applyTradeEvent event).2.isSome then [event] else [] := rfl

theorem fillLedger_applyTradeEvent (l : Ledger) (event : TradeEvent) :
    (l.applyTradeEvent event).1.fillLedger = (l.fillLedger.checkAndInsert event.tradeId).1 := by
  by_cases h : event.tradeId ∈ l.fillLedger.seen
  · rw [applyTradeEvent_of_seen l h, FillLedger.checkAndInsert_of_seen h]
  · rw [applyTradeEvent_of_new l h]

theorem maxSize_applyAll (l : Ledger) (events : List TradeEvent) :
    (l.applyAll events).fillLedger.maxSize = l.fillLedger.maxSize := by
  induction events generalizing l with
  | nil => rfl
  | cons event events ih =>
    have hstep : l.applyAll (event :: events) = (l.applyTradeEvent event).1.applyAll events := rfl
    rw [hstep, ih, fillLedger_applyTradeEvent, FillLedger.maxSize_checkAndInsert]

/-- One event is offered to the window whether it is accepted or not. -/
theorem offer_eq (h : l.fillLedger.Tracks history) (event : TradeEvent) :
    offer l.fillLedger.maxSize history event.tradeId = history ++ l.acceptedIds [event] := by
  rw [acceptedIds, accepted_singleton]
  by_cases hseen : event.tradeId ∈ l.fillLedger.seen
  · rw [offer_of_recent ((h.mem_seen_iff _).mp hseen), applyTradeEvent_of_seen l hseen]
    exact (List.append_nil history).symm
  · have hnew : event.tradeId ∉ history.rtake l.fillLedger.maxSize :=
      fun hmem => hseen ((h.mem_seen_iff _).mpr hmem)
    rw [offer_of_new hnew, if_pos ((applyTradeEvent_accepted_iff l event).mpr hseen)]
    rfl

theorem tracks_applyTradeEvent (h : l.fillLedger.Tracks history) (event : TradeEvent) :
    (l.applyTradeEvent event).1.fillLedger.Tracks (history ++ l.acceptedIds [event]) := by
  rw [fillLedger_applyTradeEvent, ← offer_eq h]
  exact h.checkAndInsert event.tradeId

theorem acceptedIds_append (l : Ledger) (events later : List TradeEvent) :
    l.acceptedIds (events ++ later) = l.acceptedIds events ++ (l.applyAll events).acceptedIds later := by
  rw [acceptedIds, accepted_append, List.map_append]
  rfl

theorem acceptedIds_cons (l : Ledger) (event : TradeEvent) (events : List TradeEvent) :
    l.acceptedIds (event :: events) =
      l.acceptedIds [event] ++ (l.applyTradeEvent event).1.acceptedIds events :=
  acceptedIds_append l [event] events

theorem tracks_applyAll (h : l.fillLedger.Tracks history) (events : List TradeEvent) :
    (l.applyAll events).fillLedger.Tracks (history ++ l.acceptedIds events) := by
  induction events generalizing l history with
  | nil =>
    rw [acceptedIds, accepted, List.map_nil, List.append_nil]
    exact h
  | cons event events ih =>
    have hnext := ih (tracks_applyTradeEvent h event)
    rw [List.append_assoc, ← acceptedIds_cons] at hnext
    exact hnext

theorem tracks_new (events : List TradeEvent) :
    (new.applyAll events).fillLedger.Tracks (new.acceptedIds events) :=
  @tracks_applyAll new [] (FillLedger.tracks_new (Nat.succ_pos 9999)) events

/-- An event is accepted exactly when its id is not among the most recently accepted ones. -/
theorem isSome_applyTradeEvent_iff (events : List TradeEvent) (event : TradeEvent) :
    ((new.applyAll events).applyTradeEvent event).2.isSome ↔
      event.tradeId ∉ (new.acceptedIds events).rtake defaultFillWindow := by
  have hmax : (new.applyAll events).fillLedger.maxSize = defaultFillWindow := maxSize_applyAll new events
  rw [applyTradeEvent_accepted_iff, (tracks_new events).mem_seen_iff, hmax]

/-- The accepted ids are those the abstract window accepts. -/
theorem append_acceptedIds_eq (h : l.fillLedger.Tracks history) (events : List TradeEvent) :
    history ++ l.acceptedIds events =
      offerAll l.fillLedger.maxSize history (events.map (·.tradeId)) := by
  induction events generalizing l history with
  | nil => exact List.append_nil history
  | cons event events ih =>
    have hmax : (l.applyTradeEvent event).1.fillLedger.maxSize = l.fillLedger.maxSize :=
      maxSize_applyAll l [event]
    have hlater := ih (tracks_applyTradeEvent h event)
    rw [hmax, ← offer_eq h] at hlater
    rw [acceptedIds_cons, ← List.append_assoc, ← offer_eq h]
    exact hlater

theorem accepted_sublist (l : Ledger) (events : List TradeEvent) :
    (l.accepted events).Sublist events := by
  induction events generalizing l with
  | nil => exact List.Sublist.refl _
  | cons event events ih =>
    simp only [accepted]
    split
    · exact (ih _).cons_cons event
    · exact (ih _).cons event

/-- Pairwise distinct ids are all accepted. -/
theorem accepted_of_nodup {events : List TradeEvent} (h : (events.map (·.tradeId)).Nodup) :
    new.accepted events = events := by
  apply (accepted_sublist new events).eq_of_length
  have hids : new.acceptedIds events = events.map (·.tradeId) := by
    have hoffered := append_acceptedIds_eq (tracks_new []) events
    rwa [offerAll_of_nodup h] at hoffered
  have hlength := congrArg List.length hids
  rwa [acceptedIds, List.length_map, List.length_map] at hlength

end History

end Ledger

end Nnxt
