import Mathlib.Algebra.Order.BigOperators.Group.List
import Mathlib.Algebra.Order.Group.Nat
import Nnxt.LedgerHistory
import Nnxt.ExposureLaw

/-!
# The position as a sum of trades

What a trade adds is independent of the trades before it, so as long as no
running sum leaves the range of `i64` the position depends on the set of
accepted trades and not on their order.
-/

namespace Nnxt.LedgerSum

set_option autoImplicit false

open Ledger Exposure FixedWidth

def signedSum (i : InstrumentId) (events : List TradeEvent) : Int :=
  ((events.filter fun event => event.instrumentId = i).map signedTrade).sum

/-- Quantities that the cast to `i64` keeps, and running sums that it can hold. -/
structure Within (events : List TradeEvent) : Prop where
  quantity : ∀ event ∈ events, FitsI64 event.quantity.toNat
  sums : ∀ before, before <+: events → ∀ i, FitsI64 (signedSum i (new.accepted before))

/-- The ledger is the sum of the accepted trades. -/
structure Sums (l : Ledger) (trades : List TradeEvent) : Prop where
  listed : ∀ i, l.position i = none ↔ ∀ event ∈ trades, event.instrumentId ≠ i
  quantity : ∀ i, (l.quantity i).toInt = signedSum i trades

section Sums
variable {l : Ledger} {trades events : List TradeEvent} {event : TradeEvent} {i : InstrumentId}

theorem signedSum_append_self (h : event.instrumentId = i) :
    signedSum i (trades ++ [event]) = signedSum i trades + signedTrade event := by
  simp [signedSum, h]

theorem signedSum_append_ne (h : event.instrumentId ≠ i) :
    signedSum i (trades ++ [event]) = signedSum i trades := by
  simp [signedSum, h]

theorem signedSum_perm {trades' : List TradeEvent} (h : trades.Perm trades') :
    signedSum i trades = signedSum i trades' :=
  ((h.filter _).map signedTrade).sum_eq

theorem position_ne_none_of_new (hnew : event.tradeId ∉ l.fillLedger.seen) :
    (l.applyTradeEvent event).1.position event.instrumentId ≠ none := by
  rw [applyTradeEvent_of_new l hnew, position, AList.lookup_insert, Option.map_some]
  exact Option.some_ne_none _

theorem sums_new : Sums new [] := by
  refine ⟨fun i => ?_, fun i => rfl⟩
  exact iff_of_true rfl (List.forall_mem_nil _)

theorem Sums.accept (h : Sums l trades) (hnew : event.tradeId ∉ l.fillLedger.seen)
    (hquantity : FitsI64 event.quantity.toNat)
    (hsum : FitsI64 (signedSum event.instrumentId (trades ++ [event]))) :
    Sums (l.applyTradeEvent event).1 (trades ++ [event]) := by
  have hdelta := delta_toInt hquantity
  constructor
  · intro i
    rw [List.forall_mem_append, List.forall_mem_singleton]
    by_cases hi : event.instrumentId = i
    · subst hi
      exact iff_of_false (position_ne_none_of_new hnew) fun hall => hall.2 rfl
    · rw [position_applyTradeEvent_ne l event (Ne.symm hi), h.listed]
      exact ⟨fun hall => ⟨hall, hi⟩, fun hall => hall.1⟩
  · intro i
    by_cases hi : event.instrumentId = i
    · subst hi
      rw [signedSum_append_self rfl] at hsum ⊢
      have hbefore := h.quantity event.instrumentId
      rw [quantity_applyTradeEvent l hnew, toInt_saturatingAddI64, hdelta, hbefore]
      rw [hdelta, hbefore]
      exact hsum
    · rw [signedSum_append_ne hi, ← h.quantity i, Ledger.quantity, Ledger.quantity,
        position_applyTradeEvent_ne l event (Ne.symm hi)]

theorem Within.of_append (h : Within (events ++ [event])) : Within events where
  quantity := fun event hmem => h.quantity event (List.mem_append_left _ hmem)
  sums := fun before hbefore => h.sums before (hbefore.trans (List.prefix_append _ _))

theorem Within.sums_applyAll (h : Within events) :
    Sums (new.applyAll events) (new.accepted events) := by
  induction events using List.reverseRecOn with
  | nil => exact sums_new
  | append_singleton events event ih =>
    have hbefore := ih h.of_append
    rw [applyAll_append]
    by_cases hseen : event.tradeId ∈ (new.applyAll events).fillLedger.seen
    · have hrefused := applyTradeEvent_of_seen (new.applyAll events) hseen
      rw [accepted_append, accepted_singleton, hrefused]
      have hsame : (new.applyAll events).applyAll [event] = new.applyAll events :=
        congrArg Prod.fst hrefused
      rw [hsame]
      exact (List.append_nil (new.accepted events)).symm ▸ hbefore
    · have haccepted : new.accepted (events ++ [event]) = new.accepted events ++ [event] := by
        rw [accepted_append, accepted_singleton,
          if_pos ((applyTradeEvent_accepted_iff _ event).mpr hseen)]
      have hsum := h.sums _ (List.prefix_refl _) event.instrumentId
      rw [haccepted] at hsum ⊢
      have hmem : event ∈ events ++ [event] := List.mem_append_right _ (List.mem_singleton.mpr rfl)
      exact hbefore.accept hseen (h.quantity event hmem) hsum

theorem natAbs_signedSum_le (i : InstrumentId) (trades : List TradeEvent) :
    (signedSum i trades).natAbs ≤ (trades.map (·.quantity.toNat)).sum := by
  induction trades with
  | nil => exact Nat.le_refl 0
  | cons trade trades ih =>
    have hone : (signedTrade trade).natAbs = trade.quantity.toNat := by
      unfold signedTrade
      cases trade.side <;> simp
    rw [List.map_cons, List.sum_cons]
    by_cases hi : trade.instrumentId = i
    · have hsum : signedSum i (trade :: trades) = signedTrade trade + signedSum i trades := by
        simp [signedSum, hi]
      omega
    · have hsum : signedSum i (trade :: trades) = signedSum i trades := by
        simp [signedSum, hi]
      omega

theorem volume_le_of_sublist {part : List TradeEvent} (h : part.Sublist events) :
    (part.map (·.quantity.toNat)).sum ≤ (events.map (·.quantity.toNat)).sum :=
  (h.map _).sum_le_sum fun _ _ => Nat.zero_le _

/-- A total volume that fits is enough for every running sum. -/
theorem within_of_volume (h : (events.map (·.quantity.toNat)).sum < 2 ^ 63) : Within events where
  quantity := by
    intro event hmem
    have hle := volume_le_of_sublist (List.singleton_sublist.mpr hmem)
    rw [List.map_singleton, List.sum_singleton] at hle
    exact ⟨by omega, by omega⟩
  sums := by
    intro before hbefore i
    have hle := volume_le_of_sublist ((accepted_sublist new before).trans hbefore.sublist)
    have habs := natAbs_signedSum_le i (new.accepted before)
    exact ⟨by omega, by omega⟩

/-- Two sums of the same trades, in any order, report the same quantities. -/
theorem Sums.position_eq {l' : Ledger} {trades' : List TradeEvent} (h : Sums l trades)
    (h' : Sums l' trades') (hperm : trades.Perm trades') (i : InstrumentId) :
    (l.position i).map (·.quantity) = (l'.position i).map (·.quantity) := by
  have hnone : l.position i = none ↔ l'.position i = none := by
    rw [h.listed, h'.listed]
    exact ⟨fun hall event hmem => hall event (hperm.mem_iff.mpr hmem),
      fun hall event hmem => hall event (hperm.mem_iff.mp hmem)⟩
  have hquantity : l.quantity i = l'.quantity i := by
    rw [← Int64.toInt_inj, h.quantity, h'.quantity, signedSum_perm hperm]
  unfold Ledger.quantity at hquantity
  cases hp : l.position i with
  | none => rw [hnone.mp hp, Option.map_none]
  | some p =>
    cases hp' : l'.position i with
    | none => rw [hnone.mpr hp'] at hp; cases hp
    | some p' =>
      rw [hp, hp'] at hquantity
      exact congrArg some hquantity

end Sums

/-- The ledger after any sequence of trades: which are accepted, what the window
holds, what the positions are, and that the order of distinct trades is irrelevant. -/
theorem position_is_signed_sum {events : List TradeEvent} (h : Within events) :
    (∀ event, ((new.applyAll events).applyTradeEvent event).2.isSome ↔
      event.tradeId ∉ (new.acceptedIds events).rtake defaultFillWindow) ∧
    (∀ tradeId, tradeId ∈ (new.applyAll events).fillLedger.seen ↔
      tradeId ∈ (new.applyAll events).fillLedger.deque) ∧
    (new.applyAll events).fillLedger.deque.Nodup ∧
    (new.applyAll events).fillLedger.deque.length ≤ defaultFillWindow ∧
    (∀ i, (new.applyAll events).position i = none ↔
      ∀ event ∈ new.accepted events, event.instrumentId ≠ i) ∧
    (∀ i p, (new.applyAll events).position i = some p →
      p.quantity.toInt = signedSum i (new.accepted events)) ∧
    ((events.map (·.tradeId)).Nodup → ∀ events', events.Perm events' → Within events' →
      ∀ i, ((new.applyAll events').position i).map (·.quantity) =
        ((new.applyAll events).position i).map (·.quantity)) := by
  have htracks := tracks_new events
  have hsums := h.sums_applyAll
  refine ⟨isSome_applyTradeEvent_iff events, fun tradeId => (htracks.valid.mem_iff tradeId).symm,
    htracks.valid.nodup, ?_, hsums.listed, ?_, ?_⟩
  · have hlength := htracks.length_le
    rwa [maxSize_applyAll] at hlength
  · intro i p hp
    rw [← hsums.quantity i, Ledger.quantity, hp]
    rfl
  · intro hnodup events' hperm hwithin i
    have hnodup' : (events'.map (·.tradeId)).Nodup := (hperm.map _).nodup hnodup
    have hsums' := hwithin.sums_applyAll
    rw [accepted_of_nodup hnodup] at hsums
    rw [accepted_of_nodup hnodup'] at hsums'
    exact hsums'.position_eq hsums hperm.symm i

def buyThenSell : List TradeEvent :=
  [⟨default, 1, 1, .buy, 10, 3, 1⟩, ⟨default, 2, 2, .sell, 11, 1, 2⟩]

theorem position_is_signed_sum_buy_then_sell :
    ((new.applyAll buyThenSell.reverse).position default).map (·.quantity) =
        ((new.applyAll buyThenSell).position default).map (·.quantity) ∧
      ((new.applyAll buyThenSell).position default).map (·.quantity) = some 2 := by
  have hwithin : Within buyThenSell := within_of_volume (by decide)
  have hreverse : Within buyThenSell.reverse := within_of_volume (by decide)
  have hperm : buyThenSell.Perm buyThenSell.reverse := (List.reverse_perm _).symm
  have horder := (position_is_signed_sum hwithin).2.2.2.2.2.2 (by decide)
  exact ⟨horder _ hperm hreverse default, rfl⟩

end Nnxt.LedgerSum
