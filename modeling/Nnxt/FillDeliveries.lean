import Nnxt.FillAccounting

/-!
# The record of an order while its events arrive

Along every interleaving the record holds the clamped count `Progress.counted`,
so the accounting is right as long as that count is.
-/

namespace Nnxt.FillAccounting

set_option autoImplicit false

open HashMap OrderManager FixedWidth
open RunnerState (record)

/-- The state of a run that has delivered `p` and has `rest` left to deliver. -/
structure Tracking (orderId quantity : UInt64) (s : RunnerState) (p : Progress)
    (rest : List TradeGatewayEvent) : Prop where
  record : ∃ st, record s orderId = some st ∧ st.order.quantity = quantity ∧
    st.order.filledQuantity.toNat = min p.counted (2 ^ 64 - 1) ∧
    ∀ key, p.last = some key → key.status = .filled → st.order.status = .filled
  ordered : p.tradedThen ≤ p.traded
  reported : ∀ key, p.last = some key → p.reported = key.filledQuantity.toNat
  complete : orderEventsOf rest = [] →
    ∃ key, p.last = some key ∧ key.status = .filled ∧ key.filledQuantity.toNat = quantity.toNat
  final : ∀ before final, orderEventsOf rest = before ++ [final] →
    final.status = .filled ∧ final.filledQuantity.toNat = quantity.toNat
  reports : Reports orderId quantity (orderEventsOf rest)
  seen : ∀ key, p.last = some key → key ∈ s.orderManager.seenFor orderId
  known : ∀ event ∈ orderEventsOf rest, event.key ∈ s.orderManager.seenFor orderId →
    p.last = some event.key
  next : ∀ key, p.last = some key → key ∈ (orderEventsOf rest).map OrderEvent.key →
    (orderEventsOf rest).head?.map OrderEvent.key = some key
  own : ∀ event ∈ tradeEventsOf rest, event.orderId = orderId
  tradeIds : ((tradeEventsOf rest).map (·.tradeId)).Nodup
  fresh : ∀ event ∈ tradeEventsOf rest, event.tradeId ∉ s.ledger.fillLedger.seen

section Deliver
variable {orderId quantity : UInt64} {s : RunnerState} {p : Progress}
  {rest : List TradeGatewayEvent}

theorem saturatingAdd_whole {event : OrderEvent}
    (h : event.filledQuantity.toNat + event.remainingQuantity.toNat = quantity.toNat) :
    saturatingAdd event.filledQuantity event.remainingQuantity = quantity := by
  apply UInt64.toNat_inj.mp
  have := quantity.toNat_lt
  rw [toNat_saturatingAdd, h]
  omega

theorem Tracking.filled_of_last {event : OrderEvent}
    (h : Tracking orderId quantity s p (.order event :: rest)) (hnil : orderEventsOf rest = []) :
    event.status = .filled ∧ event.filledQuantity.toNat = quantity.toNat := by
  have hcons : orderEventsOf (.order event :: rest) = event :: orderEventsOf rest := rfl
  apply h.final [] event
  rw [hcons, hnil, List.nil_append]

theorem Tracking.final_tail {event : OrderEvent}
    (h : Tracking orderId quantity s p (.order event :: rest)) {before : List OrderEvent}
    {final : OrderEvent} (heq : orderEventsOf rest = before ++ [final]) :
    final.status = .filled ∧ final.filledQuantity.toNat = quantity.toNat := by
  have hcons : orderEventsOf (.order event :: rest) = event :: orderEventsOf rest := rfl
  apply h.final (event :: before) final
  rw [hcons, heq, List.cons_append]

theorem Tracking.orderId_eq {event : OrderEvent}
    (h : Tracking orderId quantity s p (.order event :: rest)) : event.orderId = orderId :=
  h.reports.own event List.mem_cons_self

/-- A report that comes again comes at once. -/
theorem Tracking.head_of_repeated {event : OrderEvent}
    (h : Tracking orderId quantity s p (.order event :: rest))
    (hmem : event.key ∈ (orderEventsOf rest).map OrderEvent.key) :
    (orderEventsOf rest).head?.map OrderEvent.key = some event.key := by
  have hcons : orderEventsOf (.order event :: rest) = event :: orderEventsOf rest := rfl
  have hreports := hcons ▸ h.reports
  exact hreports.repeats.1 hmem

/-- A repeated report is not accepted, and not counted. -/
theorem Tracking.repeated {event : OrderEvent}
    (h : Tracking orderId quantity s p (.order event :: rest)) (hlast : p.last = some event.key) :
    Tracking orderId quantity (s.applyOrderEvent event).1 (p.step (.order event)) rest := by
  have hcons : orderEventsOf (.order event :: rest) = event :: orderEventsOf rest := rfl
  have htrades : tradeEventsOf (.order event :: rest) = tradeEventsOf rest := rfl
  have hreports := hcons ▸ h.reports
  have hseen : event.key ∈ s.orderManager.seenFor event.orderId :=
    h.orderId_eq.symm ▸ h.seen _ hlast
  have hstate : (s.applyOrderEvent event).1 = s := by
    rw [RunnerState.applyOrderEvent, applyOrderEvent_of_seen s.orderManager hseen]
  have hstep : p.step (.order event) = p := if_pos hlast
  rw [hstate, hstep]
  refine ⟨h.record, h.ordered, h.reported, ?_, fun _ _ => h.final_tail, hreports.tail, h.seen, ?_,
    ?_, htrades ▸ h.own, htrades ▸ h.tradeIds, htrades ▸ h.fresh⟩
  · intro hnil
    exact ⟨event.key, hlast, h.filled_of_last hnil⟩
  · exact fun e he => h.known e (hcons ▸ List.mem_cons_of_mem event he)
  · intro key hkey hmem
    rw [hlast, Option.some.injEq] at hkey
    subst hkey
    exact h.head_of_repeated hmem

theorem Progress.step_of_new {event : OrderEvent} (hlast : p.last ≠ some event.key) :
    p.step (.order event) = ⟨event.filledQuantity.toNat, p.traded, p.traded, some event.key⟩ :=
  if_neg hlast

theorem Progress.counted_of_new {event : OrderEvent} (hlast : p.last ≠ some event.key) :
    (p.step (.order event)).counted = event.filledQuantity.toNat := by
  simp only [Progress.step_of_new hlast, Progress.counted, Nat.add_sub_cancel]

theorem Tracking.not_seen {event : OrderEvent}
    (h : Tracking orderId quantity s p (.order event :: rest)) (hlast : p.last ≠ some event.key) :
    event.key ∉ s.orderManager.seenFor event.orderId := by
  have hcons : orderEventsOf (.order event :: rest) = event :: orderEventsOf rest := rfl
  intro hseen
  exact hlast (h.known event (hcons ▸ List.mem_cons_self) (h.orderId_eq ▸ hseen))

theorem Tracking.seenFor_reported {event : OrderEvent}
    (h : Tracking orderId quantity s p (.order event :: rest)) :
    (s.applyOrderEvent event).1.orderManager.seenFor orderId =
      insert event.key (s.orderManager.seenFor orderId) := by
  rw [RunnerState.applyOrderEvent, seenFor_applyOrderEvent, if_pos h.orderId_eq.symm]

/-- What is still to come and was seen before can only repeat the report at hand. -/
theorem Tracking.known_reported {event : OrderEvent}
    (h : Tracking orderId quantity s p (.order event :: rest)) {e : OrderEvent}
    (he : e ∈ orderEventsOf rest)
    (hseen : e.key ∈ (s.applyOrderEvent event).1.orderManager.seenFor orderId) :
    some event.key = some e.key := by
  have hcons : orderEventsOf (.order event :: rest) = event :: orderEventsOf rest := rfl
  rw [h.seenFor_reported, Finset.mem_insert] at hseen
  rcases hseen with hsame | hold
  · rw [hsame]
  · -- a report from before this one would have to come at once
    have hprev := h.known e (hcons ▸ List.mem_cons_of_mem event he) hold
    exact h.next _ hprev (hcons ▸ List.mem_cons_of_mem _ (List.mem_map_of_mem he))

theorem Tracking.record_reported {event : OrderEvent}
    (h : Tracking orderId quantity s p (.order event :: rest)) (hlast : p.last ≠ some event.key) :
    ∃ st, RunnerState.record (s.applyOrderEvent event).1 orderId = some st ∧
      st.order.quantity = quantity ∧ st.order.filledQuantity = event.filledQuantity ∧
      st.order.status = event.status := by
  have hwhole := h.reports.whole event List.mem_cons_self
  obtain ⟨st, hst, hquantity, _, _⟩ := h.record
  refine ⟨st.reported event, ?_, ?_, rfl, rfl⟩
  · rw [← h.orderId_eq]
    exact lookup_applyOrderEvent_of_new _ (h.not_seen hlast) (h.orderId_eq.symm ▸ hst)
  · -- filled and remaining of every report add up to the quantity, so it does not grow
    simp only [OrderState.reported, saturatingAdd_whole hwhole, hquantity]
    split <;> rfl

theorem Tracking.reportedNew {event : OrderEvent}
    (h : Tracking orderId quantity s p (.order event :: rest)) (hlast : p.last ≠ some event.key) :
    Tracking orderId quantity (s.applyOrderEvent event).1 (p.step (.order event)) rest := by
  have hcons : orderEventsOf (.order event :: rest) = event :: orderEventsOf rest := rfl
  have htrades : tradeEventsOf (.order event :: rest) = tradeEventsOf rest := rfl
  have hreports := hcons ▸ h.reports
  have hstep := Progress.step_of_new hlast
  have hcounted := Progress.counted_of_new hlast
  obtain ⟨st, hst, hquantity, hfilled, hstatus⟩ := h.record_reported hlast
  refine ⟨⟨st, hst, hquantity, ?_, ?_⟩, ?_, ?_, ?_, fun _ _ => h.final_tail, hreports.tail,
    ?_, ?_, ?_, htrades ▸ h.own, htrades ▸ h.tradeIds, htrades ▸ h.fresh⟩
  · -- the report overwrites the fill, and the count starts again from it
    have := event.filledQuantity.toNat_lt
    rw [hcounted, hfilled]
    omega
  · intro key hkey hfinal
    rw [hstep, Option.some.injEq] at hkey
    rw [hstatus]
    exact (congrArg OrderEventKey.status hkey).trans hfinal
  · rw [hstep]
  · intro key hkey
    rw [hstep, Option.some.injEq] at hkey
    rw [hstep, ← hkey]
    rfl
  · intro hnil
    rw [hstep]
    exact ⟨event.key, rfl, h.filled_of_last hnil⟩
  · intro key hkey
    rw [hstep, Option.some.injEq] at hkey
    rw [h.seenFor_reported, ← hkey]
    exact Finset.mem_insert_self _ _
  · intro e he hseen
    rw [hstep]
    exact h.known_reported he hseen
  · intro key hkey hmem
    rw [hstep, Option.some.injEq] at hkey
    subst hkey
    exact h.head_of_repeated hmem

theorem Tracking.order {event : OrderEvent}
    (h : Tracking orderId quantity s p (.order event :: rest)) :
    Tracking orderId quantity (s.applyOrderEvent event).1 (p.step (.order event)) rest := by
  by_cases hlast : p.last = some event.key
  · exact h.repeated hlast
  · exact h.reportedNew hlast

theorem traded_status_of_filled {st : OrderState} {event : TradeEvent}
    (h : st.order.status = .filled) : (st.traded event).order.status = .filled := by
  simp only [OrderState.traded, h]
  split <;> simp

theorem Tracking.trade {event : TradeEvent}
    (h : Tracking orderId quantity s p (.trade event :: rest)) :
    Tracking orderId quantity (s.applyTradeEvent event).1 (p.step (.trade event)) rest := by
  have hcons : tradeEventsOf (.trade event :: rest) = event :: tradeEventsOf rest := rfl
  have horders : orderEventsOf (.trade event :: rest) = orderEventsOf rest := rfl
  have hid : event.orderId = orderId := h.own event (hcons ▸ List.mem_cons_self)
  have hnew := h.fresh event (hcons ▸ List.mem_cons_self)
  have hnodup := List.nodup_cons.mp (hcons ▸ h.tradeIds)
  have hordered := h.ordered
  obtain ⟨st, hst, hquantity, hfilled, hstatus⟩ := h.record
  have hcounted : (p.step (.trade event)).counted = p.counted + event.quantity.toNat := by
    simp only [Progress.step, Progress.counted]
    omega
  have hseen : (s.applyTradeEvent event).1.orderManager.seenFor orderId =
      s.orderManager.seenFor orderId := by
    rw [RunnerState.applyTradeEvent_of_new s hnew, seenFor_applyTradeEvent]
  refine ⟨⟨st.traded event, ?_, hquantity, ?_, ?_⟩, ?_, h.reported, horders ▸ h.complete,
    horders ▸ h.final, horders ▸ h.reports, ?_, ?_, horders ▸ h.next, ?_, hnodup.2, ?_⟩
  · rw [RunnerState.applyTradeEvent_of_new s hnew]
    simp only [RunnerState.record] at hst ⊢
    rw [← hid, lookup_applyTradeEvent_self, hid, hst, Option.map_some]
  · -- the trade adds on top; a clamp before it stays a clamp after it
    simp only [OrderState.traded, toNat_saturatingAdd, hcounted, hfilled]
    omega
  · exact fun key hkey hfilled => traded_status_of_filled (hstatus key hkey hfilled)
  · simp only [Progress.step]
    omega
  · rw [hseen]
    exact h.seen
  · rw [hseen]
    exact horders ▸ h.known
  · exact fun e he => h.own e (hcons ▸ List.mem_cons_of_mem event he)
  · intro e he hseen
    rcases Finset.mem_insert.mp (RunnerState.seen_applyTradeEvent_subset s event hseen) with hsame | hseen
    · exact hnodup.1 (List.mem_map.mpr ⟨e, he, hsame⟩)
    · exact h.fresh e (hcons ▸ List.mem_cons_of_mem event he) hseen

theorem Tracking.step {delivery : TradeGatewayEvent}
    (h : Tracking orderId quantity s p (delivery :: rest)) :
    Tracking orderId quantity (step s delivery) (p.step delivery) rest := by
  cases delivery with
  | order event => exact h.order
  | trade event => exact h.trade

theorem Tracking.run {delivered : List TradeGatewayEvent}
    (h : Tracking orderId quantity s p (delivered ++ rest)) :
    Tracking orderId quantity (Transition.run FillAccounting.step s delivered)
      (delivered.foldl Progress.step p) rest := by
  induction delivered generalizing s p with
  | nil => exact h
  | cons delivery delivered ih => exact ih h.step

theorem Tracking.filledWithin_iff (h : Tracking orderId quantity s p rest) :
    FilledWithin orderId s ↔ min p.counted (2 ^ 64 - 1) ≤ quantity.toNat := by
  obtain ⟨st, hst, hquantity, hfilled, _⟩ := h.record
  constructor
  · rintro ⟨st', hst', hle⟩
    have heq : st' = st := Option.some.inj (hst'.symm.trans hst)
    rw [heq, UInt64.le_iff_toNat_le, hquantity, hfilled] at hle
    exact hle
  · intro hle
    refine ⟨st, hst, ?_⟩
    rw [UInt64.le_iff_toNat_le, hquantity, hfilled]
    exact hle

theorem Tracking.counted_le_iff (h : Tracking orderId quantity s p rest) :
    min p.counted (2 ^ 64 - 1) ≤ quantity.toNat ↔
      quantity.toNat = 2 ^ 64 - 1 ∨ p.reported + p.traded ≤ quantity.toNat + p.tradedThen := by
  have hordered := h.ordered
  have hlt := quantity.toNat_lt
  simp only [Progress.counted]
  omega

/-- With everything delivered, a count that never ran over has arrived at the quantity. -/
theorem Tracking.fullyFilled (h : Tracking orderId quantity s p [])
    (hle : min p.counted (2 ^ 64 - 1) ≤ quantity.toNat) : FullyFilled orderId quantity s := by
  obtain ⟨st, hst, hquantity, hfilled, hstatus⟩ := h.record
  obtain ⟨key, hkey, hfinal, hwhole⟩ := h.complete rfl
  have hreported := h.reported key hkey
  have hordered := h.ordered
  have hlt := quantity.toNat_lt
  refine ⟨st, hst, ?_, hstatus key hkey hfinal⟩
  apply UInt64.toNat_inj.mp
  simp only [Progress.counted] at hle hfilled
  omega

end Deliver

theorem Published.tracking {orderId quantity : UInt64} {fills : List UInt64}
    {orderQueue : List OrderEvent} {tradeQueue : List TradeEvent} {s : RunnerState}
    {deliveries : List TradeGatewayEvent}
    (hpub : Published orderId quantity fills orderQueue tradeQueue)
    (hs : Awaiting s orderId quantity tradeQueue)
    (horders : orderEventsOf deliveries = orderQueue)
    (htrades : tradeEventsOf deliveries = tradeQueue) :
    Tracking orderId quantity s .start deliveries := by
  obtain ⟨st, hst, hquantity, hzero⟩ := hs.tracked
  obtain ⟨before, final, hlast, hstatus, hfilled⟩ := hpub.last
  have hne : orderEventsOf deliveries ≠ [] := by
    rw [horders, hlast]
    simp
  refine ⟨⟨st, hst, hquantity, ?_, ?_⟩, Nat.le_refl _, ?_, fun hnil => absurd hnil hne, ?_,
    horders ▸ hpub.reports, ?_, ?_, ?_, htrades ▸ hpub.trade_own, htrades ▸ hpub.tradeIds,
    htrades ▸ hs.fresh⟩
  · rw [hzero]
    rfl
  · intro key hkey
    cases hkey
  · intro key hkey
    cases hkey
  · intro before' final' heq
    rw [horders, hlast] at heq
    obtain ⟨_, hsame⟩ := List.append_inj' heq rfl
    rw [← List.singleton_inj.mp hsame]
    exact ⟨hstatus, hfilled⟩
  · intro key hkey
    cases hkey
  · intro event _ hseen
    rw [hs.unreported] at hseen
    exact absurd hseen (Finset.notMem_empty _)
  · intro key hkey
    cases hkey

theorem published_buyFive :
    Published 1 5 [5] (orderEventsOf buyFiveAnswer) (tradeEventsOf buyFiveAnswer) where
  filled := by decide
  split := by decide
  orders := by
    refine Or.inr ⟨_, _, rfl, ?_, ?_⟩
    · exact ⟨rfl, rfl, rfl, rfl⟩
    · exact ⟨rfl, rfl, rfl, rfl, trivial⟩
  trades := .cons ⟨rfl, rfl⟩ .nil
  tradeIds := by decide

def sentBuyFive : RunnerState := RunnerState.default.onActionSent buyFive 1

theorem awaiting_buyFive : Awaiting sentBuyFive 1 5 (tradeEventsOf buyFiveAnswer) where
  tracked := ⟨_, rfl, rfl, rfl⟩
  unreported := rfl
  fresh := by decide

/-- The fill accounting of an order survives exactly the interleavings that
never have a part of the fill counted by both queues at once. -/
theorem fill_accounting_iff {orderId quantity : UInt64} {fills : List UInt64}
    {orderQueue : List OrderEvent} {tradeQueue : List TradeEvent} {s : RunnerState}
    {deliveries : List TradeGatewayEvent}
    (hpub : Published orderId quantity fills orderQueue tradeQueue)
    (hs : Awaiting s orderId quantity tradeQueue)
    (horders : orderEventsOf deliveries = orderQueue)
    (htrades : tradeEventsOf deliveries = tradeQueue) :
    (Transition.Always step (FilledWithin orderId) s deliveries ∧
      FullyFilled orderId quantity (Transition.run step s deliveries)) ↔
    NothingCountedTwice quantity deliveries := by
  have hstart := hpub.tracking hs horders htrades
  have hprefix : ∀ delivered, delivered <+: deliveries → ∃ rest,
      Tracking orderId quantity (Transition.run step s delivered) (progress delivered) rest := by
    rintro delivered ⟨rest, rfl⟩
    exact ⟨rest, hstart.run⟩
  constructor
  · rintro ⟨hwithin, _⟩
    by_cases hmax : quantity.toNat = 2 ^ 64 - 1
    · exact Or.inl hmax
    · refine Or.inr fun delivered hdel => ?_
      obtain ⟨rest, htrack⟩ := hprefix delivered hdel
      have hle := htrack.filledWithin_iff.mp (hwithin delivered hdel)
      exact (htrack.counted_le_iff.mp hle).resolve_left hmax
  · intro h
    have hle : ∀ delivered, delivered <+: deliveries →
        min (progress delivered).counted (2 ^ 64 - 1) ≤ quantity.toNat := by
      intro delivered hdel
      obtain ⟨rest, htrack⟩ := hprefix delivered hdel
      exact htrack.counted_le_iff.mpr (h.imp_right fun h => h delivered hdel)
    constructor
    · intro delivered hdel
      obtain ⟨rest, htrack⟩ := hprefix delivered hdel
      exact htrack.filledWithin_iff.mpr (hle delivered hdel)
    · have hend : Tracking orderId quantity (Transition.run step s deliveries)
          (progress deliveries) [] := Tracking.run (by rwa [List.append_nil])
      exact hend.fullyFilled (hle deliveries (List.prefix_refl _))

theorem fill_accounting_emission_order :
    Transition.Always step (FilledWithin 1) sentBuyFive buyFiveAnswer ∧
      FullyFilled 1 5 (Transition.run step sentBuyFive buyFiveAnswer) := by
  refine (fill_accounting_iff published_buyFive awaiting_buyFive rfl rfl).mpr (Or.inr ?_)
  intro delivered hdel
  rw [← List.mem_inits] at hdel
  revert delivered
  decide

/-- The order queue read to its end before the trade queue: the fill is counted twice. -/
def ordersFirst : List TradeGatewayEvent :=
  (orderEventsOf buyFiveAnswer).map .order ++ (tradeEventsOf buyFiveAnswer).map .trade

theorem orders_first_overfills :
    ¬ ∀ (orderId quantity : UInt64) (fills : List UInt64) (orderQueue : List OrderEvent)
      (tradeQueue : List TradeEvent) (s : RunnerState) (deliveries : List TradeGatewayEvent),
      Published orderId quantity fills orderQueue tradeQueue →
      Awaiting s orderId quantity tradeQueue →
      orderEventsOf deliveries = orderQueue → tradeEventsOf deliveries = tradeQueue →
      Transition.Always step (FilledWithin orderId) s deliveries ∧
        FullyFilled orderId quantity (Transition.run step s deliveries) := by
  intro h
  obtain ⟨hwithin, _⟩ := h 1 5 [5] _ _ sentBuyFive ordersFirst published_buyFive
    awaiting_buyFive rfl rfl
  obtain ⟨st, hst, hle⟩ := hwithin.last
  have hrecord : record (Transition.run step sentBuyFive ordersFirst) 1 =
      some ⟨⟨default, 1, 0, .buy, .limit, 10, 5, 10, .filled, 3⟩⟩ := by decide
  rw [hrecord, Option.some.injEq] at hst
  subst hst
  exact absurd hle (by decide)

end Nnxt.FillAccounting
