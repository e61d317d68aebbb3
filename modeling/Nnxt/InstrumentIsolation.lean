import Nnxt.Exposure
import Nnxt.Foundation.Unwinding

/-!
# Instruments do not disturb each other

All instruments of a strategy share one order map, one record of reports and one
window of trade ids. As long as an order id belongs to one instrument and no trade
comes twice, what a runner knows of an instrument is what it would know if nothing
else were traded.
-/

namespace Nnxt.InstrumentIsolation

set_option autoImplicit false

open HashMap OrderManager FixedWidth Transition

inductive Input where
  | orderBook (book : OrderBook)
  | actionSent (action : Action) (nowNs : UInt64)
  | orderEvent (event : OrderEvent)
  | tradeEvent (event : TradeEvent)

def step (s : RunnerState) : Input → RunnerState
  | .orderBook book => s.updateMarket book
  | .actionSent action nowNs => s.onActionSent action nowNs
  | .orderEvent event => (s.applyOrderEvent event).1
  | .tradeEvent event => (s.applyTradeEvent event).1

def actionInstrument (action : Action) : InstrumentId :=
  match action.kind with
  | .newOrder => action.newOrder.instrumentId
  | .cancelOrder => action.cancelOrder.instrumentId

def Input.instrumentId : Input → InstrumentId
  | .orderBook book => book.instrumentId
  | .actionSent action _ => actionInstrument action
  | .orderEvent event => event.instrumentId
  | .tradeEvent event => event.instrumentId

def Input.orderId : Input → Option UInt64
  | .orderBook _ => none
  | .actionSent action _ => some action.orderId
  | .orderEvent event => some event.orderId
  | .tradeEvent event => some event.orderId

def trades (is : List Input) : List TradeEvent :=
  is.filterMap fun
    | .tradeEvent event => some event
    | _ => none

/-- Every order id is used for one instrument, the one it has in the table. -/
def Homed (home : UInt64 → InstrumentId) (is : List Input) : Prop :=
  ∀ i ∈ is, ∀ id ∈ i.orderId, home id = i.instrumentId

/-- No trade of the run comes twice, or has come before. -/
structure Distinct (s : RunnerState) (is : List Input) : Prop where
  nodup : ((trades is).map (·.tradeId)).Nodup
  unseen : ∀ event ∈ trades is, event.tradeId ∉ s.ledger.fillLedger.seen

/-- What a strategy can find out about an instrument. -/
structure SeesSame (i : InstrumentId) (s t : RunnerState) : Prop where
  marketView : t.marketView i = s.marketView i
  position : t.position i = s.position i
  orders : (t.orders i).Perm (s.orders i)
  pending : t.pendingExposure i = s.pendingExposure i
  effective : t.effectivePosition i = s.effectivePosition i

/-- The two states agree on everything that belongs to the instrument, and neither
keeps a record away from its home. -/
structure Agree (home : UInt64 → InstrumentId) (i : InstrumentId) (s t : RunnerState) : Prop where
  records : ∀ id, home id = i → t.record id = s.record id
  seen : ∀ id, home id = i → t.orderManager.seenFor id = s.orderManager.seenFor id
  left : ∀ id st, s.record id = some st → st.order.instrumentId = home id
  right : ∀ id st, t.record id = some st → st.order.instrumentId = home id
  position : t.ledger.positions.lookup i = s.ledger.positions.lookup i
  marketView : t.marketView i = s.marketView i

section Records
variable {home : UInt64 → InstrumentId} {i : InstrumentId} {s t : RunnerState}

/-- The records of an instrument are the same, in some order. -/
theorem Agree.values_perm (h : Agree home i s t) :
    ((values t.orderManager.orders).filter fun st => st.order.instrumentId = i).Perm
      ((values s.orderManager.orders).filter fun st => st.order.instrumentId = i) := by
  have hvalues : ∀ m : Map UInt64 OrderState,
      (values m).filter (fun st => st.order.instrumentId = i) =
        (m.entries.filter fun e => e.2.order.instrumentId = i).map Sigma.snd := by
    intro m
    rw [values, List.filter_map]
    rfl
  rw [hvalues, hvalues]
  refine List.Perm.map _ ((List.perm_ext_iff_of_nodup ?_ ?_).mpr ?_)
  · exact t.orderManager.orders.nodupKeys.nodup.filter _
  · exact s.orderManager.orders.nodupKeys.nodup.filter _
  · rintro ⟨id, st⟩
    have hboth : ∀ {s' : RunnerState}, (∀ id st, s'.record id = some st →
        st.order.instrumentId = home id) →
        (Sigma.mk id st ∈ s'.orderManager.orders.entries.filter
          (fun e => e.2.order.instrumentId = i) ↔ home id = i ∧ s'.record id = some st) := by
      intro s' hhome
      rw [List.mem_filter, mem_entries_iff, decide_eq_true_eq]
      constructor
      · rintro ⟨hst, hi⟩
        exact ⟨(hhome id st hst).symm.trans hi, hst⟩
      · rintro ⟨hi, hst⟩
        exact ⟨hst, (hhome id st hst).trans hi⟩
    rw [hboth h.left, hboth h.right]
    constructor
    · rintro ⟨hi, hst⟩
      exact ⟨hi, (h.records id hi).symm.trans hst⟩
    · rintro ⟨hi, hst⟩
      exact ⟨hi, (h.records id hi).trans hst⟩

theorem sum_map_filter {α : Type} {p : α → Bool} {w : α → Nat} (xs : List α)
    (hzero : ∀ x, p x = false → w x = 0) : ((xs.filter p).map w).sum = (xs.map w).sum := by
  induction xs with
  | nil => rfl
  | cons x xs ih =>
    cases hx : p x with
    | true => rw [List.filter_cons_of_pos hx, List.map_cons, List.map_cons, List.sum_cons, ih,
        List.sum_cons]
    | false => rw [List.filter_cons_of_neg (by simp [hx]), List.map_cons, List.sum_cons,
        hzero x hx, Nat.zero_add, ih]

theorem Agree.pending (h : Agree home i s t) (side : Side) :
    Exposure.pending side i t.orderManager = Exposure.pending side i s.orderManager := by
  have hzero : ∀ st : OrderState, decide (st.order.instrumentId = i) = false →
      (Exposure.weight side i st).toNat = 0 := by
    intro st hst
    rw [Exposure.weight_of_ne_instrument (of_decide_eq_false hst), UInt64.toNat_zero]
  rw [Exposure.pending, Exposure.pending, total, total, ← sum_map_filter _ hzero,
    ← sum_map_filter (values s.orderManager.orders) hzero]
  exact (h.values_perm.map _).sum_eq

theorem Agree.seesSame (h : Agree home i s t) : SeesSame i s t where
  marketView := h.marketView
  position := congrArg (Option.map _) h.position
  orders := h.values_perm.map _
  pending := by
    obtain ⟨hb, hs⟩ := Exposure.pendingExposure_toNat t.orderManager i
    obtain ⟨hb', hs'⟩ := Exposure.pendingExposure_toNat s.orderManager i
    apply Prod.ext <;> apply UInt64.toNat_inj.mp
    · rw [RunnerState.pendingExposure, RunnerState.pendingExposure, hb, hb', h.pending]
    · rw [RunnerState.pendingExposure, RunnerState.pendingExposure, hs, hs', h.pending]
  effective := by
    have hquantity : t.ledger.quantity i = s.ledger.quantity i := by
      rw [Ledger.quantity_eq, Ledger.quantity_eq, h.position]
    exact Exposure.effectivePosition_congr hquantity (h.pending .buy) (h.pending .sell)

end Records

section Steps
variable {home : UInt64 → InstrumentId} {i : InstrumentId} {s t : RunnerState} {input : Input}

theorem orderId_newOrder {action : Action} (h : action.kind = .newOrder) :
    action.orderId = action.newOrder.orderId := by
  simp only [Action.orderId, h]

theorem orderId_cancelOrder {action : Action} (h : action.kind = .cancelOrder) :
    action.orderId = action.cancelOrder.orderId := by
  simp only [Action.orderId, h]

/-- The records an input reaches are those of its order. -/
theorem record_step_ne {id : UInt64} (hne : ∀ id' ∈ input.orderId, id ≠ id') :
    (step s input).record id = s.record id ∧
      (step s input).orderManager.seenFor id = s.orderManager.seenFor id := by
  cases input with
  | orderBook book =>
    rw [step, RunnerState.record, RunnerState.updateMarket_orderManager]
    exact ⟨rfl, rfl⟩
  | actionSent action nowNs =>
    have hne' := hne action.orderId rfl
    refine ⟨?_, seenFor_onActionSent _ _ _ _⟩
    simp only [step, RunnerState.record, RunnerState.onActionSent, onActionSent]
    cases hk : action.kind with
    | newOrder =>
      rw [orderId_newOrder hk] at hne'
      exact AList.lookup_insert_ne hne'
    | cancelOrder =>
      rw [orderId_cancelOrder hk] at hne'
      exact lookup_modify_ne hne' _ _
  | orderEvent event =>
    have hne' := hne event.orderId rfl
    refine ⟨lookup_applyOrderEvent_ne _ event hne', ?_⟩
    exact (seenFor_applyOrderEvent s.orderManager event id).trans (if_neg hne')
  | tradeEvent event =>
    have hne' := hne event.orderId rfl
    by_cases hseen : event.tradeId ∈ s.ledger.fillLedger.seen
    · rw [step, RunnerState.applyTradeEvent_of_seen s hseen]
      exact ⟨rfl, rfl⟩
    · rw [step, RunnerState.applyTradeEvent_of_new s hseen]
      exact ⟨lookup_applyTradeEvent_ne _ event hne', rfl⟩

/-- What an input makes of a record depends on the record alone, if its trade is new. -/
theorem record_step_congr {id : UInt64} (hrecord : t.record id = s.record id)
    (hseen : t.orderManager.seenFor id = s.orderManager.seenFor id)
    (hnew : ∀ event, input = .tradeEvent event → event.tradeId ∉ s.ledger.fillLedger.seen ∧
      event.tradeId ∉ t.ledger.fillLedger.seen) :
    (step t input).record id = (step s input).record id ∧
      (step t input).orderManager.seenFor id = (step s input).orderManager.seenFor id := by
  by_cases hid : ∀ id' ∈ input.orderId, id ≠ id'
  · obtain ⟨hs, hs'⟩ := @record_step_ne s input id hid
    obtain ⟨ht, ht'⟩ := @record_step_ne t input id hid
    rw [hs, hs', ht, ht']
    exact ⟨hrecord, hseen⟩
  · push Not at hid
    obtain ⟨id', hid', rfl⟩ := hid
    rw [RunnerState.record, RunnerState.record] at hrecord
    cases input with
    | orderBook book => cases hid'
    | actionSent action nowNs =>
      obtain rfl : action.orderId = id := Option.some.inj hid'
      refine ⟨?_, ?_⟩
      · simp only [step, RunnerState.record, RunnerState.onActionSent, onActionSent]
        cases hk : action.kind with
        | newOrder =>
          rw [orderId_newOrder hk]
          simp only [AList.lookup_insert]
        | cancelOrder =>
          rw [orderId_cancelOrder hk] at hrecord ⊢
          simp only [lookup_modify_self, hrecord]
      · simp only [step, RunnerState.onActionSent, seenFor_onActionSent]
        exact hseen
    | orderEvent event =>
      obtain rfl : event.orderId = id := Option.some.inj hid'
      simp only [step, RunnerState.record, RunnerState.applyOrderEvent, seenFor_applyOrderEvent,
        hseen, and_true]
      by_cases hkey : event.key ∈ s.orderManager.seenFor event.orderId
      · rw [applyOrderEvent_of_seen _ hkey, applyOrderEvent_of_seen _ (hseen ▸ hkey)]
        exact hrecord
      · rw [applyOrderEvent_of_new _ hkey, applyOrderEvent_of_new _ (hseen ▸ hkey),
          AList.lookup_insert, AList.lookup_insert, hrecord]
    | tradeEvent event =>
      obtain rfl : event.orderId = id := Option.some.inj hid'
      obtain ⟨hnewLeft, hnewRight⟩ := hnew event rfl
      rw [step, step, RunnerState.applyTradeEvent_of_new s hnewLeft,
        RunnerState.applyTradeEvent_of_new t hnewRight]
      refine ⟨?_, hseen⟩
      rw [RunnerState.record, RunnerState.record, lookup_applyTradeEvent_self,
        lookup_applyTradeEvent_self, hrecord]

theorem instrument_reported (event : OrderEvent) (st : OrderState) :
    (st.reported event).order.instrumentId = st.order.instrumentId := rfl

theorem instrument_cancelSent (nowNs : UInt64) (st : OrderState) :
    (st.cancelSent nowNs).order.instrumentId = st.order.instrumentId := by
  unfold OrderState.cancelSent
  split <;> rfl

/-- Records stay at home. -/
theorem homed_step (hinput : ∀ id ∈ input.orderId, home id = input.instrumentId)
    (h : ∀ id st, s.record id = some st → st.order.instrumentId = home id) :
    ∀ id st, (step s input).record id = some st → st.order.instrumentId = home id := by
  intro id st hst
  by_cases hid : ∀ id' ∈ input.orderId, id ≠ id'
  · rw [(record_step_ne hid).1] at hst
    exact h id st hst
  · push Not at hid
    obtain ⟨id', hid', rfl⟩ := hid
    have hhome := hinput id hid'
    cases input with
    | orderBook book => cases hid'
    | actionSent action nowNs =>
      obtain rfl : action.orderId = id := Option.some.inj hid'
      simp only [step, RunnerState.record, RunnerState.onActionSent, onActionSent] at hst
      rw [hhome]
      cases hk : action.kind with
      | newOrder =>
        rw [orderId_newOrder hk] at hst
        simp only [hk, AList.lookup_insert, Option.some.injEq] at hst
        rw [← hst]
        simp only [OrderState.sent, Input.instrumentId, actionInstrument, hk]
      | cancelOrder =>
        rw [orderId_cancelOrder hk] at hst hhome
        simp only [hk, lookup_modify_self, Option.map_eq_some_iff] at hst
        obtain ⟨old, hold, rfl⟩ := hst
        rw [instrument_cancelSent, ← hhome]
        exact h _ old hold
    | orderEvent event =>
      obtain rfl : event.orderId = id := Option.some.inj hid'
      simp only [step, RunnerState.record, RunnerState.applyOrderEvent] at hst
      by_cases hkey : event.key ∈ s.orderManager.seenFor event.orderId
      · rw [applyOrderEvent_of_seen _ hkey] at hst
        exact h _ st hst
      · rw [applyOrderEvent_of_new _ hkey, AList.lookup_insert, Option.some.injEq] at hst
        rw [← hst, instrument_reported]
        cases hold : s.orderManager.orders.lookup event.orderId with
        | none =>
          rw [hhome]
          rfl
        | some old => exact h _ old hold
    | tradeEvent event =>
      obtain rfl : event.orderId = id := Option.some.inj hid'
      by_cases hseen : event.tradeId ∈ s.ledger.fillLedger.seen
      · rw [step, RunnerState.applyTradeEvent_of_seen s hseen] at hst
        exact h _ st hst
      · rw [step, RunnerState.applyTradeEvent_of_new s hseen, RunnerState.record,
          lookup_applyTradeEvent_self, Option.map_eq_some_iff] at hst
        obtain ⟨old, hold, rfl⟩ := hst
        exact h _ old hold

/-- The market view and the position of an instrument are reached by its inputs only. -/
theorem owned_step_ne (hi : input.instrumentId ≠ i) :
    (step s input).ledger.positions.lookup i = s.ledger.positions.lookup i ∧
      (step s input).marketView i = s.marketView i := by
  cases input with
  | orderBook book =>
    have hother : i ≠ book.instrumentId := Ne.symm hi
    rw [step, RunnerState.updateMarket_ledger, RunnerState.marketView_updateMarket, if_neg hother]
    exact ⟨rfl, rfl⟩
  | actionSent action nowNs => exact ⟨rfl, rfl⟩
  | orderEvent event => exact ⟨rfl, rfl⟩
  | tradeEvent event =>
    by_cases hseen : event.tradeId ∈ s.ledger.fillLedger.seen
    · rw [step, RunnerState.applyTradeEvent_of_seen s hseen]
      exact ⟨rfl, rfl⟩
    · rw [step, RunnerState.applyTradeEvent_of_new s hseen, Ledger.applyTradeEvent_of_new _ hseen]
      exact ⟨AList.lookup_insert_ne (Ne.symm hi), rfl⟩

theorem owned_step_congr (hposition : t.ledger.positions.lookup i = s.ledger.positions.lookup i)
    (hmarket : t.marketView i = s.marketView i)
    (hnew : ∀ event, input = .tradeEvent event → event.tradeId ∉ s.ledger.fillLedger.seen ∧
      event.tradeId ∉ t.ledger.fillLedger.seen) :
    (step t input).ledger.positions.lookup i = (step s input).ledger.positions.lookup i ∧
      (step t input).marketView i = (step s input).marketView i := by
  by_cases hi : input.instrumentId = i
  · subst hi
    cases input with
    | orderBook book =>
      simp only [step, RunnerState.updateMarket_ledger, RunnerState.marketView_updateMarket,
        Input.instrumentId] at hposition ⊢
      exact ⟨hposition, rfl⟩
    | actionSent action nowNs => exact ⟨hposition, hmarket⟩
    | orderEvent event => exact ⟨hposition, hmarket⟩
    | tradeEvent event =>
      obtain ⟨hnewLeft, hnewRight⟩ := hnew event rfl
      rw [step, step, RunnerState.applyTradeEvent_of_new s hnewLeft,
        RunnerState.applyTradeEvent_of_new t hnewRight, Ledger.applyTradeEvent_of_new _ hnewLeft,
        Ledger.applyTradeEvent_of_new _ hnewRight]
      refine ⟨?_, hmarket⟩
      simp only [Input.instrumentId] at hposition ⊢
      rw [AList.lookup_insert, AList.lookup_insert, hposition]
  · obtain ⟨hs, hs'⟩ := @owned_step_ne i s input hi
    obtain ⟨ht, ht'⟩ := @owned_step_ne i t input hi
    rw [hs, hs', ht, ht']
    exact ⟨hposition, hmarket⟩

theorem Agree.elsewhere (h : Agree home i s t)
    (hinput : ∀ id ∈ input.orderId, home id = input.instrumentId) (hi : input.instrumentId ≠ i) :
    Agree home i (step s input) t := by
  have hrecord : ∀ id, home id = i → (step s input).record id = s.record id ∧
      (step s input).orderManager.seenFor id = s.orderManager.seenFor id := by
    intro id hid
    refine record_step_ne fun id' hid' heq => hi ?_
    rw [← hinput id' hid', ← heq, hid]
  obtain ⟨hposition, hmarket⟩ := @owned_step_ne i s input hi
  exact ⟨fun id hid => (h.records id hid).trans (hrecord id hid).1.symm,
    fun id hid => (h.seen id hid).trans (hrecord id hid).2.symm, homed_step hinput h.left, h.right,
    h.position.trans hposition.symm, h.marketView.trans hmarket.symm⟩

theorem Agree.both (h : Agree home i s t)
    (hinput : ∀ id ∈ input.orderId, home id = input.instrumentId)
    (hnew : ∀ event, input = .tradeEvent event → event.tradeId ∉ s.ledger.fillLedger.seen ∧
      event.tradeId ∉ t.ledger.fillLedger.seen) :
    Agree home i (step s input) (step t input) := by
  have hrecord : ∀ id, home id = i → _ := fun id hid =>
    record_step_congr (h.records id hid) (h.seen id hid) hnew
  obtain ⟨hposition, hmarket⟩ := owned_step_congr h.position h.marketView hnew
  exact ⟨fun id hid => (hrecord id hid).1, fun id hid => (hrecord id hid).2,
    homed_step hinput h.left, homed_step hinput h.right, hposition, hmarket⟩

theorem trades_cons (input : Input) (is : List Input) :
    trades (input :: is) = trades [input] ++ trades is :=
  List.filterMap_append (l := [input])

theorem Distinct.tail {is : List Input} (h : Distinct s (input :: is)) : Distinct s is := by
  have hcons := trades_cons input is
  refine ⟨?_, fun event hevent => h.unseen event (by rw [hcons]; exact List.mem_append_right _ hevent)⟩
  have hnodup := h.nodup
  rw [hcons, List.map_append] at hnodup
  exact (List.nodup_append.mp hnodup).2.1

theorem Distinct.step {is : List Input} (h : Distinct s (input :: is)) :
    Distinct (InstrumentIsolation.step s input) is := by
  refine ⟨h.tail.nodup, fun event hevent hmem => ?_⟩
  have hold := h.tail.unseen event hevent
  cases input with
  | orderBook book =>
    rw [InstrumentIsolation.step, RunnerState.updateMarket_ledger] at hmem
    exact hold hmem
  | actionSent action nowNs => exact hold hmem
  | orderEvent event' => exact hold hmem
  | tradeEvent event' =>
    rcases Finset.mem_insert.mp (RunnerState.seen_applyTradeEvent_subset s event' hmem) with heq | hmem
    · have hnodup := h.nodup
      have hcons : trades (.tradeEvent event' :: is) = event' :: trades is := rfl
      rw [hcons, List.map_cons, List.nodup_cons] at hnodup
      exact hnodup.1 (heq ▸ List.mem_map_of_mem hevent)
    · exact hold hmem

theorem Distinct.head {is : List Input} (h : Distinct s (input :: is)) (event : TradeEvent)
    (hevent : input = .tradeEvent event) : event.tradeId ∉ s.ledger.fillLedger.seen := by
  subst hevent
  exact h.unseen event List.mem_cons_self

end Steps

/-- What a runner knows of an instrument after a run is what it knows after the inputs of
that instrument alone. -/
theorem sees_same_alone (home : UInt64 → InstrumentId) {s : RunnerState} {is : List Input}
    (hstart : ∀ id st, s.record id = some st → st.order.instrumentId = home id)
    (hhomed : Homed home is) (hdistinct : Distinct s is) (i : InstrumentId) :
    SeesSame i (run step s is) (run step s (is.filter fun input => input.instrumentId = i)) := by
  let R : List Input → RunnerState → RunnerState → Prop := fun is s t =>
    Homed home is ∧ Distinct s is ∧ Distinct t is ∧ Agree home i s t
  have hrun : R [] _ _ := @Unwinding.related_run_filter RunnerState Input step
    (fun input => input.instrumentId = i) _ R ?_ ?_ is s s
    ⟨hhomed, hdistinct, hdistinct, fun _ _ => rfl, fun _ _ => rfl, hstart, hstart, rfl, rfl⟩
  · exact hrun.2.2.2.seesSame
  · rintro input is s t hi ⟨hhomed, hs, ht, hagree⟩
    obtain ⟨hinput, hhomed⟩ := List.forall_mem_cons.mp hhomed
    exact ⟨hhomed, hs.step, ht.tail, hagree.elsewhere hinput hi⟩
  · rintro input is s t - ⟨hhomed, hs, ht, hagree⟩
    obtain ⟨hinput, hhomed⟩ := List.forall_mem_cons.mp hhomed
    refine ⟨hhomed, hs.step, ht.step, hagree.both hinput fun event hevent => ?_⟩
    exact ⟨hs.head event hevent, ht.head event hevent⟩

def otherInstrument : InstrumentId := ⟨Vector.replicate 64 1⟩

/-- Five are bought of one instrument while three are sold of another. -/
def interleaved : List Input :=
  [.actionSent (.ofNewOrder ⟨default, 1, 0, .buy, .limit, 7, 5, 1⟩) 1,
   .actionSent (.ofNewOrder ⟨otherInstrument, 2, 0, .sell, .limit, 7, 3, 2⟩) 2,
   .tradeEvent ⟨otherInstrument, 1, 2, .sell, 7, 3, 3⟩,
   .tradeEvent ⟨default, 2, 1, .buy, 7, 2, 4⟩,
   .orderEvent ⟨otherInstrument, 2, .filled, 3, 0, 7, 5⟩]

theorem sees_same_alone_interleaved :
    SeesSame default (run step RunnerState.default interleaved)
        (run step RunnerState.default
          (interleaved.filter fun input => input.instrumentId = default)) ∧
      (run step RunnerState.default interleaved).effectivePosition default = 5 ∧
      (run step RunnerState.default interleaved).effectivePosition otherInstrument = -3 := by
  have hempty : ∀ id, RunnerState.default.record id = none := fun _ => rfl
  refine ⟨sees_same_alone (fun id => if id = 1 then default else otherInstrument) (by simp [hempty])
    ?_ ⟨by decide, by decide⟩ default, by decide, by decide⟩
  simp [Homed, interleaved, Input.orderId, Action.orderId, Action.ofNewOrder, Input.instrumentId,
    actionInstrument]

end Nnxt.InstrumentIsolation
