import Nnxt.OrderPhases

/-!
# Steps between the phases

Every delivery leads from a phase to a phase, whatever the strategy does in its
callback, and in all but two of them the target is met.
-/

namespace Nnxt.OverTrading

set_option autoImplicit false

open HashMap FixedWidth OrderManager

section Invariant
variable {instrumentId : InstrumentId} {target : Int64} {order : NewOrder} {answer : Answer order}
  {phase : Phase} {s : System}

theorem InPhase.effectivePosition (h : InPhase instrumentId target answer phase s) :
    s.runner.state.effectivePosition instrumentId = phase.effective target := by
  obtain ⟨st, horders, htracks⟩ := h.record
  have hpending : s.runner.state.pendingExposure instrumentId =
      addExposure instrumentId (0, 0) st := by
    rw [RunnerState.pendingExposure, pendingExposure, horders]
    rfl
  have hsum : s.runner.state.effectivePosition instrumentId =
      phase.held target + if isTerminal phase.status then 0 else target := by
    rw [RunnerState.effectivePosition_eq, hpending, h.held]
    cases hterm : isTerminal phase.status with
    | true =>
      have hzero : (0 : UInt64).toInt64 = 0 := rfl
      rw [htracks.exposure_of_terminal hterm]
      simp only [hzero, Int64.add_zero, Int64.sub_zero, if_true]
    | false =>
      rw [htracks.exposure_of_open hterm h.covers h.nonzero]
      exact signed_exposure _ _
  rw [hsum]
  cases phase <;> simp [Phase.held, Phase.status, Phase.effective, isTerminal]

theorem InPhase.met_iff (h : InPhase instrumentId target answer phase s) :
    s.runner.state.effectivePosition instrumentId = target ↔
      phase ≠ .filled ∧ phase ≠ .tradedActive := by
  have hne := h.nonzero
  rw [h.effectivePosition]
  cases phase with
  | filled => simp [Phase.effective, Ne.symm hne]
  | tradedActive =>
    -- the position and the reopened order both count
    have hdouble : target + target ≠ target := by
      intro heq
      grind
    simp [Phase.effective, hdouble]
  | _ => simp [Phase.effective]

theorem InPhase.finished_iff (h : InPhase instrumentId target answer phase s) :
    s.runner.state.Finished order.orderId ↔ isTerminal phase.status = true := by
  obtain ⟨st, horders, htracks⟩ := h.record
  have hlookup : s.runner.state.record order.orderId = some st := by
    rw [RunnerState.record, horders, AList.lookup_insert]
  rw [← htracks.status]
  constructor
  · rintro ⟨st', hst', hterm⟩
    rw [hlookup, Option.some.injEq] at hst'
    exact hst' ▸ hterm
  · intro hterm
    exact ⟨st, hlookup, hterm⟩

theorem InPhase.settled_iff (h : InPhase instrumentId target answer phase s) :
    Settled s ↔ phase ≠ .filled ∧ phase ≠ .tradedActive := by
  have hactive : answer.active.status ≠ .filled := by
    have hstatus : answer.active.status = .active := congrArg OrderEventKey.status answer.active_key
    rw [hstatus]
    decide
  have hfilled : answer.filled.status = .filled := congrArg OrderEventKey.status answer.filled_key
  have hids : answer.filled.orderId = answer.trade.orderId :=
    answer.filled_id.trans answer.trade_id.symm
  have hfinished : s.runner.state.Finished answer.filled.orderId ↔ isTerminal phase.status = true := by
    rw [answer.filled_id]
    exact h.finished_iff
  rw [Settled, h.orderQueue, h.tradeQueue]
  cases phase with
  | traded | activeTraded =>
    -- the `Filled` event is still to come, for an order the trade has finished
    simp [Phase.orderQueue, Phase.tradeQueue, hactive, hfilled, hfinished, Phase.status, isTerminal]
  | tradedActive =>
    -- the `Active` event in between has opened the order again
    simp [Phase.orderQueue, Phase.tradeQueue, hfilled, hfinished, Phase.status, isTerminal]
  | _ => simp [Phase.orderQueue, Phase.tradeQueue, hactive, hfilled, hids]

theorem InPhase.withHandler (h : InPhase instrumentId target answer phase s)
    {after : StrategyRunner × ActorContext} (hsent : after.1.sent = s.runner.sent)
    (horders : after.1.state.orderManager = s.runner.state.orderManager)
    (hledger : after.1.state.ledger = s.runner.state.ledger) :
    InPhase instrumentId target answer phase (s.withHandler after) where
  nonzero := h.nonzero
  covers := h.covers
  sent := hsent.trans h.sent
  handled := h.handled
  gateway := h.gateway
  orderQueue := h.orderQueue
  tradeQueue := h.tradeQueue
  record := by
    simp only [System.withHandler, horders]
    exact h.record
  applied := by
    simp only [System.withHandler, horders]
    exact h.applied
  held := by
    simp only [System.withHandler, hledger]
    exact h.held
  untraded := by
    simp only [System.withHandler, hledger]
    exact h.untraded
  unseen := by
    simp only [System.withHandler, hledger]
    exact h.unseen

theorem InPhase.orderEvent (h : InPhase instrumentId target answer phase s) {phase' : Phase}
    {event : OrderEvent} {rest : List OrderEvent} (hqueue : phase.orderQueue answer = event :: rest)
    (hid : event.orderId = order.orderId) (hnew : event.key ∉ phase.applied order)
    (hrest : phase'.orderQueue answer = rest)
    (htrades : phase'.tradeQueue answer = phase.tradeQueue answer)
    (happlied : phase'.applied order = insert event.key (phase.applied order))
    (hheld : phase'.held target = phase.held target) (hhandled : phase'.handled = phase.handled)
    (hwaiting : phase' ≠ .waiting)
    (htracks : ∀ st, Tracks order phase.status st → Tracks order phase'.status (st.reported event)) :
    ∃ t, s.received .orderEvent = some t ∧ InPhase instrumentId target answer phase' t := by
  obtain ⟨st, horders, hst⟩ := h.record
  have hunseen : event.key ∉ s.runner.state.orderManager.seenFor event.orderId := by
    rw [hid, h.applied]
    exact hnew
  have haccepted : (s.runner.state.applyOrderEvent event).2 = true :=
    (applyOrderEvent_accepted_iff _ event).mpr hunseen
  refine ⟨{ s with orderQueue := rest }.withState (s.runner.state.applyOrderEvent event).1, ?_, ?_⟩
  · simp only [System.received, h.orderQueue, hqueue, if_pos haccepted]
  · have happly := applyOrderEvent_of_new s.runner.state.orderManager hunseen
    refine ⟨h.nonzero, h.covers, h.sent, h.handled.trans hhandled.symm, h.gateway, hrest.symm,
      h.tradeQueue.trans htrades.symm, ⟨st.reported event, ?_, htracks st hst⟩, ?_, ?_, ?_,
      fun hw => absurd hw hwaiting⟩
    · have hlookup : s.runner.state.orderManager.orders.lookup event.orderId = some st := by
        rw [horders, hid, AList.lookup_insert]
      simp only [System.withState, RunnerState.applyOrderEvent, happly, hlookup, Option.getD_some]
      rw [horders, hid, AList.insert_insert]
    · have hseen := seenFor_applyOrderEvent s.runner.state.orderManager event order.orderId
      rw [if_pos hid.symm, h.applied] at hseen
      exact hseen.trans happlied.symm
    · exact h.held.trans hheld.symm
    · rw [htrades]
      exact h.untraded

theorem InPhase.tradeEvent (h : InPhase instrumentId target answer phase s) {phase' : Phase}
    (hqueue : phase.tradeQueue answer = [answer.trade]) (hrest : phase'.tradeQueue answer = [])
    (horders : phase'.orderQueue answer = phase.orderQueue answer)
    (happlied : phase'.applied order = phase.applied order)
    (hheld : phase.held target = 0) (hheld' : phase'.held target = target)
    (hhandled : phase'.handled = phase.handled) (hwaiting : phase' ≠ .waiting)
    (hstatus : phase'.status = .filled) :
    ∃ t, s.received .tradeEvent = some t ∧ InPhase instrumentId target answer phase' t := by
  obtain ⟨st, hmap, hst⟩ := h.record
  have hunseen : answer.trade.tradeId ∉ s.runner.state.ledger.fillLedger.seen :=
    h.untraded _ (hqueue ▸ List.mem_singleton.mpr rfl)
  have haccepted : (s.runner.state.applyTradeEvent answer.trade).2 = true :=
    (RunnerState.applyTradeEvent_accepted_iff _ _).mpr hunseen
  refine ⟨{ s with tradeQueue := [] }.withState
    (s.runner.state.applyTradeEvent answer.trade).1, ?_, ?_⟩
  · simp only [System.received, h.tradeQueue, hqueue, if_pos haccepted]
  · have happly := RunnerState.applyTradeEvent_of_new s.runner.state hunseen
    have hinstrument : answer.trade.instrumentId = instrumentId :=
      answer.trade_instrument.trans h.covers.instrumentId
    refine ⟨h.nonzero, h.covers, h.sent, h.handled.trans hhandled.symm, h.gateway,
      h.orderQueue.trans horders.symm, hrest.symm, ⟨st.traded answer.trade, ?_, ?_⟩, ?_, ?_, ?_,
      fun hw => absurd hw hwaiting⟩
    · have hlookup : s.runner.state.orderManager.orders.lookup answer.trade.orderId = some st := by
        rw [hmap, answer.trade_id, AList.lookup_insert]
      simp only [System.withState, happly, applyTradeEvent, modify_of_some hlookup]
      rw [hmap, answer.trade_id, AList.insert_insert]
    · rw [hstatus]
      exact hst.traded answer
    · simp only [System.withState, happly, seenFor_applyTradeEvent]
      exact h.applied.trans happlied.symm
    · simp only [System.withState, happly]
      have hquantity := Ledger.quantity_applyTradeEvent s.runner.state.ledger hunseen
      rw [hinstrument, h.held, hheld, answer.delta h.covers] at hquantity
      rw [hquantity, hheld', saturatingAddI64, Int64.toInt_zero, Int.zero_add,
        Int64.ofIntClamp_toInt]
    · rw [hrest]
      intro trade hmem
      cases hmem

theorem InPhase.received_orderEvent (h : InPhase instrumentId target answer phase s) :
    (s.received .orderEvent = none ∧ s.orderQueue = []) ∨
      ∃ t, s.received .orderEvent = some t ∧
        InPhase instrumentId target answer phase.afterOrder t := by
  have hempty : phase.orderQueue answer = [] → s.received .orderEvent = none ∧ s.orderQueue = [] := by
    intro hnil
    have hqueue := h.orderQueue.trans hnil
    exact ⟨by simp only [System.received, hqueue], hqueue⟩
  have hdiffer : answer.filled.key ≠ answer.active.key := by
    rw [answer.filled_key, answer.active_key]
    intro heq
    have hstatus := congrArg OrderEventKey.status heq
    cases hstatus
  cases phase with
  | waiting | filled | done => exact Or.inl (hempty rfl)
  | answered | traded =>
    refine Or.inr (h.orderEvent rfl answer.active_id (Finset.notMem_empty _) rfl rfl ?_ rfl rfl
      (fun hphase => by cases hphase) fun st hst => hst.active answer)
    rw [answer.active_key]
    rfl
  | active | activeTraded | tradedActive =>
    refine Or.inr (h.orderEvent rfl answer.filled_id ?_ rfl rfl ?_ rfl rfl
      (fun hphase => by cases hphase) fun st hst => hst.filled answer)
    · simp only [Phase.applied, ← answer.active_key, Finset.mem_singleton]
      exact hdiffer
    · rw [answer.filled_key]
      rfl

theorem InPhase.received_tradeEvent (h : InPhase instrumentId target answer phase s) :
    (s.received .tradeEvent = none ∧ s.tradeQueue = []) ∨
      ∃ t, s.received .tradeEvent = some t ∧
        InPhase instrumentId target answer phase.afterTrade t := by
  have hempty : phase.tradeQueue answer = [] → s.received .tradeEvent = none ∧ s.tradeQueue = [] := by
    intro hnil
    have hqueue := h.tradeQueue.trans hnil
    exact ⟨by simp only [System.received, hqueue], hqueue⟩
  cases phase with
  | waiting | traded | activeTraded | tradedActive | done => exact Or.inl (hempty rfl)
  | answered | active | filled =>
    exact Or.inr (h.tradeEvent rfl rfl rfl rfl rfl rfl rfl (fun hphase => by cases hphase) rfl)

def sentAnswer (order : NewOrder) (tradeId now₁ now₂ now₃ : UInt64) : Answer order where
  active := ⟨order.instrumentId, order.orderId, .active, 0, order.quantity, order.limitPrice, now₁⟩
  filled := ⟨order.instrumentId, order.orderId, .filled, order.quantity, 0, order.limitPrice, now₃⟩
  trade := ⟨order.instrumentId, tradeId, order.orderId, order.side, order.limitPrice,
    order.quantity, now₂⟩
  active_id := rfl
  active_key := rfl
  filled_id := rfl
  filled_key := rfl
  trade_id := rfl
  trade_instrument := rfl
  trade_side := rfl
  trade_quantity := rfl

theorem answer_waiting (h : InPhase instrumentId target answer .waiting s)
    (now₁ now₂ now₃ : UInt64) :
    InPhase instrumentId target (sentAnswer order s.gateway.nextTradeId now₁ now₂ now₃) .answered
      (s.answer now₁ now₂ now₃) := by
  have hnext : s.runner.sent[s.handled]? = some (.ofNewOrder order) := by
    rw [h.sent, h.handled]
    rfl
  have hevents : (s.gateway.sendOrder (.ofNewOrder order) now₁ now₂ now₃).pollEvents.2 =
      [.order (sentAnswer order s.gateway.nextTradeId now₁ now₂ now₃).active,
       .trade (sentAnswer order s.gateway.nextTradeId now₁ now₂ now₃).trade,
       .order (sentAnswer order s.gateway.nextTradeId now₁ now₂ now₃).filled] := by
    simp only [TradeSimulator.sendOrder, Action.ofNewOrder, TradeSimulator.pollEvents,
      TradeSimulator.pushOrderEvent, TradeSimulator.pushTradeEvent, h.gateway]
    rfl
  simp only [System.answer, hnext, hevents]
  refine ⟨h.nonzero, h.covers, h.sent, ?_, rfl, ?_, ?_, h.record, h.applied, h.held, ?_,
    fun hphase => by cases hphase⟩
  · rw [h.handled]
    rfl
  · rw [h.orderQueue]
    rfl
  · rw [h.tradeQueue]
    rfl
  · intro trade _
    rw [h.unseen rfl]
    exact Finset.notMem_empty _

theorem answer_of_handled {now₁ now₂ now₃ : UInt64} (h : s.runner.sent.length ≤ s.handled) :
    s.answer now₁ now₂ now₃ = s := by
  unfold System.answer
  rw [List.getElem?_eq_none h]

theorem Inv.answered (h : Inv instrumentId target s) (now₁ now₂ now₃ : UInt64) :
    Inv instrumentId target (s.answer now₁ now₂ now₃) := by
  rcases h with h | ⟨order, answer, phase, h⟩
  · rw [answer_of_handled (by rw [h.sent]; exact Nat.zero_le _)]
    exact Or.inl h
  · by_cases hwaiting : phase = .waiting
    · subst hwaiting
      exact Or.inr ⟨order, _, .answered, answer_waiting h now₁ now₂ now₃⟩
    · have hhandled : phase.handled = 1 := by
        cases phase with
        | waiting => exact absurd rfl hwaiting
        | _ => rfl
      rw [answer_of_handled (by rw [h.sent, h.handled, hhandled]; exact Nat.le_refl _)]
      exact Or.inr ⟨order, answer, phase, h⟩

theorem Inv.received_orderEvent (h : Inv instrumentId target s) :
    (s.received .orderEvent = none ∧ s.orderQueue = []) ∨
      ∃ t, s.received .orderEvent = some t ∧ Inv instrumentId target t := by
  rcases h with h | ⟨order, answer, phase, h⟩
  · refine Or.inl ⟨?_, h.orderQueue⟩
    simp only [System.received, h.orderQueue]
  · rcases h.received_orderEvent with hnone | ⟨t, hsome, ht⟩
    · exact Or.inl hnone
    · exact Or.inr ⟨t, hsome, Or.inr ⟨order, answer, _, ht⟩⟩

theorem Inv.received_tradeEvent (h : Inv instrumentId target s) :
    (s.received .tradeEvent = none ∧ s.tradeQueue = []) ∨
      ∃ t, s.received .tradeEvent = some t ∧ Inv instrumentId target t := by
  rcases h with h | ⟨order, answer, phase, h⟩
  · refine Or.inl ⟨?_, h.tradeQueue⟩
    simp only [System.received, h.tradeQueue]
  · rcases h.received_tradeEvent with hnone | ⟨t, hsome, ht⟩
    · exact Or.inl hnone
    · exact Or.inr ⟨t, hsome, Or.inr ⟨order, answer, _, ht⟩⟩

theorem Inv.received_orderBook (h : Inv instrumentId target s) (book : OrderBook) :
    Inv instrumentId target (s.withState (s.runner.state.updateMarket book)) := by
  rcases h with h | ⟨order, answer, phase, h⟩
  · refine Or.inl ⟨?_, ?_, h.sent, h.handled, h.gateway, h.orderQueue, h.tradeQueue⟩
    · exact (RunnerState.updateMarket_orderManager _ book).trans h.orderManager
    · exact (RunnerState.updateMarket_ledger _ book).trans h.ledger
  · have hkept : InPhase instrumentId target answer phase (s.withHandler
        ({ s.runner with state := s.runner.state.updateMarket book }, s.ctx)) :=
      h.withHandler rfl (RunnerState.updateMarket_orderManager _ book)
        (RunnerState.updateMarket_ledger _ book)
    exact Or.inr ⟨order, answer, phase, hkept⟩

/-- What a callback finds is again a state of the invariant. -/
theorem Inv.received (h : Inv instrumentId target s) {trigger : Trigger} {t : System}
    (ht : s.received trigger = some t) : Inv instrumentId target t := by
  cases trigger with
  | orderBook book source =>
    simp only [System.received] at ht
    split at ht
    · cases ht
    · cases ht
      exact h.received_orderBook book
  | timer =>
    cases ht
    exact h
  | orderEvent =>
    rcases h.received_orderEvent with ⟨hnone, _⟩ | ⟨t', hsome, h'⟩
    · rw [hnone] at ht
      cases ht
    · rw [hsome, Option.some.injEq] at ht
      exact ht ▸ h'
  | tradeEvent =>
    rcases h.received_tradeEvent with ⟨hnone, _⟩ | ⟨t', hsome, h'⟩
    · rw [hnone] at ht
      cases ht
    · rw [hsome, Option.some.injEq] at ht
      exact ht ▸ h'

/-- No event is lost: a delivery without a callback found its queue empty. -/
theorem Inv.handle_of_not_received (h : Inv instrumentId target s) {trigger : Trigger}
    (hnone : s.received trigger = none) (nowNs : UInt64) (calls : List ContextCall) :
    s.handle trigger nowNs calls = s := by
  cases trigger with
  | orderBook book source =>
    simp only [System.received] at hnone
    split at hnone
    · rename_i hsource
      simp only [System.handle, StrategyRunner.onOrderBook, if_pos hsource]
      rfl
    · cases hnone
  | timer => cases hnone
  | orderEvent =>
    rcases h.received_orderEvent with ⟨_, hempty⟩ | ⟨t, hsome, _⟩
    · simp only [System.handle, hempty]
    · rw [hsome] at hnone
      cases hnone
  | tradeEvent =>
    rcases h.received_tradeEvent with ⟨_, hempty⟩ | ⟨t, hsome, _⟩
    · simp only [System.handle, hempty]
    · rw [hsome] at hnone
      cases hnone

end Invariant

end Nnxt.OverTrading
