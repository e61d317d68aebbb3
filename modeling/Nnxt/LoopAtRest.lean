import Nnxt.TradingLoop
import Nnxt.OverTrading

/-!
# The loop at rest

Whatever the strategy asks for and however the deliveries are interleaved, once
nothing is in flight any more the runner's view is that of the exchange: every order
is finished and the positions are what was ordered.
-/

namespace Nnxt.TradingLoop

set_option autoImplicit false

open HashMap FixedWidth OrderManager WrappingCounter Transition
open OverTrading (System Trigger Start)
open TerminalOrders (addExposure_of_terminal)

/-- What the exchange gets to see when the first actions are lost. -/
def visible (lost : List Action) (s : System) : List Action := s.runner.sent.drop lost.length

structure Inv (firstOrder firstTrade : UInt64) (lost : List Action) (s : System) : Prop where
  sent : lost <+: s.runner.sent
  handled : lost.length ≤ s.handled
  orderIds : Draws firstOrder ((ordersOf s.runner.sent).map (·.orderId)) s.runner.engine.counter
  reports : ∃ delivered, Reports (ordersOf lost) delivered s.runner.state.orderManager
    (visible lost s) (s.handled - lost.length) s.orderQueue
  trades : ∃ traded, Trades firstTrade traded s.runner.state.ledger (visible lost s)
    (s.handled - lost.length) s.gateway s.tradeQueue

/-- The view the runner should have of what it has sent once all of it is filled. -/
structure Exact (r : StrategyRunner) : Prop where
  finished : ∀ order ∈ ordersOf r.sent, r.state.Finished order.orderId
  pending : ∀ i, r.state.pendingExposure i = (0, 0)
  listed : ∀ i, r.state.position i = none ↔ ∀ order ∈ ordersOf r.sent, order.instrumentId ≠ i
  position : ∀ i, (r.state.ledger.quantity i).toInt = net i (ordersOf r.sent)
  effective : ∀ i, r.state.effectivePosition i = r.state.ledger.quantity i

section Runner
variable (r : StrategyRunner) (nowNs : UInt64) (calls : List ContextCall) (ctx : ActorContext)

theorem orderManager_callback :
    (r.callback nowNs calls ctx).1.state.orderManager =
      (r.callbackActions nowNs calls).foldl (fun m action => m.onActionSent action nowNs)
        r.state.orderManager := by
  rw [StrategyRunner.state_callback]
  generalize r.callbackActions nowNs calls = actions
  induction actions using List.reverseRecOn with
  | nil => rfl
  | append_singleton actions action ih =>
    rw [List.foldl_append, List.foldl_append, ← ih]
    rfl

theorem issues_callback :
    RunnerView.Issues r.engine.counter (r.callbackActions nowNs calls)
      (r.callback nowNs calls ctx).1.engine.counter := by
  have hintents : ((StrategyContext.new nowNs r.state r.timers).callback calls).intents =
      calls.flatMap fun call => call.intents r.state :=
    StrategyContext.callback_intents (StrategyContext.new nowNs r.state r.timers) calls
  have hengine : (r.callback nowNs calls ctx).1.engine =
      (r.engine.execute ((StrategyContext.new nowNs r.state r.timers).callback calls).intents
        r.state nowNs).1 := rfl
  rw [hengine, hintents]
  exact RunnerView.issues_execute r.engine _ r.state nowNs

end Runner

section Steps
variable {firstOrder firstTrade : UInt64} {lost : List Action} {s : System}

theorem inv_start (hs : Start s) : Inv s.runner.engine.counter s.gateway.nextTradeId [] s := by
  refine ⟨List.nil_prefix, Nat.zero_le _, ?_, ⟨[], ?_⟩, ⟨[], ?_⟩⟩
  · rw [hs.sent]
    exact draws_nil _
  · rw [visible, hs.state, hs.sent, hs.handled, hs.orderQueue]
    exact reports_default
  · have hgateway : s.gateway = ⟨s.gateway.nextTradeId, []⟩ := by
      rw [← hs.gateway]
    rw [visible, hs.state, hs.sent, hs.handled, hs.tradeQueue, hgateway]
    exact trades_new _

theorem Inv.sent_eq (h : Inv firstOrder firstTrade lost s) :
    s.runner.sent = lost ++ visible lost s :=
  (List.prefix_iff_eq_append.mp h.sent).symm

theorem Inv.ids_nodup (h : Inv firstOrder firstTrade lost s)
    (hfew : (ordersOf s.runner.sent).length ≤ 2 ^ 64) :
    ((ordersOf lost ++ ordersOf (visible lost s)).map (·.orderId)).Nodup := by
  rw [← ordersOf_append, ← h.sent_eq]
  exact h.orderIds.nodup (by rwa [List.length_map])

theorem Inv.callback (h : Inv firstOrder firstTrade lost s) (nowNs : UInt64)
    (calls : List ContextCall)
    (hfew : (ordersOf (s.runner.callback nowNs calls s.ctx).1.sent).length ≤ 2 ^ 64) :
    Inv firstOrder firstTrade lost (s.withHandler (s.runner.callback nowNs calls s.ctx)) := by
  obtain ⟨delivered, hreports⟩ := h.reports
  obtain ⟨traded, htrades⟩ := h.trades
  have hissued := draws_of_issues h.orderIds (issues_callback s.runner nowNs calls s.ctx)
  have hvisible : (s.runner.sent ++ s.runner.callbackActions nowNs calls).drop lost.length =
      visible lost s ++ s.runner.callbackActions nowNs calls :=
    List.drop_append_of_le_length h.sent.length_le
  rw [StrategyRunner.sent_callback, ordersOf_append] at hfew
  rw [← List.map_append] at hissued
  -- the ids of the callback are not those of a lost order
  have hnew : ∀ order ∈ ordersOf (s.runner.callbackActions nowNs calls),
      order.orderId ∉ (ordersOf lost).map (·.orderId) := by
    have hids := hissued.nodup (by rwa [List.length_map])
    rw [List.map_append] at hids
    intro order horder hlost
    obtain ⟨old, hold, hid⟩ := List.mem_map.mp hlost
    have hmem : order.orderId ∈ (ordersOf s.runner.sent).map (·.orderId) :=
      List.mem_map.mpr ⟨old, (h.sent.filterMap _).subset hold, hid⟩
    exact List.disjoint_of_nodup_append hids hmem (List.mem_map.mpr ⟨order, horder, rfl⟩)
  refine ⟨?_, h.handled, ?_, ⟨delivered, ?_⟩, ⟨traded, ?_⟩⟩
  · simp only [System.withHandler, StrategyRunner.sent_callback]
    exact h.sent.trans (List.prefix_append _ _)
  · simp only [System.withHandler, StrategyRunner.sent_callback, ordersOf_append]
    exact hissued
  · simp only [visible, System.withHandler, StrategyRunner.sent_callback, orderManager_callback,
      hvisible]
    exact hreports.sendAll _ nowNs hnew
  · simp only [visible, System.withHandler, StrategyRunner.sent_callback,
      StrategyRunner.ledger_callback, hvisible]
    exact htrades.sendAll hreports.handled_le _

theorem Inv.answer (h : Inv firstOrder firstTrade lost s) (now₁ now₂ now₃ : UInt64) :
    Inv firstOrder firstTrade lost (s.answer now₁ now₂ now₃) := by
  unfold System.answer
  split
  · exact h
  · rename_i action haction
    obtain ⟨delivered, hreports⟩ := h.reports
    obtain ⟨traded, htrades⟩ := h.trades
    have hnext : (visible lost s)[s.handled - lost.length]? = some action := by
      rw [visible, List.getElem?_drop, Nat.add_sub_cancel' h.handled, haction]
    have hcount : s.handled + 1 - lost.length = s.handled - lost.length + 1 :=
      Nat.sub_add_comm h.handled
    refine ⟨h.sent, Nat.le_succ_of_le h.handled, h.orderIds, ⟨delivered, ?_⟩, ⟨traded, ?_⟩⟩
    · simp only [hcount]
      exact hreports.answer hnext (reports_sendOrder htrades.published action now₁ now₂ now₃)
    · simp only [hcount]
      exact htrades.answer hnext now₁ now₂ now₃

/-- The runner's data is what the invariant speaks about. -/
theorem Inv.withState (h : Inv firstOrder firstTrade lost s) {state : RunnerState}
    (horders : state.orderManager = s.runner.state.orderManager)
    (hledger : state.ledger = s.runner.state.ledger) :
    Inv firstOrder firstTrade lost (s.withState state) := by
  refine ⟨h.sent, h.handled, h.orderIds, ?_, ?_⟩
  · simp only [System.withState, horders]
    exact h.reports
  · simp only [System.withState, hledger]
    exact h.trades

theorem Inv.orderEvent {event : OrderEvent} {rest : List OrderEvent}
    (h : Inv firstOrder firstTrade lost s) (hqueue : s.orderQueue = event :: rest)
    (hfew : (ordersOf s.runner.sent).length ≤ 2 ^ 64) :
    Inv firstOrder firstTrade lost
      ({ s with orderQueue := rest }.withState (s.runner.state.applyOrderEvent event).1) := by
  obtain ⟨delivered, hreports⟩ := h.reports
  have hids := h.ids_nodup hfew
  rw [hqueue] at hreports
  exact ⟨h.sent, h.handled, h.orderIds, ⟨_, hreports.deliver hids⟩, h.trades⟩

/-- A trade is of an order that the exchange has seen. -/
theorem Inv.known_of_trade {event : TradeEvent} {rest : List TradeEvent}
    (h : Inv firstOrder firstTrade lost s) (hqueue : s.tradeQueue = event :: rest)
    (hfew : (ordersOf s.runner.sent).length ≤ 2 ^ 64) :
    event.orderId ∉ (ordersOf lost).map (·.orderId) := by
  obtain ⟨traded, htrades⟩ := h.trades
  have hids := h.ids_nodup hfew
  rw [List.map_append] at hids
  have hfills := htrades.fills
  rw [hqueue] at hfills
  obtain ⟨order, horder, hone⟩ := exists_of_fills hfills
    (List.mem_append_right traded List.mem_cons_self)
  have hvisible : order ∈ ordersOf (visible lost s) :=
    ((List.take_prefix _ _).filterMap _).subset horder
  intro hlost
  exact List.disjoint_of_nodup_append hids hlost
    (List.mem_map.mpr ⟨order, hvisible, hone.orderId.symm⟩)

theorem Inv.tradeEvent {event : TradeEvent} {rest : List TradeEvent}
    (h : Inv firstOrder firstTrade lost s) (hqueue : s.tradeQueue = event :: rest)
    (hfew : (ordersOf s.runner.sent).length ≤ 2 ^ 64) :
    Inv firstOrder firstTrade lost
      ({ s with tradeQueue := rest }.withState (s.runner.state.applyTradeEvent event).1) := by
  have hknown := h.known_of_trade hqueue hfew
  obtain ⟨delivered, hreports⟩ := h.reports
  obtain ⟨traded, htrades⟩ := h.trades
  rw [hqueue] at htrades
  have hnext := htrades.deliver
  by_cases hseen : event.tradeId ∈ s.runner.state.ledger.fillLedger.seen
  · rw [Ledger.applyTradeEvent_of_seen _ hseen] at hnext
    simp only [System.withState, RunnerState.applyTradeEvent_of_seen _ hseen]
    exact ⟨h.sent, h.handled, h.orderIds, ⟨delivered, hreports⟩, ⟨_, hnext⟩⟩
  · simp only [System.withState, RunnerState.applyTradeEvent_of_new _ hseen]
    exact ⟨h.sent, h.handled, h.orderIds, ⟨delivered, hreports.trade hknown⟩, ⟨_, hnext⟩⟩

/-- What has been sent stays sent. -/
theorem sent_step (s : System) (i : Step) : s.runner.sent <+: (step s i).runner.sent := by
  have hcallback : ∀ (state : RunnerState) (nowNs : UInt64) (calls : List ContextCall),
      s.runner.sent <+: ({ s.runner with state := state }.callback nowNs calls s.ctx).1.sent := by
    intro state nowNs calls
    rw [StrategyRunner.sent_callback]
    exact List.prefix_append _ _
  cases i with
  | answer now₁ now₂ now₃ =>
    simp only [TradingLoop.step, System.answer]
    split <;> exact List.prefix_refl _
  | callback trigger nowNs calls =>
    cases trigger with
    | orderBook book source =>
      simp only [TradingLoop.step, System.handle, System.withHandler, StrategyRunner.onOrderBook]
      split
      · exact List.prefix_refl _
      · exact hcallback _ nowNs calls
    | timer => exact hcallback s.runner.state nowNs calls
    | orderEvent =>
      simp only [TradingLoop.step, System.handle]
      split
      · exact List.prefix_refl _
      · simp only [System.withHandler, StrategyRunner.onOrderEvent]
        split
        · exact hcallback _ nowNs calls
        · exact List.prefix_refl _
    | tradeEvent =>
      simp only [TradingLoop.step, System.handle]
      split
      · exact List.prefix_refl _
      · simp only [System.withHandler, StrategyRunner.onTradeEvent]
        split
        · exact hcallback _ nowNs calls
        · exact List.prefix_refl _

theorem few_of_step {s : System} {i : Step}
    (h : (ordersOf (TradingLoop.step s i).runner.sent).length ≤ 2 ^ 64) :
    (ordersOf s.runner.sent).length ≤ 2 ^ 64 :=
  Nat.le_trans ((sent_step s i).filterMap _).length_le h

/-- A handler applies its event, and then calls the strategy unless the event was refused. -/
theorem Inv.handle (h : Inv firstOrder firstTrade lost s) (trigger : Trigger) (nowNs : UInt64)
    (calls : List ContextCall)
    (hfew : (ordersOf (s.handle trigger nowNs calls).runner.sent).length ≤ 2 ^ 64) :
    Inv firstOrder firstTrade lost (s.handle trigger nowNs calls) := by
  have hbefore : (ordersOf s.runner.sent).length ≤ 2 ^ 64 :=
    @few_of_step s (.callback trigger nowNs calls) hfew
  cases trigger with
  | orderBook book source =>
    by_cases hsource : book.instrumentId ≠ source
    · simp only [System.handle, StrategyRunner.onOrderBook, if_pos hsource]
      exact h
    · simp only [System.handle, StrategyRunner.onOrderBook, if_neg hsource] at hfew ⊢
      have hmarket : Inv firstOrder firstTrade lost
          (s.withState (s.runner.state.updateMarket book)) :=
        h.withState (RunnerState.updateMarket_orderManager _ book)
          (RunnerState.updateMarket_ledger _ book)
      exact hmarket.callback nowNs calls hfew
  | timer => exact h.callback nowNs calls hfew
  | orderEvent =>
    cases hqueue : s.orderQueue with
    | nil =>
      simp only [System.handle, hqueue]
      exact h
    | cons event rest =>
      have hnext := h.orderEvent hqueue hbefore
      simp only [System.handle, hqueue, StrategyRunner.onOrderEvent] at hfew ⊢
      by_cases haccepted : (s.runner.state.applyOrderEvent event).2 = true
      · simp only [if_pos haccepted] at hfew ⊢
        exact hnext.callback nowNs calls hfew
      · simp only [if_neg haccepted]
        exact hnext
  | tradeEvent =>
    cases hqueue : s.tradeQueue with
    | nil =>
      simp only [System.handle, hqueue]
      exact h
    | cons event rest =>
      have hnext := h.tradeEvent hqueue hbefore
      simp only [System.handle, hqueue, StrategyRunner.onTradeEvent] at hfew ⊢
      by_cases haccepted : (s.runner.state.applyTradeEvent event).2 = true
      · simp only [if_pos haccepted] at hfew ⊢
        exact hnext.callback nowNs calls hfew
      · simp only [if_neg haccepted]
        exact hnext

theorem Inv.step (h : Inv firstOrder firstTrade lost s) (i : Step)
    (hfew : (ordersOf (TradingLoop.step s i).runner.sent).length ≤ 2 ^ 64) :
    Inv firstOrder firstTrade lost (TradingLoop.step s i) := by
  cases i with
  | callback trigger nowNs calls => exact h.handle trigger nowNs calls hfew
  | answer now₁ now₂ now₃ => exact h.answer now₁ now₂ now₃

theorem Inv.run (h : Inv firstOrder firstTrade lost s) {is : List Step}
    (hfew : (ordersOf (run TradingLoop.step s is).runner.sent).length ≤ 2 ^ 64) :
    Inv firstOrder firstTrade lost (run TradingLoop.step s is) := by
  have hguard : Guarded TradingLoop.step (fun _ _ => True) s is := fun _ _ _ => trivial
  refine run_of_guarded_within (B := fun s => (ordersOf s.runner.sent).length ≤ 2 ^ 64)
    (fun _ _ => few_of_step) ?_ h hfew hguard
  intro s i hinv hB _
  exact hinv.step i hB

end Steps

section Rest
variable {firstOrder firstTrade : UInt64} {lost : List Action} {s : System}

theorem signed_eq {order : NewOrder} {trade : TradeEvent} (h : Fills order trade) :
    Exposure.signedTrade trade = signed order := by
  simp only [Exposure.signedTrade, signed, Action.signedQuantity, Action.ofNewOrder, h.side,
    h.quantity]
  cases order.side <;> rfl

theorem signedSum_eq {orders : List NewOrder} {trades : List TradeEvent}
    (h : List.Forall₂ Fills orders trades) (i : InstrumentId) :
    LedgerSum.signedSum i trades = net i orders := by
  induction h with
  | nil => rfl
  | @cons order trade orders trades hfills _ ih =>
    rw [LedgerSum.signedSum, net] at ih
    simp only [LedgerSum.signedSum, net, List.filter_cons, hfills.instrumentId]
    split
    · rw [List.map_cons, List.map_cons, List.sum_cons, List.sum_cons, ih, signed_eq hfills]
    · exact ih

theorem instruments_eq {orders : List NewOrder} {trades : List TradeEvent}
    (h : List.Forall₂ Fills orders trades) :
    trades.map (·.instrumentId) = orders.map (·.instrumentId) := by
  induction h with
  | nil => rfl
  | cons hfills _ ih => rw [List.map_cons, List.map_cons, hfills.instrumentId, ih]

theorem pendingExposure_of_terminal {m : OrderManager}
    (h : ∀ id st, m.orders.lookup id = some st → isTerminal st.order.status = true)
    (i : InstrumentId) : m.pendingExposure i = (0, 0) := by
  have hskip : ∀ acc, ∀ st ∈ values m.orders, addExposure i acc st = acc := by
    intro acc st hst
    obtain ⟨id, hid⟩ := mem_values_iff.mp hst
    exact addExposure_of_terminal (h id st hid) i acc
  rw [pendingExposure, List.foldl_ext _ (fun acc _ => acc) _ hskip, List.foldl_fixed]

/-- Trades with ids of their own are all accepted, and as many as the orders allow. -/
theorem within_of_affordable {orders : List NewOrder} {trades : List TradeEvent}
    (h : List.Forall₂ Fills orders trades) (hfits : Affordable orders)
    (hids : (trades.map (·.tradeId)).Nodup) : LedgerSum.Within trades where
  quantity := by
    intro trade htrade
    obtain ⟨order, horder, hfills⟩ := exists_of_fills h htrade
    rw [hfills.quantity]
    exact hfits.quantity order horder
  sums := by
    intro before hbefore i
    obtain ⟨later, rfl⟩ := hbefore
    rw [List.map_append] at hids
    rw [Ledger.accepted_of_nodup (List.nodup_append.mp hids).1,
      signedSum_eq (List.forall₂_take_append orders before later h)]
    exact hfits.sums _ (List.take_prefix _ _) i

theorem AtRest.nothing_due (hrest : AtRest s) :
    due (visible lost s) (s.handled - lost.length) s.orderQueue = [] := by
  rw [due, hrest.orderQueue, hrest.answered, ← List.length_drop, visible, List.drop_length]
  rfl

/-- Every order that is not lost is finished. -/
theorem Inv.finished_of_rest (h : Inv firstOrder firstTrade lost s) (hrest : AtRest s) {id : UInt64}
    {st : OrderState} (hst : s.runner.state.record id = some st)
    (hid : id ∉ (ordersOf lost).map (·.orderId)) : isTerminal st.order.status = true := by
  obtain ⟨delivered, hreports⟩ := h.reports
  by_contra hlive
  obtain ⟨quantity, hmem⟩ := hreports.awaited id st hst (by simpa using hlive) hid
  rw [hrest.nothing_due] at hmem
  exact List.not_mem_nil hmem

/-- Every order that the exchange has seen is answered by a trade, and the trade delivered. -/
theorem Inv.sums_of_rest (h : Inv firstOrder firstTrade lost s) (hrest : AtRest s)
    (hfew : (ordersOf s.runner.sent).length ≤ 2 ^ 64)
    (hfits : Affordable (ordersOf (visible lost s))) :
    ∃ traded, List.Forall₂ Fills (ordersOf (visible lost s)) traded ∧
      LedgerSum.Sums s.runner.state.ledger traded := by
  obtain ⟨traded, htrades⟩ := h.trades
  have hfills : List.Forall₂ Fills (ordersOf (visible lost s)) traded := by
    have hall := htrades.fills
    rwa [hrest.answered, ← List.length_drop, visible, List.take_length, hrest.tradeQueue,
      List.append_nil] at hall
  have hvisible : (ordersOf (visible lost s)).length ≤ (ordersOf s.runner.sent).length :=
    ((List.drop_sublist _ _).filterMap _).length_le
  have hids : (traded.map (·.tradeId)).Nodup := by
    have hdraws := htrades.ids
    rw [hrest.tradeQueue, List.append_nil] at hdraws
    refine hdraws.nodup ?_
    rw [List.length_map, ← hfills.length_eq]
    exact Nat.le_trans hvisible hfew
  have hsums := (within_of_affordable hfills hfits hids).sums_applyAll
  rw [Ledger.accepted_of_nodup hids, ← htrades.ledger] at hsums
  exact ⟨traded, hfills, hsums⟩

theorem Inv.listed_of_rest (h : Inv firstOrder firstTrade lost s) (hrest : AtRest s)
    (hfew : (ordersOf s.runner.sent).length ≤ 2 ^ 64)
    (hfits : Affordable (ordersOf (visible lost s))) (i : InstrumentId) :
    s.runner.state.position i = none ↔
      ∀ order ∈ ordersOf (visible lost s), order.instrumentId ≠ i := by
  obtain ⟨traded, hfills, hsums⟩ := h.sums_of_rest hrest hfew hfits
  rw [RunnerState.position, hsums.listed, ← List.forall_mem_map (P := (· ≠ i)),
    instruments_eq hfills, List.forall_mem_map]

theorem Inv.position_of_rest (h : Inv firstOrder firstTrade lost s) (hrest : AtRest s)
    (hfew : (ordersOf s.runner.sent).length ≤ 2 ^ 64)
    (hfits : Affordable (ordersOf (visible lost s))) (i : InstrumentId) :
    (s.runner.state.ledger.quantity i).toInt = net i (ordersOf (visible lost s)) := by
  obtain ⟨traded, hfills, hsums⟩ := h.sums_of_rest hrest hfew hfits
  rw [hsums.quantity, signedSum_eq hfills]

theorem Inv.tracked_of_visible (h : Inv firstOrder firstTrade lost s)
    (hfew : (ordersOf s.runner.sent).length ≤ 2 ^ 64) {order : NewOrder}
    (horder : order ∈ ordersOf (visible lost s)) :
    order.orderId ∉ (ordersOf lost).map (·.orderId) ∧
      ∃ st, s.runner.state.record order.orderId = some st := by
  obtain ⟨delivered, hreports⟩ := h.reports
  have hids := h.ids_nodup hfew
  rw [List.map_append] at hids
  exact ⟨fun hlost => List.disjoint_of_nodup_append hids hlost
    (List.mem_map.mpr ⟨order, horder, rfl⟩),
    Option.ne_none_iff_exists'.mp (hreports.tracked order horder)⟩

theorem Inv.exact_of_rest (h : Inv firstOrder firstTrade [] s) (hrest : AtRest s)
    (hfew : (ordersOf s.runner.sent).length ≤ 2 ^ 64)
    (hfits : Affordable (ordersOf s.runner.sent)) : Exact s.runner := by
  have hpending : ∀ i, s.runner.state.pendingExposure i = (0, 0) :=
    pendingExposure_of_terminal fun id st hst => h.finished_of_rest hrest hst List.not_mem_nil
  refine ⟨?_, hpending, h.listed_of_rest hrest hfew hfits, h.position_of_rest hrest hfew hfits, ?_⟩
  · intro order horder
    obtain ⟨hid, st, hst⟩ := h.tracked_of_visible hfew horder
    exact ⟨st, hst, h.finished_of_rest hrest hst hid⟩
  · intro i
    have hzero : (0 : UInt64).toInt64 = 0 := rfl
    rw [RunnerState.effectivePosition_eq, hpending, hzero, Int64.add_zero, Int64.sub_zero]

end Rest

/-- In every run from an empty start the runner's view is exact whenever nothing is in flight. -/
theorem exact_at_rest {s : System} (hs : Start s) (is : List Step)
    (hfew : (ordersOf (run step s is).runner.sent).length ≤ 2 ^ 64)
    (hfits : Affordable (ordersOf (run step s is).runner.sent))
    (hrest : AtRest (run step s is)) : Exact (run step s is).runner :=
  ((inv_start hs).run hfew).exact_of_rest hrest hfew hfits

section Example

theorem natAbs_net_le (i : InstrumentId) (orders : List NewOrder) :
    (net i orders).natAbs ≤ (orders.map (·.quantity.toNat)).sum := by
  induction orders with
  | nil => exact Nat.le_refl 0
  | cons order orders ih =>
    have hone : (signed order).natAbs = order.quantity.toNat := by
      simp only [signed, Action.signedQuantity, Action.ofNewOrder]
      cases order.side <;> simp
    rw [List.map_cons, List.sum_cons]
    by_cases hi : order.instrumentId = i
    · have hsum : net i (order :: orders) = signed order + net i orders := by
        simp [net, hi]
      omega
    · have hsum : net i (order :: orders) = net i orders := by
        simp [net, hi]
      omega

/-- A total volume that fits is enough for every running sum. -/
theorem affordable_of_volume {orders : List NewOrder}
    (h : (orders.map (·.quantity.toNat)).sum < 2 ^ 63) : Affordable orders where
  quantity := by
    intro order horder
    have hmem : order.quantity.toNat ∈ orders.map (·.quantity.toNat) :=
      List.mem_map.mpr ⟨order, horder, rfl⟩
    have hle := List.single_le_sum (fun _ _ => Nat.zero_le _) _ hmem
    exact ⟨by omega, by omega⟩
  sums := by
    intro before hbefore i
    have hle := (hbefore.sublist.map (·.quantity.toNat)).sum_le_sum fun _ _ => Nat.zero_le _
    have habs := natAbs_net_le i before
    exact ⟨by omega, by omega⟩

/-- Five are bought; the trade arrives before the second of the two reports. -/
def buyFiveRun : List Step :=
  [.callback .timer 1 [.submitIntent (.targetPosition ⟨default, 5, .limit, 10⟩)], .answer 2 3 4,
   .callback .orderEvent 5 [], .callback .tradeEvent 6 [], .callback .orderEvent 7 []]

theorem exact_at_rest_five :
    Exact (run step OverTrading.startSystem buyFiveRun).runner ∧
      (run step OverTrading.startSystem buyFiveRun).runner.state.effectivePosition default = 5 := by
  refine ⟨exact_at_rest OverTrading.start_startSystem buyFiveRun (by decide)
    (affordable_of_volume (by decide)) ⟨by decide, by decide, by decide⟩, by decide⟩

end Example

section Target
variable {s : System}

/-- A step in which the strategy asks for nothing. -/
def Silent : Step → Prop
  | .callback _ _ calls => ∀ state, (calls.flatMap fun call => call.intents state) = []
  | .answer _ _ _ => True

theorem callbackActions_of_silent {calls : List ContextCall} (r : StrategyRunner) (nowNs : UInt64)
    (h : ∀ state, (calls.flatMap fun call => call.intents state) = []) :
    r.callbackActions nowNs calls = [] := by
  rw [StrategyRunner.callbackActions, h, ExecutionEngine.execute_nil]

theorem sent_of_silent {i : Step} (h : Silent i) : (step s i).runner.sent = s.runner.sent := by
  cases i with
  | answer now₁ now₂ now₃ =>
    simp only [step, System.answer]
    split <;> rfl
  | callback trigger nowNs calls =>
    have hnone : ∀ state : RunnerState,
        ({ s.runner with state := state }.callback nowNs calls s.ctx).1.sent = s.runner.sent := by
      intro state
      rw [StrategyRunner.sent_callback, callbackActions_of_silent _ nowNs h, List.append_nil]
    cases trigger with
    | orderBook book source =>
      simp only [step, System.handle, System.withHandler, StrategyRunner.onOrderBook]
      split
      · rfl
      · exact hnone _
    | timer => exact hnone s.runner.state
    | orderEvent =>
      simp only [step, System.handle]
      split
      · rfl
      · simp only [System.withHandler, StrategyRunner.onOrderEvent]
        split
        · exact hnone _
        · rfl
    | tradeEvent =>
      simp only [step, System.handle]
      split
      · rfl
      · simp only [System.withHandler, StrategyRunner.onTradeEvent]
        split
        · exact hnone _
        · rfl

theorem sent_of_silent_run {js : List Step} (h : ∀ j ∈ js, Silent j) :
    (run step s js).runner.sent = s.runner.sent := by
  induction js generalizing s with
  | nil => rfl
  | cons j js ih =>
    obtain ⟨hj, hjs⟩ := List.forall_mem_cons.mp h
    rw [run_cons, ih hjs, sent_of_silent hj]

/-- What is still in flight; an action may be answered by two reports and a trade. -/
def load (s : System) : Nat :=
  4 * (s.runner.sent.length - s.handled) + s.orderQueue.length + s.tradeQueue.length

theorem load_answer {firstOrder firstTrade : UInt64} {lost : List Action}
    (h : Inv firstOrder firstTrade lost s)
    (hopen : s.handled < s.runner.sent.length) (now₁ now₂ now₃ : UInt64) :
    load (s.answer now₁ now₂ now₃) < load s := by
  obtain ⟨traded, htrades⟩ := h.trades
  generalize haction : s.runner.sent[s.handled] = action
  have hget : s.runner.sent[s.handled]? = some action := by
    rw [List.getElem?_eq_getElem hopen, haction]
  have hreports := congrArg List.length
    (reports_sendOrder htrades.published action now₁ now₂ now₃)
  have hfills := (fills_sendOrder htrades.published action now₁ now₂ now₃).length_eq
  have hone : (ordersOf [action]).length ≤ 1 := List.length_filterMap_le _ _
  have htwo : (answerKeys action).length ≤ 2 := by
    unfold answerKeys
    split <;> simp
  rw [List.length_map] at hreports
  simp only [load, System.answer, hget, List.length_append]
  omega

theorem load_orderEvent (h : s.orderQueue ≠ []) :
    load (s.handle .orderEvent 0 []) < load s := by
  have hsent := @sent_of_silent s (.callback .orderEvent 0 []) fun _ => rfl
  simp only [step] at hsent
  rw [load, hsent]
  cases hqueue : s.orderQueue with
  | nil => exact absurd hqueue h
  | cons event rest => simp [System.handle, hqueue, System.withHandler, load]

theorem load_tradeEvent (h : s.tradeQueue ≠ []) :
    load (s.handle .tradeEvent 0 []) < load s := by
  have hsent := @sent_of_silent s (.callback .tradeEvent 0 []) fun _ => rfl
  simp only [step] at hsent
  rw [load, hsent]
  cases hqueue : s.tradeQueue with
  | nil => exact absurd hqueue h
  | cons event rest => simp [System.handle, hqueue, System.withHandler, load]

/-- Wherever the loop stands, answers and deliveries alone bring it to rest. -/
theorem rest_reachable {firstOrder firstTrade : UInt64} {lost : List Action}
    (h : Inv firstOrder firstTrade lost s)
    (hfew : (ordersOf s.runner.sent).length ≤ 2 ^ 64) :
    ∃ js, (∀ j ∈ js, Silent j) ∧ AtRest (run step s js) := by
  have hprogress : ∀ t,
      (Inv firstOrder firstTrade lost t ∧ (ordersOf t.runner.sent).length ≤ 2 ^ 64) →
      ¬ AtRest t → ∃ j, Silent j ∧ (Inv firstOrder firstTrade lost (step t j) ∧
        (ordersOf (step t j).runner.sent).length ≤ 2 ^ 64) ∧ load (step t j) < load t := by
    intro t ⟨hinv, hfew⟩ hbusy
    have hkeep : ∀ j, Silent j → Inv firstOrder firstTrade lost (step t j) ∧
        (ordersOf (step t j).runner.sent).length ≤ 2 ^ 64 := by
      intro j hj
      have hsame : (ordersOf (step t j).runner.sent).length ≤ 2 ^ 64 := by rwa [sent_of_silent hj]
      exact ⟨hinv.step j hsame, hsame⟩
    by_cases hanswered : t.handled = t.runner.sent.length
    · by_cases horders : t.orderQueue = []
      · have htrades : t.tradeQueue ≠ [] := fun htrades => hbusy ⟨hanswered, horders, htrades⟩
        have hsilent : Silent (.callback .tradeEvent 0 []) := fun _ => rfl
        exact ⟨_, hsilent, hkeep _ hsilent, load_tradeEvent htrades⟩
      · have hsilent : Silent (.callback .orderEvent 0 []) := fun _ => rfl
        exact ⟨_, hsilent, hkeep _ hsilent, load_orderEvent horders⟩
    · obtain ⟨_, hreports⟩ := hinv.reports
      have hopen : t.handled < t.runner.sent.length := by
        have hle := hreports.handled_le
        have hlost := hinv.sent.length_le
        rw [visible, List.length_drop] at hle
        omega
      exact ⟨.answer 0 0 0, trivial, hkeep _ trivial, load_answer hinv hopen 0 0 0⟩
  obtain ⟨js, hjs, -, hrest⟩ := exists_run_of_measure load hprogress ⟨h, hfew⟩
  exact ⟨js, hjs, hrest⟩

theorem Affordable.of_prefix {orders orders' : List NewOrder} (h : Affordable orders)
    (hfirst : orders' <+: orders) : Affordable orders' :=
  ⟨fun order horder => h.quantity order (hfirst.subset horder),
    fun before hbefore => h.sums before (hbefore.trans hfirst)⟩

theorem net_append (i : InstrumentId) (orders orders' : List NewOrder) :
    net i (orders ++ orders') = net i orders + net i orders' := by
  simp only [net, List.filter_append, List.map_append, List.sum_append]

/-- The strategy asks for a target, whatever the state is. -/
def Asks (calls : List ContextCall) (intent : TargetPositionIntent) : Prop :=
  ∀ state, (calls.flatMap fun call => call.intents state) = [.targetPosition intent]

/-- What the callback orders is the gap, on the instrument of the intent. -/
theorem net_callbackActions (r : StrategyRunner) (nowNs : UInt64) {calls : List ContextCall}
    {intent : TargetPositionIntent} (hasks : Asks calls intent)
    (hgap : FitsI64 (intent.targetQuantity.toInt -
      (r.state.effectivePosition intent.instrumentId).toInt)) (i : InstrumentId) :
    net i (ordersOf (r.callbackActions nowNs calls)) =
      if i = intent.instrumentId then
        intent.targetQuantity.toInt - (r.state.effectivePosition intent.instrumentId).toInt
      else 0 := by
  rw [StrategyRunner.callbackActions, hasks, ExecutionEngine.execute_targetPosition]
  by_cases hmet : r.state.effectivePosition intent.instrumentId = intent.targetQuantity
  · rw [r.engine.targetPositionActions_of_met nowNs hmet, hmet, Int.sub_self, ite_self]
    rfl
  · have hcovers := r.engine.covers_targetOrder intent (saturatingSubI64 intent.targetQuantity
      (r.state.effectivePosition intent.instrumentId)) nowNs
    have hsigned : signed (r.engine.targetOrder intent (saturatingSubI64 intent.targetQuantity
        (r.state.effectivePosition intent.instrumentId)) nowNs) = intent.targetQuantity.toInt -
          (r.state.effectivePosition intent.instrumentId).toInt := by
      rw [signed, hcovers.signedQuantity]
      exact toInt_ofIntClamp_of_fits hgap
    rw [r.engine.targetPositionActions_of_missed nowNs hmet]
    generalize r.engine.targetOrder intent _ nowNs = order at hcovers hsigned ⊢
    have honly : ordersOf [.ofNewOrder order] = [order] := rfl
    rw [honly]
    by_cases hi : i = intent.instrumentId
    · simp [net, hi, hcovers.instrumentId, hsigned]
    · simp [net, hi, hcovers.instrumentId, Ne.symm hi]

/-- At rest the strategy is called for a timer or for a book, and what it trades on is what
it was before. -/
theorem asked_of_rest {before : System} (hrest : AtRest before) {trigger : Trigger}
    (hcalled : (before.received trigger).isSome = true) (nowNs : UInt64) (calls : List ContextCall) :
    ∃ r : StrategyRunner, r.state.effectivePosition = before.runner.state.effectivePosition ∧
      (TradingLoop.step before (.callback trigger nowNs calls)).runner.sent =
        before.runner.sent ++ r.callbackActions nowNs calls := by
  cases trigger with
  | timer =>
    exact ⟨before.runner, rfl, StrategyRunner.sent_callback before.runner nowNs calls before.ctx⟩
  | orderBook book source =>
    simp only [System.received] at hcalled
    split at hcalled
    · cases hcalled
    · rename_i hsource
      refine ⟨{ before.runner with state := before.runner.state.updateMarket book }, ?_, ?_⟩
      · funext i
        simp only [RunnerState.effectivePosition_eq, RunnerState.pendingExposure,
          RunnerState.updateMarket_ledger, RunnerState.updateMarket_orderManager]
      · simp only [TradingLoop.step, System.handle, StrategyRunner.onOrderBook, if_neg hsource]
        exact StrategyRunner.sent_callback _ nowNs calls before.ctx
  | orderEvent =>
    rw [System.received, hrest.orderQueue] at hcalled
    cases hcalled
  | tradeEvent =>
    rw [System.received, hrest.tradeQueue] at hcalled
    cases hcalled

/-- A target asked for at rest moves the position by the gap, once the loop is at rest again. -/
theorem Inv.asked_at_rest {firstOrder firstTrade : UInt64} {lost : List Action} {before : System}
    (h : Inv firstOrder firstTrade lost before) (hrest : AtRest before) {trigger : Trigger}
    (hcalled : (before.received trigger).isSome = true) (nowNs : UInt64)
    {calls : List ContextCall} {intent : TargetPositionIntent} (hasks : Asks calls intent)
    (hfew : (ordersOf (TradingLoop.step before (.callback trigger nowNs calls)).runner.sent).length
      ≤ 2 ^ 64)
    (hfits : Affordable
      (ordersOf (visible lost (TradingLoop.step before (.callback trigger nowNs calls)))))
    (hgap : FitsI64 (intent.targetQuantity.toInt -
      (before.runner.state.effectivePosition intent.instrumentId).toInt))
    {js : List Step} (hjs : ∀ j ∈ js, Silent j)
    (hrestAfter : AtRest (Transition.run TradingLoop.step
      (TradingLoop.step before (.callback trigger nowNs calls)) js)) (i : InstrumentId) :
    ((Transition.run TradingLoop.step (TradingLoop.step before (.callback trigger nowNs calls))
        js).runner.state.ledger.quantity i).toInt =
      (before.runner.state.ledger.quantity i).toInt +
        if i = intent.instrumentId then
          intent.targetQuantity.toInt -
            (before.runner.state.effectivePosition intent.instrumentId).toInt
        else 0 := by
  obtain ⟨r, hstate, hasked⟩ := asked_of_rest hrest hcalled nowNs calls
  have hvisible : visible lost (TradingLoop.step before (.callback trigger nowNs calls)) =
      visible lost before ++ r.callbackActions nowNs calls := by
    rw [visible, hasked, List.drop_append_of_le_length h.sent.length_le]
    rfl
  have hfirst : ordersOf (visible lost before) <+:
      ordersOf (visible lost (TradingLoop.step before (.callback trigger nowNs calls))) := by
    rw [hvisible, ordersOf_append]
    exact List.prefix_append _ _
  have hbefore := h.position_of_rest hrest (few_of_step hfew) (hfits.of_prefix hfirst)
  -- nothing is ordered after the callback
  have hsame := @sent_of_silent_run (TradingLoop.step before (.callback trigger nowNs calls)) js hjs
  have hkept := ((h.step _ hfew).run (by rwa [hsame])).position_of_rest hrestAfter (by rwa [hsame])
  rw [visible, hsame] at hkept
  rw [hkept hfits, ← visible, hvisible, ordersOf_append, net_append, hbefore,
    net_callbackActions r nowNs hasks (by rwa [hstate]), hstate]

/-- The positions a target asked for at rest leads to. -/
structure OnTarget (s t : System) (intent : TargetPositionIntent) : Prop where
  target : t.runner.state.ledger.quantity intent.instrumentId = intent.targetQuantity
  others : ∀ i, i ≠ intent.instrumentId →
    t.runner.state.ledger.quantity i = s.runner.state.ledger.quantity i

/-- A target asked for at rest, on a timer or on a book, is the position the next time the loop
is at rest, if the strategy asks for nothing in between; and rest can be reached. -/
theorem on_target_at_rest {s : System} (hs : Start s) (is : List Step) (nowNs : UInt64)
    {calls : List ContextCall} {intent : TargetPositionIntent} (hasks : Asks calls intent)
    (hrest : AtRest (run step s is)) {trigger : Trigger}
    (hcalled : ((run step s is).received trigger).isSome = true)
    (hfew : (ordersOf (run step s (is ++ [.callback trigger nowNs calls])).runner.sent).length
      ≤ 2 ^ 64)
    (hfits : Affordable
      (ordersOf (run step s (is ++ [.callback trigger nowNs calls])).runner.sent))
    (hgap : FitsI64 (intent.targetQuantity.toInt -
      ((run step s is).runner.state.ledger.quantity intent.instrumentId).toInt)) :
    (∃ js, (∀ j ∈ js, Silent j) ∧
      AtRest (run step s (is ++ .callback trigger nowNs calls :: js))) ∧
    ∀ js, (∀ j ∈ js, Silent j) → AtRest (run step s (is ++ .callback trigger nowNs calls :: js)) →
      OnTarget (run step s is) (run step s (is ++ .callback trigger nowNs calls :: js)) intent := by
  have hasked : run step s (is ++ [.callback trigger nowNs calls]) =
      step (run step s is) (.callback trigger nowNs calls) := run_append step s is _
  have hlater : ∀ js, run step s (is ++ .callback trigger nowNs calls :: js) =
      run step (step (run step s is) (.callback trigger nowNs calls)) js :=
    fun js => run_append step s is _
  simp only [hlater]
  rw [hasked] at hfew hfits
  generalize hbefore : run step s is = before at hrest hcalled hfew hfits hgap ⊢
  have hfirst : ordersOf before.runner.sent <+:
      ordersOf (step before (.callback trigger nowNs calls)).runner.sent :=
    (sent_step before _).filterMap _
  have hinv : Inv s.runner.engine.counter s.gateway.nextTradeId [] before := by
    rw [← hbefore]
    exact (inv_start hs).run (by rw [hbefore]; exact few_of_step hfew)
  have hexact := hinv.exact_of_rest hrest (few_of_step hfew) (hfits.of_prefix hfirst)
  rw [← hexact.effective] at hgap
  refine ⟨rest_reachable (hinv.step _ hfew) hfew, fun js hjs hrestAfter => ?_⟩
  have hmoved := hinv.asked_at_rest hrest hcalled nowNs hasks hfew hfits hgap hjs hrestAfter
  constructor
  · apply Int64.toInt_inj.mp
    rw [hmoved, if_pos rfl, hexact.effective]
    omega
  · intro i hi
    apply Int64.toInt_inj.mp
    rw [hmoved, if_neg hi, Int.add_zero]

/-- After five were bought the target flips to three short. -/
theorem on_target_at_rest_flip :
    OnTarget (run step OverTrading.startSystem buyFiveRun)
      (run step OverTrading.startSystem (buyFiveRun ++
        [.callback .timer 8 [.submitIntent (.targetPosition ⟨default, -3, .limit, 10⟩)],
         .answer 9 10 11, .callback .tradeEvent 12 [], .callback .orderEvent 13 [],
         .callback .orderEvent 14 []]))
      ⟨default, -3, .limit, 10⟩ := by
  refine (on_target_at_rest OverTrading.start_startSystem buyFiveRun 8 (fun _ => rfl)
    ⟨by decide, by decide, by decide⟩ rfl (by decide) (affordable_of_volume (by decide))
    (by decide)).2 _ ?_ ⟨by decide, by decide, by decide⟩
  simp [Silent]

end Target

end Nnxt.TradingLoop
