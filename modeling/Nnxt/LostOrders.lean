import Nnxt.LoopAtRest
import Nnxt.Exposure

/-!
# Orders from before the connection

What a strategy asks for before its trade connection stands is recorded as sent, but there
is no queue to write it to, and a reader that joins a queue starts at its end. The exchange
never sees such an order. Its record stays open until the strategy cancels it, its
quantity counts as pending, and a target asked for later is missed by it.
-/

namespace Nnxt.LostOrders

set_option autoImplicit false

open HashMap FixedWidth WrappingCounter Transition TradingLoop
open OrderManager (onActionSent)
open OverTrading (System Trigger Start)

/-- A step of the runner alone. -/
def Local : Step → Prop
  | .callback _ _ _ => True
  | .answer _ _ _ => False

/-- The exchange joins: it will read what is sent from now on. -/
def connect (s : System) : System := { s with handled := s.runner.sent.length }

/-- Callbacks without an exchange, the connection, and then the loop. -/
def lateRun (s : System) (before is : List Step) : System :=
  run step (connect (run step s before)) is

/-- The orders that were sent too early, and are not cancelled by any of the actions. -/
def hanging (lost later : List Action) : List NewOrder :=
  (ordersOf lost).filter fun order => order.orderId ∉ cancelledIds later

/-- What the orders of one side of an instrument add up to. -/
def volume (side : Side) (i : InstrumentId) (orders : List NewOrder) : Nat :=
  (orders.map fun order =>
    if order.instrumentId = i ∧ order.side = side then order.quantity.toNat else 0).sum

/-- The view of the runner when nothing is in flight: exact for the orders that the exchange
has seen, while the lost ones count as pending for ever. -/
structure ExactApart (lost : List Action) (t : System) : Prop where
  finished : ∀ order ∈ ordersOf (visible lost t), t.runner.state.Finished order.orderId
  cancelled : ∀ order ∈ ordersOf lost,
    t.runner.state.Finished order.orderId ↔ order.orderId ∈ cancelledIds (visible lost t)
  buys : ∀ i, (t.runner.state.pendingExposure i).1.toNat =
    min (volume .buy i (hanging lost (visible lost t))) (2 ^ 64 - 1)
  sells : ∀ i, (t.runner.state.pendingExposure i).2.toNat =
    min (volume .sell i (hanging lost (visible lost t))) (2 ^ 64 - 1)
  listed : ∀ i, t.runner.state.position i = none ↔
    ∀ order ∈ ordersOf (visible lost t), order.instrumentId ≠ i
  position : ∀ i, (t.runner.state.ledger.quantity i).toInt = net i (ordersOf (visible lost t))

section Unconnected
variable {firstOrder firstTrade : UInt64} {lost : List NewOrder} {m : OrderManager} {s : System}

/-- Nothing has been reported on the orders sent so far, so they may as well be lost. -/
theorem lose {sent : List Action} (h : Reports lost [] m sent 0 [])
    (hhangs : ∀ order ∈ ordersOf sent, ∃ st, m.orders.lookup order.orderId = some st ∧
      Hangs order [] st) : Reports (lost ++ ordersOf sent) [] m [] 0 [] where
  handled_le := Nat.le_refl 0
  sent_eq := rfl
  seen := h.seen
  awaited := by
    intro id st hst hlive hid
    rw [List.map_append, List.mem_append, not_or] at hid
    obtain ⟨quantity, hmem⟩ := h.awaited id st hst hlive hid.1
    have hkey := ((mem_answerKeys_of_cancelled hid.2).mp hmem).1
    cases hkey
  tracked := List.forall_mem_nil _
  hanging := by
    intro order horder
    exact (List.mem_append.mp horder).elim (h.hanging order) (hhangs order)

theorem lose_sent (h : Reports lost [] m [] 0 []) (action : Action) (nowNs : UInt64)
    (hnew : ∀ order ∈ ordersOf [action], order.orderId ∉ lost.map (·.orderId)) :
    Reports (lost ++ ordersOf [action]) [] (m.onActionSent action nowNs) [] 0 [] := by
  refine lose (h.send action nowNs hnew) fun order horder => ?_
  cases hk : action.kind with
  | newOrder =>
    rw [ordersOf_newOrder hk, List.mem_singleton] at horder
    subst horder
    refine ⟨_, ?_, hangs_sent action.newOrder nowNs⟩
    simp only [onActionSent, hk]
    exact AList.lookup_insert _
  | cancelOrder =>
    rw [ordersOf_cancelOrder hk] at horder
    exact absurd horder List.not_mem_nil

theorem lose_all (h : Reports lost [] m [] 0 []) (actions : List Action) (nowNs : UInt64)
    (hids : ((lost ++ ordersOf actions).map (·.orderId)).Nodup) :
    Reports (lost ++ ordersOf actions) []
      (actions.foldl (fun m action => m.onActionSent action nowNs) m) [] 0 [] := by
  induction actions generalizing lost m with
  | nil =>
    rw [ordersOf, List.filterMap_nil, List.append_nil]
    exact h
  | cons action actions ih =>
    have hcons : ordersOf (action :: actions) = ordersOf [action] ++ ordersOf actions :=
      ordersOf_append [action] actions
    rw [hcons, ← List.append_assoc] at hids ⊢
    refine ih (lose_sent h action nowNs fun order horder hlost => ?_) hids
    rw [List.map_append, List.map_append] at hids
    exact List.disjoint_of_nodup_append (List.nodup_append.mp hids).1 hlost
      (List.mem_map.mpr ⟨order, horder, rfl⟩)

structure Unconnected (firstOrder firstTrade : UInt64) (s : System) : Prop where
  orderIds : Draws firstOrder ((ordersOf s.runner.sent).map (·.orderId)) s.runner.engine.counter
  reports : Reports (ordersOf s.runner.sent) [] s.runner.state.orderManager [] 0 []
  trades : Trades firstTrade [] s.runner.state.ledger [] 0 s.gateway []
  orderQueue : s.orderQueue = []
  tradeQueue : s.tradeQueue = []

theorem unconnected_start (hs : Start s) :
    Unconnected s.runner.engine.counter s.gateway.nextTradeId s := by
  have hgateway : s.gateway = ⟨s.gateway.nextTradeId, []⟩ := by
    rw [← hs.gateway]
  refine ⟨?_, ?_, ?_, hs.orderQueue, hs.tradeQueue⟩
  · rw [hs.sent]
    exact draws_nil _
  · rw [hs.sent, hs.state]
    exact reports_default
  · rw [hs.state, hgateway]
    exact trades_new _

theorem Unconnected.callback (h : Unconnected firstOrder firstTrade s) (nowNs : UInt64)
    (calls : List ContextCall)
    (hfew : (ordersOf (s.runner.callback nowNs calls s.ctx).1.sent).length ≤ 2 ^ 64) :
    Unconnected firstOrder firstTrade (s.withHandler (s.runner.callback nowNs calls s.ctx)) := by
  have hissued := draws_of_issues h.orderIds (issues_callback s.runner nowNs calls s.ctx)
  rw [StrategyRunner.sent_callback, ordersOf_append] at hfew
  rw [← List.map_append] at hissued
  have hids := hissued.nodup (by rwa [List.length_map])
  refine ⟨?_, ?_, ?_, h.orderQueue, h.tradeQueue⟩
  · simp only [System.withHandler, StrategyRunner.sent_callback, ordersOf_append]
    exact hissued
  · simp only [System.withHandler, StrategyRunner.sent_callback, orderManager_callback,
      ordersOf_append]
    exact lose_all h.reports _ nowNs hids
  · simp only [System.withHandler, StrategyRunner.ledger_callback]
    exact h.trades

/-- Without an exchange there is nothing to deliver. -/
theorem Unconnected.step (h : Unconnected firstOrder firstTrade s) {i : Step} (hlocal : Local i)
    (hfew : (ordersOf (TradingLoop.step s i).runner.sent).length ≤ 2 ^ 64) :
    Unconnected firstOrder firstTrade (TradingLoop.step s i) := by
  cases i with
  | answer now₁ now₂ now₃ => exact hlocal.elim
  | callback trigger nowNs calls =>
    cases trigger with
    | timer => exact h.callback nowNs calls hfew
    | orderEvent =>
      simp only [TradingLoop.step, System.handle, h.orderQueue]
      exact h
    | tradeEvent =>
      simp only [TradingLoop.step, System.handle, h.tradeQueue]
      exact h
    | orderBook book source =>
      by_cases hsource : book.instrumentId ≠ source
      · simp only [TradingLoop.step, System.handle, StrategyRunner.onOrderBook, if_pos hsource]
        exact h
      · simp only [TradingLoop.step, System.handle, StrategyRunner.onOrderBook, if_neg hsource]
          at hfew ⊢
        have hmarket : Unconnected firstOrder firstTrade
            (s.withState (s.runner.state.updateMarket book)) := by
          refine ⟨h.orderIds, ?_, ?_, h.orderQueue, h.tradeQueue⟩
          · simp only [System.withState, RunnerState.updateMarket_orderManager]
            exact h.reports
          · simp only [System.withState, RunnerState.updateMarket_ledger]
            exact h.trades
        exact hmarket.callback nowNs calls hfew

theorem Unconnected.always (h : Unconnected firstOrder firstTrade s) {before : List Step}
    (hlocal : ∀ i ∈ before, Local i)
    (hfew : (ordersOf (run TradingLoop.step s before).runner.sent).length ≤ 2 ^ 64) :
    Unconnected firstOrder firstTrade (run TradingLoop.step s before) := by
  have hguard : Guarded TradingLoop.step (fun _ i => Local i) s before := by
    intro earlier i hsplit
    exact hlocal i (hsplit.subset (List.mem_append_right _ (List.mem_singleton_self i)))
  refine run_of_guarded_within (B := fun s => (ordersOf s.runner.sent).length ≤ 2 ^ 64)
    (fun _ _ => few_of_step) ?_ h hfew hguard
  intro s i hinv hB hi
  exact hinv.step hi hB

theorem Unconnected.connect (h : Unconnected firstOrder firstTrade s) :
    Inv firstOrder firstTrade s.runner.sent (connect s) := by
  refine ⟨List.prefix_refl _, Nat.le_refl _, h.orderIds, ⟨[], ?_⟩, ⟨[], ?_⟩⟩
  · simp only [visible, LostOrders.connect, List.drop_length, Nat.sub_self, h.orderQueue]
    exact h.reports
  · simp only [visible, LostOrders.connect, List.drop_length, Nat.sub_self, h.tradeQueue]
    exact h.trades

end Unconnected

section Rest
variable {firstOrder firstTrade : UInt64} {lost : List Action} {t : System}

theorem volume_filter (side : Side) (i : InstrumentId) (p : NewOrder → Prop) [DecidablePred p]
    (orders : List NewOrder) :
    volume side i (orders.filter fun order => p order) =
      (orders.map fun order =>
        if p order ∧ order.instrumentId = i ∧ order.side = side then order.quantity.toNat
        else 0).sum := by
  induction orders with
  | nil => rfl
  | cons order orders ih =>
    rw [volume] at ih ⊢
    rw [List.filter_cons, List.map_cons, List.sum_cons, ← ih]
    by_cases hp : p order
    · simp [hp]
    · simp [hp]

/-- What a lost order still adds to the pending sums. -/
theorem weight_of_hangs {order : NewOrder} {delivered : List (UInt64 × OrderEventKey)}
    {st : OrderState} (h : Hangs order delivered st) (side : Side) (i : InstrumentId) :
    (Exposure.weight side i st).toNat =
      if isTerminal st.order.status = false ∧ order.instrumentId = i ∧ order.side = side then
        order.quantity.toNat
      else 0 := by
  have hremaining : st.remaining = order.quantity := by
    apply UInt64.toNat_inj.mp
    rw [OrderState.remaining, h.filledQuantity, h.quantity, toNat_saturatingSub, UInt64.toNat_zero,
      Nat.sub_zero]
  rw [Exposure.weight, h.instrumentId, h.side, hremaining, apply_ite UInt64.toNat]
  exact if_congr and_left_comm rfl rfl

/-- Once everything is answered, an order is reported on if a cancel of it was seen. -/
theorem open_iff_of_rest (h : Inv firstOrder firstTrade lost t) (hrest : AtRest t)
    (hfew : (ordersOf t.runner.sent).length ≤ 2 ^ 64) {order : NewOrder}
    (horder : order ∈ ordersOf lost) :
    ∃ st delivered, t.runner.state.record order.orderId = some st ∧ Hangs order delivered st ∧
      (isTerminal st.order.status = true ↔ order.orderId ∈ cancelledIds (visible lost t)) := by
  obtain ⟨delivered, hreports⟩ := h.reports
  obtain ⟨st, hst, hhangs⟩ := hreports.hanging order horder
  have hids := h.ids_nodup hfew
  rw [List.map_append] at hids
  have hunknown : order.orderId ∉ (ordersOf (visible lost t)).map (·.orderId) := fun hmem =>
    List.disjoint_of_nodup_append hids (List.mem_map.mpr ⟨order, horder, rfl⟩) hmem
  have hall : (visible lost t).flatMap answerKeys = delivered := by
    rw [hreports.sent_eq, hrest.nothing_due, List.append_nil]
  refine ⟨st, delivered, hst, hhangs, ?_⟩
  rw [hhangs.terminal, ← hall]
  simp only [mem_answerKeys_of_cancelled hunknown, exists_eq_left]

theorem pending_of_rest (h : Inv firstOrder firstTrade lost t) (hrest : AtRest t)
    (hfew : (ordersOf t.runner.sent).length ≤ 2 ^ 64) (side : Side) (i : InstrumentId) :
    Exposure.pending side i t.runner.state.orderManager =
      volume side i (hanging lost (visible lost t)) := by
  have hids := h.ids_nodup hfew
  rw [List.map_append] at hids
  -- the records of the other orders are finished, and weigh nothing
  have hothers : ∀ id st, t.runner.state.orderManager.orders.lookup id = some st →
      id ∉ (ordersOf lost).map (·.orderId) → (Exposure.weight side i st).toNat = 0 := by
    intro id st hst hid
    rw [Exposure.weight_of_terminal (h.finished_of_rest hrest hst hid), UInt64.toNat_zero]
  rw [Exposure.pending, total_eq_sum _ (List.nodup_append.mp hids).1 hothers, List.map_map,
    hanging, volume_filter side i (fun order => order.orderId ∉ cancelledIds (visible lost t))]
  congr 1
  refine List.map_congr_left fun order horder => ?_
  obtain ⟨st, delivered, hst, hhangs, hopen⟩ := open_iff_of_rest h hrest hfew horder
  have hlookup : t.runner.state.orderManager.orders.lookup order.orderId = some st := hst
  rw [Function.comp_apply, hlookup, Option.map_some, Option.getD_some, weight_of_hangs hhangs]
  refine if_congr (and_congr_left' ?_) rfl rfl
  rw [← hopen, Bool.not_eq_true]

theorem exact_apart_of_rest (h : Inv firstOrder firstTrade lost t) (hrest : AtRest t)
    (hfew : (ordersOf t.runner.sent).length ≤ 2 ^ 64)
    (hfits : Affordable (ordersOf (visible lost t))) : ExactApart lost t := by
  refine ⟨?_, ?_, ?_, ?_, h.listed_of_rest hrest hfew hfits, h.position_of_rest hrest hfew hfits⟩
  · intro order horder
    obtain ⟨hid, st, hst⟩ := h.tracked_of_visible hfew horder
    exact ⟨st, hst, h.finished_of_rest hrest hst hid⟩
  · intro order horder
    obtain ⟨st, delivered, hst, -, hopen⟩ := open_iff_of_rest h hrest hfew horder
    rw [← hopen]
    constructor
    · rintro ⟨st', hst', hterminal⟩
      rw [hst] at hst'
      cases hst'
      exact hterminal
    · intro hterminal
      exact ⟨st, hst, hterminal⟩
  · intro i
    rw [← pending_of_rest h hrest hfew .buy i]
    exact (Exposure.pendingExposure_toNat _ i).1
  · intro i
    rw [← pending_of_rest h hrest hfew .sell i]
    exact (Exposure.pendingExposure_toNat _ i).2

end Rest

section Runs
variable {s : System} {before : List Step}

theorem sent_run (s : System) (is : List Step) : s.runner.sent <+: (run step s is).runner.sent := by
  induction is generalizing s with
  | nil => exact List.prefix_refl _
  | cons i is ih =>
    rw [run_cons]
    exact (sent_step s i).trans (ih _)

theorem inv_lateRun (hs : Start s) (hlocal : ∀ i ∈ before, Local i) (is : List Step)
    (hfew : (ordersOf (lateRun s before is).runner.sent).length ≤ 2 ^ 64) :
    Inv s.runner.engine.counter s.gateway.nextTradeId (run step s before).runner.sent
      (lateRun s before is) := by
  have hfirst : (run step s before).runner.sent <+: (lateRun s before is).runner.sent :=
    sent_run (connect (run step s before)) is
  have hfewBefore := Nat.le_trans (hfirst.filterMap _).length_le hfew
  exact ((unconnected_start hs).always hlocal hfewBefore).connect.run hfew

end Runs

/-- In every run in which the exchange joins late, once nothing is in flight, the orders that it
has seen are finished and are the positions; those it has not seen are open and pending,
except the ones that the strategy has cancelled since. -/
theorem lost_orders_hang {s : System} (hs : Start s) {before : List Step}
    (hlocal : ∀ i ∈ before, Local i) (is : List Step)
    (hfew : (ordersOf (lateRun s before is).runner.sent).length ≤ 2 ^ 64)
    (hfits : Affordable
      (ordersOf (visible (run step s before).runner.sent (lateRun s before is))))
    (hrest : AtRest (lateRun s before is)) :
    ExactApart (run step s before).runner.sent (lateRun s before is) :=
  exact_apart_of_rest (inv_lateRun hs hlocal is hfew) hrest hfew hfits

section Example

/-- Before the connection five are ordered, and a sale of two that is cancelled later. -/
def beforeConnection : List Step :=
  [.callback .timer 1 [.submitIntent (.targetPosition ⟨default, 5, .limit, 10⟩),
    .submitIntent (.targetOrders ⟨default, [⟨.sell, .limit, 10, 2⟩]⟩)]]

def cancelTheSale : List Step :=
  [.callback .timer 2 [.submitIntent (.cancelOrder ⟨default, 2⟩)], .answer 3 4 5,
   .callback .orderEvent 6 []]

theorem lost_orders_hang_five :
    ExactApart (run step OverTrading.startSystem beforeConnection).runner.sent
        (lateRun OverTrading.startSystem beforeConnection cancelTheSale) ∧
      volume .buy default (hanging
        (run step OverTrading.startSystem beforeConnection).runner.sent
        (visible (run step OverTrading.startSystem beforeConnection).runner.sent
          (lateRun OverTrading.startSystem beforeConnection cancelTheSale))) = 5 := by
  refine ⟨lost_orders_hang OverTrading.start_startSystem ?_ cancelTheSale (by decide)
    (affordable_of_volume (by decide)) ⟨by decide, by decide, by decide⟩, by decide⟩
  simp [beforeConnection, Local]

end Example

section Target
variable {firstOrder firstTrade : UInt64} {lost : List Action} {t : System}

end Target

end Nnxt.LostOrders
