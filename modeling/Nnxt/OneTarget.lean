import Nnxt.Foundation.Transition
import Nnxt.StrategyRunner
import Nnxt.TradeSimulator

/-!
# One target, one order

A strategy that asks for one fixed position, the simulated gateway, and the two
queues between them. What has been ordered counts once as long as the trade and
the order events of a fill are seen together; between the two deliveries the
fill counts for nothing or twice, and an intent submitted there orders again.
-/

namespace Nnxt.OverTrading

set_option autoImplicit false

open HashMap FixedWidth OrderManager

/-- Calls that submit at most one intent, the target position. -/
structure TargetCalls (instrumentId : InstrumentId) (target : Int64) where
  calls : List ContextCall
  submission : Option (PriceType × Price)
  submits : ∀ state, (calls.flatMap fun call => call.intents state) =
    submission.toList.map fun terms =>
      .targetPosition ⟨instrumentId, target, terms.1, terms.2⟩

/-- `sent` of the runner is what was emitted; `handled` of it has been answered. -/
structure System where
  runner : StrategyRunner
  ctx : ActorContext
  handled : Nat
  gateway : TradeSimulator
  orderQueue : List OrderEvent
  tradeQueue : List TradeEvent

inductive Trigger where
  | orderBook (book : OrderBook) (source : InstrumentId)
  | timer
  | orderEvent
  | tradeEvent

inductive Step (instrumentId : InstrumentId) (target : Int64) where
  | callback (trigger : Trigger) (nowNs : UInt64) (calls : TargetCalls instrumentId target)
  | answer (now₁ now₂ now₃ : UInt64)

namespace System

def withHandler (s : System) (after : StrategyRunner × ActorContext) : System :=
  { s with runner := after.1, ctx := after.2 }

/-- The gateway takes the next action and publishes its events on the two queues. -/
def answer (s : System) (now₁ now₂ now₃ : UInt64) : System :=
  match s.runner.sent[s.handled]? with
  | none => s
  | some action =>
    let (gateway, events) := (s.gateway.sendOrder action now₁ now₂ now₃).pollEvents
    { s with
      handled := s.handled + 1
      gateway := gateway
      orderQueue := s.orderQueue ++ orderEventsOf events
      tradeQueue := s.tradeQueue ++ tradeEventsOf events }

/-- A timer callback is one pass of the loop of `tick_timers`. -/
def handle (s : System) (trigger : Trigger) (nowNs : UInt64) (calls : List ContextCall) : System :=
  match trigger with
  | .orderBook book source => s.withHandler (s.runner.onOrderBook book source nowNs calls s.ctx)
  | .timer => s.withHandler (s.runner.callback nowNs calls s.ctx)
  | .orderEvent =>
    match s.orderQueue with
    | [] => s
    | event :: rest =>
      { s with orderQueue := rest }.withHandler (s.runner.onOrderEvent event nowNs calls s.ctx)
  | .tradeEvent =>
    match s.tradeQueue with
    | [] => s
    | event :: rest =>
      { s with tradeQueue := rest }.withHandler (s.runner.onTradeEvent event nowNs calls s.ctx)

def step {instrumentId : InstrumentId} {target : Int64} (s : System) :
    Step instrumentId target → System
  | .callback trigger nowNs calls => s.handle trigger nowNs calls.calls
  | .answer now₁ now₂ now₃ => s.answer now₁ now₂ now₃

def withState (s : System) (state : RunnerState) : System :=
  { s with runner := { s.runner with state := state } }

/-- The state a callback finds, with its event applied; `none` if it is not called. -/
def received (s : System) : Trigger → Option System
  | .orderBook book source =>
    if book.instrumentId ≠ source then none
    else some (s.withState (s.runner.state.updateMarket book))
  | .timer => some s
  | .orderEvent =>
    match s.orderQueue with
    | [] => none
    | event :: rest =>
      if (s.runner.state.applyOrderEvent event).2 then
        some ({ s with orderQueue := rest }.withState (s.runner.state.applyOrderEvent event).1)
      else none
  | .tradeEvent =>
    match s.tradeQueue with
    | [] => none
    | event :: rest =>
      if (s.runner.state.applyTradeEvent event).2 then
        some ({ s with tradeQueue := rest }.withState (s.runner.state.applyTradeEvent event).1)
      else none

end System

structure Start (s : System) : Prop where
  state : s.runner.state = RunnerState.default
  sent : s.runner.sent = []
  handled : s.handled = 0
  gateway : s.gateway.events = []
  orderQueue : s.orderQueue = []
  tradeQueue : s.tradeQueue = []

def ordered (s : System) : Int := (s.runner.sent.map Action.signedQuantity).sum

def NoOverTrading (target : Int64) (s : System) : Prop :=
  s.runner.sent = [] ∨ ordered s = target.toInt

/-- No fill is known from one queue only: a trade still queued has its `Filled`
event queued too, and a `Filled` event still queued has its trade queued too, or
comes for an order that is finished already. -/
def Settled (s : System) : Prop :=
  (∀ trade ∈ s.tradeQueue, ∃ event ∈ s.orderQueue,
    event.orderId = trade.orderId ∧ event.status = .filled) ∧
  ∀ event ∈ s.orderQueue, event.status = .filled →
    (∃ trade ∈ s.tradeQueue, trade.orderId = event.orderId) ∨
      s.runner.state.Finished event.orderId

def SubmitsSettled {instrumentId : InstrumentId} {target : Int64} (s : System) :
    Step instrumentId target → Prop
  | .callback trigger _ calls => calls.submission.isSome → ∀ t ∈ s.received trigger, Settled t
  | .answer _ _ _ => True

instance (s : System) : Decidable (Settled s) := inferInstanceAs (Decidable (_ ∧ _))

instance (target : Int64) (s : System) : Decidable (NoOverTrading target s) :=
  inferInstanceAs (Decidable (_ ∨ _))

section Callback
variable {instrumentId : InstrumentId} {target : Int64} {s t : System} {trigger : Trigger}

theorem handle_received (h : s.received trigger = some t) (nowNs : UInt64)
    (calls : List ContextCall) :
    s.handle trigger nowNs calls = t.withHandler (t.runner.callback nowNs calls t.ctx) := by
  cases trigger with
  | orderBook book source =>
    simp only [System.received] at h
    split at h
    · cases h
    · rename_i hsource
      cases h
      simp only [System.handle, StrategyRunner.onOrderBook, if_neg hsource]
      rfl
  | timer =>
    cases h
    rfl
  | orderEvent =>
    simp only [System.received] at h
    split at h
    · cases h
    · rename_i hqueue
      split at h
      · rename_i haccepted
        cases h
        simp only [System.handle, hqueue, StrategyRunner.onOrderEvent, if_pos haccepted]
        rfl
      · cases h
  | tradeEvent =>
    simp only [System.received] at h
    split at h
    · cases h
    · rename_i hqueue
      split at h
      · rename_i haccepted
        cases h
        simp only [System.handle, hqueue, StrategyRunner.onTradeEvent, if_pos haccepted]
        rfl
      · cases h

/-- Nothing is emitted when the target is met or not asked for. -/
theorem callbackActions_of_silent {r : StrategyRunner} (nowNs : UInt64)
    {calls : TargetCalls instrumentId target}
    (h : calls.submission.isSome → r.state.effectivePosition instrumentId = target) :
    r.callbackActions nowNs calls.calls = [] := by
  rw [StrategyRunner.callbackActions, calls.submits]
  cases hsub : calls.submission with
  | none => rfl
  | some terms =>
    rw [hsub] at h
    simp only [Option.toList_some, List.map_cons, List.map_nil,
      ExecutionEngine.execute_targetPosition]
    have hmet := @ExecutionEngine.targetPositionActions_of_met r.engine
      ⟨instrumentId, target, terms.1, terms.2⟩ r.state nowNs (h rfl)
    rw [hmet]

/-- An intent away from the target emits one order for the difference. -/
theorem callbackActions_of_missed {r : StrategyRunner} (nowNs : UInt64)
    {calls : TargetCalls instrumentId target} (hsub : calls.submission.isSome)
    (h : r.state.effectivePosition instrumentId ≠ target) :
    ∃ order, r.callbackActions nowNs calls.calls = [.ofNewOrder order] ∧
      order.Covers instrumentId
        (saturatingSubI64 target (r.state.effectivePosition instrumentId)) := by
  obtain ⟨terms, hterms⟩ := Option.isSome_iff_exists.mp hsub
  rw [StrategyRunner.callbackActions, calls.submits, hterms]
  simp only [Option.toList_some, List.map_cons, List.map_nil,
    ExecutionEngine.execute_targetPosition]
  have hmissed := @ExecutionEngine.targetPositionActions_of_missed r.engine
    ⟨instrumentId, target, terms.1, terms.2⟩ r.state nowNs h
  rw [hmissed]
  exact ⟨_, rfl, ExecutionEngine.covers_targetOrder _ _ _ _⟩

end Callback

end Nnxt.OverTrading
