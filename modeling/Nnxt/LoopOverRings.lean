import Nnxt.LoopAtRest
import Nnxt.RingQueue

/-!
# The loop over shared memory

The strategy and the simulated exchange in two processes: the actions go through the
ring the strategy has opened, the events come back through the two rings of the
exchange, which any number of other strategies read as well. As long as none of the
three readers falls more than a ring behind, this is the loop with plain queues.
-/

namespace Nnxt.LoopOverRings

set_option autoImplicit false

open HashMap Transition RingSystem
open OverTrading (Trigger)
open TradingLoop (Exact Affordable ordersOf)

/-- `actionAddr` is what the exchange has been told to read. Both processes are the
readers number 0 of the rings they read. -/
structure System where
  runner : StrategyRunner
  ctx : ActorContext
  actionAddr : String
  simulator : TradeSimulator
  orderRing : RingSystem OrderEvent
  tradeRing : RingSystem TradeEvent

inductive Step where
  | callback (trigger : Trigger) (nowNs : UInt64) (calls : List ContextCall)
  | onData (now₁ now₂ now₃ : UInt64)
  | visitOrders (visitor : Nat) (visit : Visit)
  | visitTrades (visitor : Nat) (visit : Visit)

namespace System

def withHandler (s : System) (after : StrategyRunner × ActorContext) : System :=
  { s with runner := after.1, ctx := after.2 }

/-- An event that has been published is read and handed to the runner. -/
def callback (s : System) (trigger : Trigger) (nowNs : UInt64) (calls : List ContextCall) :
    System :=
  match trigger with
  | .orderBook book source => s.withHandler (s.runner.onOrderBook book source nowNs calls s.ctx)
  | .timer => s.withHandler (s.runner.callback nowNs calls s.ctx)
  | .orderEvent =>
    match s.orderRing.take 0 with
    | (_, none) => s
    | (ring, some event) =>
      { s with orderRing := ring }.withHandler (s.runner.onOrderEvent event nowNs calls s.ctx)
  | .tradeEvent =>
    match s.tradeRing.take 0 with
    | (_, none) => s
    | (ring, some event) =>
      { s with tradeRing := ring }.withHandler (s.runner.onTradeEvent event nowNs calls s.ctx)

def publish (s : System) : TradeGatewayEvent → System
  | .order event => { s with orderRing := s.orderRing.step (.write event) }
  | .trade event => { s with tradeRing := s.tradeRing.step (.write event) }

/-- `on_event` of the exchange when its action source has data. -/
def onData (s : System) (now₁ now₂ now₃ : UInt64) : System :=
  match s.ctx.writers.lookup s.actionAddr with
  | none => s
  | some queue =>
    match queue.take 0 with
    | (_, none) => s
    | (queue, some action) =>
      let (simulator, events) := (s.simulator.sendOrder action now₁ now₂ now₃).pollEvents
      events.foldl publish { s with
        ctx := { s.ctx with writers := s.ctx.writers.insert s.actionAddr queue }
        simulator := simulator }

def step (s : System) : Step → System
  | .callback trigger nowNs calls => s.callback trigger nowNs calls
  | .onData now₁ now₂ now₃ => s.onData now₁ now₂ now₃
  | .visitOrders visitor visit =>
    { s with orderRing := s.orderRing.step (visit.ringStep (visitor + 1)) }
  | .visitTrades visitor visit =>
    { s with tradeRing := s.tradeRing.step (visit.ringStep (visitor + 1)) }

end System

/-- The writer of a ring has counted below 2^64, and its reader number 0 is not lapped. -/
structure KeptUp {T : Type} (ring : RingSystem T) : Prop where
  few : ring.log.length < 2 ^ 64
  inReach : ring.InReach 0

structure AllKeptUp (s : System) : Prop where
  actions : ∀ queue ∈ s.ctx.writers.lookup s.actionAddr, KeptUp queue
  orders : KeptUp s.orderRing
  trades : KeptUp s.tradeRing

instance {T : Type} (ring : RingSystem T) : Decidable (KeptUp ring) :=
  decidable_of_iff (ring.log.length < 2 ^ 64 ∧ ring.InReach 0)
    ⟨fun h => ⟨h.1, h.2⟩, fun h => ⟨h.few, h.inReach⟩⟩

instance (s : System) : Decidable (AllKeptUp s) :=
  decidable_of_iff ((∀ queue ∈ s.ctx.writers.lookup s.actionAddr, KeptUp queue) ∧
      KeptUp s.orderRing ∧ KeptUp s.tradeRing)
    ⟨fun h => ⟨h.1, h.2.1, h.2.2⟩, fun h => ⟨h.actions, h.orders, h.trades⟩⟩

/-- The strategy has opened its action queue and written nothing; the three readers
have just been connected. -/
structure Start (s : System) : Prop where
  state : s.runner.state = RunnerState.default
  sent : s.runner.sent = []
  address : s.runner.actionQueueAddr = some s.actionAddr
  simulator : s.simulator.events = []
  actions : ∃ queue, s.ctx.writers.lookup s.actionAddr = some queue ∧ queue.Joined 0 ∧
    queue.log = []
  orders : s.orderRing.Joined 0
  trades : s.tradeRing.Joined 0

/-- The loop with plain queues a system stands for. -/
structure Mirrors (s : System) (t : OverTrading.System) : Prop where
  address : s.runner.actionQueueAddr = some s.actionAddr
  runner : t.runner = s.runner
  gateway : t.gateway = s.simulator
  handled_le : t.handled ≤ s.runner.sent.length
  actions : ∃ queue, s.ctx.writers.lookup s.actionAddr = some queue ∧ queue.Serving 0 ∧
    queue.log = s.runner.sent ∧ queue.unread 0 = s.runner.sent.drop t.handled
  orders : s.orderRing.Serving 0
  trades : s.tradeRing.Serving 0
  orderQueue : t.orderQueue = s.orderRing.unread 0
  tradeQueue : t.tradeQueue = s.tradeRing.unread 0

/-- What a step does to the loop with plain queues. -/
def loopStep : Step → Option TradingLoop.Step
  | .callback trigger nowNs calls => some (.callback trigger nowNs calls)
  | .onData now₁ now₂ now₃ => some (.answer now₁ now₂ now₃)
  | .visitOrders _ _ | .visitTrades _ _ => none

section Handlers
variable (addr : String) (r : StrategyRunner) (ctx : ActorContext)

/-- What a handler appends to the record of the runner it also writes to its queue. -/
structure Emits (after : StrategyRunner × ActorContext) (actions : List Action) : Prop where
  sent : after.1.sent = r.sent ++ actions
  address : after.1.actionQueueAddr = r.actionQueueAddr
  written : r.actionQueueAddr = some addr → ∀ queue, ctx.writers.lookup addr = some queue →
    after.2.writers.lookup addr = some (queue.writes actions)

variable {r ctx} in
theorem emits_nothing {r' : StrategyRunner} (hsent : r'.sent = r.sent)
    (haddr : r'.actionQueueAddr = r.actionQueueAddr) : Emits addr r ctx (r', ctx) [] where
  sent := by rw [hsent, List.append_nil]
  address := haddr
  written := fun _ _ hqueue => hqueue

variable {addr} in
theorem lookup_publishes (actions : List Action) {ctx : ActorContext} {queue : RingSystem Action}
    (h : ctx.writers.lookup addr = some queue) :
    (actions.foldl (fun ctx action => (ctx.publish addr action).1) ctx).writers.lookup addr =
      some (queue.writes actions) := by
  induction actions generalizing ctx queue with
  | nil => exact h
  | cons action actions ih =>
    have hnext : (ctx.publish addr action).1.writers.lookup addr =
        some (queue.step (.write action)) := by
      rw [ActorContext.publish, h]
      exact AList.lookup_insert _
    exact ih hnext

theorem emits_callback (nowNs : UInt64) (calls : List ContextCall) :
    Emits addr r ctx (r.callback nowNs calls ctx) (r.callbackActions nowNs calls) where
  sent := StrategyRunner.sent_callback r nowNs calls ctx
  address := rfl
  written := by
    intro haddr queue hqueue
    have hintents : ((StrategyContext.new nowNs r.state r.timers).callback calls).intents =
        calls.flatMap fun call => call.intents r.state :=
      StrategyContext.callback_intents (StrategyContext.new nowNs r.state r.timers) calls
    simp only [StrategyRunner.callback, StrategyRunner.submit, StrategyRunner.writeActions,
      StrategyRunner.applyActions, haddr, hintents]
    exact lookup_publishes _ hqueue

theorem emits_onOrderBook (book : OrderBook) (source : InstrumentId) (nowNs : UInt64)
    (calls : List ContextCall) :
    ∃ actions, Emits addr r ctx (r.onOrderBook book source nowNs calls ctx) actions := by
  unfold StrategyRunner.onOrderBook
  split
  · exact ⟨[], emits_nothing addr rfl rfl⟩
  · have h := emits_callback addr { r with state := r.state.updateMarket book } ctx nowNs calls
    exact ⟨_, h.sent, h.address, h.written⟩

theorem emits_onOrderEvent (event : OrderEvent) (nowNs : UInt64) (calls : List ContextCall) :
    ∃ actions, Emits addr r ctx (r.onOrderEvent event nowNs calls ctx) actions := by
  simp only [StrategyRunner.onOrderEvent]
  split
  · have h := emits_callback addr { r with state := (r.state.applyOrderEvent event).1 } ctx nowNs
      calls
    exact ⟨_, h.sent, h.address, h.written⟩
  · exact ⟨[], emits_nothing addr rfl rfl⟩

theorem emits_onTradeEvent (event : TradeEvent) (nowNs : UInt64) (calls : List ContextCall) :
    ∃ actions, Emits addr r ctx (r.onTradeEvent event nowNs calls ctx) actions := by
  simp only [StrategyRunner.onTradeEvent]
  split
  · have h := emits_callback addr { r with state := (r.state.applyTradeEvent event).1 } ctx nowNs
      calls
    exact ⟨_, h.sent, h.address, h.written⟩
  · exact ⟨[], emits_nothing addr rfl rfl⟩

variable {r} in
/-- Nothing of a queue is seen by the runner that writes to it. -/
theorem onOrderBook_ctx (book : OrderBook) (source : InstrumentId) (nowNs : UInt64)
    (calls : List ContextCall) (ctx' : ActorContext) :
    (r.onOrderBook book source nowNs calls ctx').1 = (r.onOrderBook book source nowNs calls ctx).1 := by
  unfold StrategyRunner.onOrderBook
  split <;> rfl

variable {r} in
theorem onOrderEvent_ctx (event : OrderEvent) (nowNs : UInt64) (calls : List ContextCall)
    (ctx' : ActorContext) :
    (r.onOrderEvent event nowNs calls ctx').1 = (r.onOrderEvent event nowNs calls ctx).1 := by
  simp only [StrategyRunner.onOrderEvent]
  split <;> rfl

variable {r} in
theorem onTradeEvent_ctx (event : TradeEvent) (nowNs : UInt64) (calls : List ContextCall)
    (ctx' : ActorContext) :
    (r.onTradeEvent event nowNs calls ctx').1 = (r.onTradeEvent event nowNs calls ctx).1 := by
  simp only [StrategyRunner.onTradeEvent]
  split <;> rfl

end Handlers

section Steps
variable {s : System} {t : OverTrading.System}

theorem foldl_publish (events : List TradeGatewayEvent) (s : System) :
    events.foldl System.publish s =
      { s with
        orderRing := s.orderRing.writes (orderEventsOf events)
        tradeRing := s.tradeRing.writes (tradeEventsOf events) } := by
  induction events generalizing s with
  | nil => rfl
  | cons event events ih =>
    rw [List.foldl_cons, ih]
    cases event <;> rfl

theorem Mirrors.handler (h : Mirrors s t) {after : StrategyRunner × ActorContext}
    {actions : List Action} (hemits : Emits s.actionAddr s.runner s.ctx after actions)
    {after' : StrategyRunner × ActorContext} (hrunner : after'.1 = after.1)
    (hkept : ∀ queue ∈ after.2.writers.lookup s.actionAddr, KeptUp queue) :
    Mirrors (s.withHandler after) (t.withHandler after') := by
  obtain ⟨queue, hqueue, hserving, hlog, hunread⟩ := h.actions
  have hwritten := hemits.written h.address queue hqueue
  obtain ⟨hfew, hreach⟩ := hkept _ hwritten
  obtain ⟨hserving', hunread'⟩ := hserving.writes hfew hreach
  refine ⟨hemits.address.trans h.address, hrunner, h.gateway, ?_, ?_, h.orders, h.trades,
    h.orderQueue, h.tradeQueue⟩
  · simp only [System.withHandler, OverTrading.System.withHandler, hemits.sent,
      List.length_append]
    exact Nat.le_add_right_of_le h.handled_le
  · refine ⟨_, hwritten, hserving', ?_, ?_⟩
    · simp only [System.withHandler, hemits.sent, log_writes, hlog]
    · simp only [System.withHandler, OverTrading.System.withHandler, hemits.sent, hunread', hunread,
        List.drop_append_of_le_length h.handled_le]

theorem Mirrors.tookOrder (h : Mirrors s t) {event : OrderEvent} {rest : List OrderEvent}
    (hqueue : t.orderQueue = event :: rest) :
    (s.orderRing.take 0).2 = some event ∧
      Mirrors { s with orderRing := (s.orderRing.take 0).1 } { t with orderQueue := rest } := by
  rw [h.orderQueue] at hqueue
  obtain ⟨htaken, hunread, hserving⟩ := h.orders.take_cons hqueue
  exact ⟨htaken, h.address, h.runner, h.gateway, h.handled_le, h.actions, hserving, h.trades,
    hunread.symm, h.tradeQueue⟩

theorem Mirrors.tookTrade (h : Mirrors s t) {event : TradeEvent} {rest : List TradeEvent}
    (hqueue : t.tradeQueue = event :: rest) :
    (s.tradeRing.take 0).2 = some event ∧
      Mirrors { s with tradeRing := (s.tradeRing.take 0).1 } { t with tradeQueue := rest } := by
  rw [h.tradeQueue] at hqueue
  obtain ⟨htaken, hunread, hserving⟩ := h.trades.take_cons hqueue
  exact ⟨htaken, h.address, h.runner, h.gateway, h.handled_le, h.actions, h.orders, hserving,
    h.orderQueue, hunread.symm⟩

theorem Mirrors.callback (h : Mirrors s t) (trigger : Trigger) (nowNs : UInt64)
    (calls : List ContextCall) (hkept : AllKeptUp (s.callback trigger nowNs calls)) :
    Mirrors (s.callback trigger nowNs calls) (t.handle trigger nowNs calls) := by
  cases trigger with
  | orderBook book source =>
    obtain ⟨actions, hemits⟩ := emits_onOrderBook s.actionAddr s.runner s.ctx book source nowNs calls
    refine h.handler hemits ?_ hkept.actions
    rw [h.runner]
    exact onOrderBook_ctx s.ctx book source nowNs calls t.ctx
  | timer =>
    refine h.handler (emits_callback s.actionAddr s.runner s.ctx nowNs calls) ?_ hkept.actions
    rw [h.runner]
    rfl
  | orderEvent =>
    cases hqueue : t.orderQueue with
    | nil =>
      have hnone := h.orders.take_nil (h.orderQueue.symm.trans hqueue)
      simp only [System.callback, OverTrading.System.handle, hqueue, hnone]
      exact h
    | cons event rest =>
      obtain ⟨htaken, hnext⟩ := h.tookOrder hqueue
      have hpair : s.orderRing.take 0 = ((s.orderRing.take 0).1, some event) := by rw [← htaken]
      obtain ⟨actions, hemits⟩ := emits_onOrderEvent s.actionAddr s.runner s.ctx event nowNs calls
      rw [System.callback, hpair] at hkept ⊢
      simp only [OverTrading.System.handle, hqueue]
      refine hnext.handler hemits ?_ hkept.actions
      rw [h.runner]
      exact onOrderEvent_ctx s.ctx event nowNs calls t.ctx
  | tradeEvent =>
    cases hqueue : t.tradeQueue with
    | nil =>
      have hnone := h.trades.take_nil (h.tradeQueue.symm.trans hqueue)
      simp only [System.callback, OverTrading.System.handle, hqueue, hnone]
      exact h
    | cons event rest =>
      obtain ⟨htaken, hnext⟩ := h.tookTrade hqueue
      have hpair : s.tradeRing.take 0 = ((s.tradeRing.take 0).1, some event) := by rw [← htaken]
      obtain ⟨actions, hemits⟩ := emits_onTradeEvent s.actionAddr s.runner s.ctx event nowNs calls
      rw [System.callback, hpair] at hkept ⊢
      simp only [OverTrading.System.handle, hqueue]
      refine hnext.handler hemits ?_ hkept.actions
      rw [h.runner]
      exact onTradeEvent_ctx s.ctx event nowNs calls t.ctx

theorem Mirrors.onData (h : Mirrors s t) (now₁ now₂ now₃ : UInt64)
    (hkept : AllKeptUp (s.onData now₁ now₂ now₃)) :
    Mirrors (s.onData now₁ now₂ now₃) (t.answer now₁ now₂ now₃) := by
  obtain ⟨queue, hqueue, hserving, hlog, hunread⟩ := h.actions
  cases hdrop : s.runner.sent.drop t.handled with
  | nil =>
    have hnone := hserving.take_nil (hunread.trans hdrop)
    have hend : t.runner.sent[t.handled]? = none := by
      rw [h.runner, ← List.head?_drop, hdrop, List.head?_nil]
    simp only [System.onData, OverTrading.System.answer, hqueue, hnone, hend]
    exact h
  | cons action rest =>
    obtain ⟨htaken, hrest, hserving'⟩ := hserving.take_cons (hunread.trans hdrop)
    have hpair : queue.take 0 = ((queue.take 0).1, some action) := by rw [← htaken]
    have hnext : t.runner.sent[t.handled]? = some action := by
      rw [h.runner, ← List.head?_drop, hdrop, List.head?_cons]
    have hlt : t.handled < s.runner.sent.length := by
      rw [h.runner] at hnext
      exact (List.getElem?_eq_some_iff.mp hnext).1
    simp only [System.onData, hqueue] at hkept ⊢
    rw [hpair] at hkept ⊢
    simp only [foldl_publish] at hkept ⊢
    simp only [OverTrading.System.answer, hnext, h.gateway]
    obtain ⟨hserveOrders, horders⟩ := h.orders.writes hkept.orders.few hkept.orders.inReach
    obtain ⟨hserveTrades, htrades⟩ := h.trades.writes hkept.trades.few hkept.trades.inReach
    refine ⟨h.address, h.runner, rfl, hlt, ⟨_, AList.lookup_insert _, hserving', ?_, ?_⟩,
      hserveOrders, hserveTrades, ?_, ?_⟩
    · rw [← hlog]
      exact tryRead_log queue 0
    · rw [hrest, ← List.drop_drop, hdrop, List.drop_one, List.tail_cons]
    · rw [horders, h.orderQueue]
    · rw [htrades, h.tradeQueue]

theorem Mirrors.step (h : Mirrors s t) (i : Step) (hkept : AllKeptUp (s.step i)) :
    Mirrors (s.step i) ((loopStep i).toList.foldl TradingLoop.step t) := by
  cases i with
  | callback trigger nowNs calls => exact h.callback trigger nowNs calls hkept
  | onData now₁ now₂ now₃ => exact h.onData now₁ now₂ now₃ hkept
  | visitOrders visitor visit =>
    obtain ⟨hserving, hunread⟩ := h.orders.visit (Nat.zero_ne_add_one visitor) visit
    exact ⟨h.address, h.runner, h.gateway, h.handled_le, h.actions, hserving, h.trades,
      h.orderQueue.trans hunread.symm, h.tradeQueue⟩
  | visitTrades visitor visit =>
    obtain ⟨hserving, hunread⟩ := h.trades.visit (Nat.zero_ne_add_one visitor) visit
    exact ⟨h.address, h.runner, h.gateway, h.handled_le, h.actions, h.orders, hserving,
      h.orderQueue, h.tradeQueue.trans hunread.symm⟩

theorem Mirrors.run (h : Mirrors s t) {is : List Step}
    (hkept : Always System.step AllKeptUp s is) :
    Mirrors (run System.step s is) (run TradingLoop.step t (is.filterMap loopStep)) := by
  induction is generalizing s t with
  | nil => exact h
  | cons i is ih =>
    obtain ⟨-, hrest⟩ := always_cons.mp hkept
    have hnext := ih (h.step i (hrest [] List.nil_prefix)) hrest
    rw [run_cons]
    cases hi : loopStep i with
    | none =>
      rw [hi] at hnext
      rw [List.filterMap_cons_none hi]
      exact hnext
    | some j =>
      rw [hi] at hnext
      rw [List.filterMap_cons_some hi, run_cons]
      exact hnext

end Steps

section Runs
variable {s : System}

end Runs

section Example

end Example

end Nnxt.LoopOverRings
