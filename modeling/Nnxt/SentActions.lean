import Nnxt.Foundation.Transition
import Nnxt.StrategyRunner

/-!
# What is recorded as sent is what was published

From the moment the action queue is open every batch is recorded and written
together. Before that moment a batch is recorded only: the actions `on_start`
leads to are never written.
-/

namespace Nnxt.SentActions

set_option autoImplicit false

open StrategyRunner ExecutionEngine

def started (config : RunnerConfig) (registered : Except RunnerError Unit)
    (reaction : Reaction) : Outcome Unit :=
  (StrategyRunner.new config).startWithCtx registered reaction ActorContext.new

def session (config : RunnerConfig) (registered : Except RunnerError Unit)
    (reaction : Reaction) : Session :=
  ⟨(started config registered reaction).runner, (started config registered reaction).ctx, true⟩

/-- The queue at `addr` holds what was recorded, but for the actions in `missed`. -/
def Accounted (addr : String) (missed : List Action) (r : StrategyRunner) (ctx : ActorContext) :
    Prop :=
  ∃ written, ctx.published addr = some written ∧ r.sent = missed ++ written

def Recorded (addr : String) (missed : List Action) (r : StrategyRunner) (ctx : ActorContext) :
    Prop :=
  r.actionQueueAddr = some addr ∧ Accounted addr missed r ctx

section Handlers
variable {addr : String} {missed : List Action} {r : StrategyRunner} {ctx : ActorContext}

theorem Recorded.submit (h : Recorded addr missed r ctx) (nowNs : UInt64)
    (intents : List Intent) :
    Recorded addr missed (r.submit nowNs intents ctx).1 (r.submit nowNs intents ctx).2 := by
  obtain ⟨haddr, written, hwritten, hsent⟩ := h
  refine ⟨haddr, _, published_submit haddr hwritten nowNs intents, ?_⟩
  rw [sent_submit, hsent, List.append_assoc]

theorem Recorded.callback (h : Recorded addr missed r ctx) (nowNs : UInt64)
    (calls : List ContextCall) :
    Recorded addr missed (r.callback nowNs calls ctx).1 (r.callback nowNs calls ctx).2 := by
  apply Recorded.submit
  exact h

theorem Recorded.onOrderBook (h : Recorded addr missed r ctx) (book : OrderBook)
    (instrumentId : InstrumentId) (nowNs : UInt64) (calls : List ContextCall) :
    Recorded addr missed (r.onOrderBook book instrumentId nowNs calls ctx).1
      (r.onOrderBook book instrumentId nowNs calls ctx).2 := by
  unfold StrategyRunner.onOrderBook
  split
  · exact h
  · apply Recorded.callback
    exact h

theorem Recorded.onOrderEvent (h : Recorded addr missed r ctx) (event : OrderEvent)
    (nowNs : UInt64) (calls : List ContextCall) :
    Recorded addr missed (r.onOrderEvent event nowNs calls ctx).1
      (r.onOrderEvent event nowNs calls ctx).2 := by
  simp only [StrategyRunner.onOrderEvent]
  split
  · apply Recorded.callback
    exact h
  · exact h

theorem Recorded.onTradeEvent (h : Recorded addr missed r ctx) (event : TradeEvent)
    (nowNs : UInt64) (calls : List ContextCall) :
    Recorded addr missed (r.onTradeEvent event nowNs calls ctx).1
      (r.onTradeEvent event nowNs calls ctx).2 := by
  simp only [StrategyRunner.onTradeEvent]
  split
  · apply Recorded.callback
    exact h
  · exact h

theorem Recorded.fireTimers (h : Recorded addr missed r ctx) (nowNs : UInt64)
    (events : List TimerEvent) (calls : List (List ContextCall)) :
    Recorded addr missed (r.fireTimers nowNs ctx events calls).1
      (r.fireTimers nowNs ctx events calls).2 := by
  induction events generalizing r ctx calls with
  | nil => exact h
  | cons event events ih => exact ih (h.callback nowNs (calls.headD [])) calls.tail

theorem Recorded.tickTimers (h : Recorded addr missed r ctx) (nowNs : UInt64)
    (calls : List (List ContextCall)) :
    Recorded addr missed (r.tickTimers nowNs calls ctx).1 (r.tickTimers nowNs calls ctx).2 := by
  apply Recorded.fireTimers
  exact h

theorem Recorded.handleDataEvent (h : Recorded addr missed r ctx) (sourceId : Nat)
    (payload : Payload) (nowNs : UInt64) (calls : List ContextCall) :
    Recorded addr missed (r.handleDataEvent sourceId payload nowNs calls ctx).1
      (r.handleDataEvent sourceId payload nowNs calls ctx).2 := by
  unfold StrategyRunner.handleDataEvent
  split
  · exact h.onOrderBook _ _ nowNs calls
  · split
    · exact h.onOrderEvent _ nowNs calls
    · split
      · exact h.onTradeEvent _ nowNs calls
      · exact h

end Handlers

section Connecting

/-- Connecting readers leaves alone what this file is about. -/
structure SameWrites (r : StrategyRunner) (ctx : ActorContext) (r' : StrategyRunner)
    (ctx' : ActorContext) : Prop where
  sent : r'.sent = r.sent
  actionQueueAddr : r'.actionQueueAddr = r.actionQueueAddr
  pendingTrade : r'.pendingTrade = r.pendingTrade
  writers : ctx'.writers = ctx.writers

variable {addr : String} {missed : List Action} {r r' : StrategyRunner} {ctx ctx' : ActorContext}

theorem SameWrites.accounted (h : SameWrites r ctx r' ctx') (ha : Accounted addr missed r ctx) :
    Accounted addr missed r' ctx' := by
  obtain ⟨written, hwritten, hsent⟩ := ha
  refine ⟨written, ?_, h.sent.trans hsent⟩
  rw [ActorContext.published, h.writers]
  exact hwritten

theorem SameWrites.readFrom (h : SameWrites r ctx r' ctx') (env : Environment) (queue : String)
    (elementType : ElementType) :
    SameWrites r ctx (r'.readFromWithRetry env queue elementType ctx').runner
      (r'.readFromWithRetry env queue elementType ctx').ctx :=
  ⟨h.sent, h.actionQueueAddr, h.pendingTrade,
    (ctx'.readFrom_writers queue elementType _).trans h.writers⟩

theorem SameWrites.connectSubscription (h : SameWrites r ctx r' ctx') (env : Environment)
    (subscription : QuoteSubscription) :
    SameWrites r ctx (r'.connectSubscription env ctx' subscription).runner
      (r'.connectSubscription env ctx' subscription).ctx := by
  refine Outcome.andThen_keeps h ?_
  intro r₁ ctx₁ queue h₁
  cases subscription.dataType with
  | orderBook =>
    refine Outcome.andThen_keeps (h₁.readFrom env queue .orderBook) ?_
    intro r₂ ctx₂ sourceId h₂
    exact ⟨h₂.sent, h₂.actionQueueAddr, h₂.pendingTrade, h₂.writers⟩

theorem SameWrites.connectEach (h : SameWrites r ctx r' ctx') (env : Environment)
    (subscriptions : List QuoteSubscription) :
    SameWrites r ctx (r'.connectEach env ctx' subscriptions).runner
      (r'.connectEach env ctx' subscriptions).ctx := by
  induction subscriptions generalizing r' ctx' with
  | nil => exact h
  | cons subscription subscriptions ih =>
    refine Outcome.andThen_keeps (h.connectSubscription env subscription) ?_
    intro r₁ ctx₁ _ h₁
    exact ih h₁

theorem sameWrites_connectSubscriptions (r : StrategyRunner) (env : Environment)
    (ctx : ActorContext) :
    SameWrites r ctx (r.connectSubscriptions env ctx).runner
      (r.connectSubscriptions env ctx).ctx := by
  apply SameWrites.connectEach
  exact ⟨rfl, rfl, rfl, rfl⟩

theorem Recorded.readFrom (h : Recorded addr missed r ctx) (env : Environment) (queue : String)
    (elementType : ElementType) :
    Recorded addr missed (r.readFromWithRetry env queue elementType ctx).runner
      (r.readFromWithRetry env queue elementType ctx).ctx :=
  ⟨h.1, (SameWrites.readFrom ⟨rfl, rfl, rfl, rfl⟩ env queue elementType).accounted h.2⟩

/-- A queue opened later is another one. -/
theorem accounted_openActionQueue (h : Accounted addr missed r ctx) (env : Environment)
    (queue : String) :
    Accounted addr missed (r.openActionQueue env queue ctx).runner
      (r.openActionQueue env queue ctx).ctx := by
  refine Outcome.andThen_keeps ?_ fun _ _ _ h₁ => h₁
  obtain ⟨written, hwritten, hsent⟩ := h
  exact ⟨written, ActorContext.published_writeTo_some hwritten, hsent⟩

theorem accounted_openTradeQueues (h : Accounted addr missed r ctx) (env : Environment)
    (tradeGatewayId orderEventQueue tradeEventQueue : String) :
    Accounted addr missed
      (r.openTradeQueues env ctx tradeGatewayId orderEventQueue tradeEventQueue).runner
      (r.openTradeQueues env ctx tradeGatewayId orderEventQueue tradeEventQueue).ctx := by
  refine Outcome.andThen_keeps (accounted_openActionQueue h env _) ?_
  intro r₂ ctx₂ _ h₂
  refine Outcome.andThen_keeps h₂ ?_
  intro r₃ ctx₃ _ h₃
  refine Outcome.andThen_keeps ((SameWrites.readFrom ⟨rfl, rfl, rfl, rfl⟩ env _ _).accounted h₃) ?_
  intro r₄ ctx₄ _ h₄
  refine Outcome.andThen_keeps ((SameWrites.readFrom ⟨rfl, rfl, rfl, rfl⟩ env _ _).accounted h₄) ?_
  exact fun _ _ _ h₅ => h₅

theorem accounted_connectTrade (h : Accounted addr missed r ctx) (env : Environment) :
    Accounted addr missed (r.connectTrade env ctx).runner (r.connectTrade env ctx).ctx := by
  unfold connectTrade
  split
  · exact h
  · simp only
    split
    · refine Outcome.andThen_keeps ?_ ?_
      · exact h
      · exact fun _ _ _ h₁ => accounted_openTradeQueues h₁ env _ _ _
    · apply accounted_openActionQueue
      exact h

theorem accounted_handlePending (h : Recorded addr missed r ctx) (env : Environment)
    (pending : PendingRequests) (nowNs : UInt64) :
    Accounted addr missed (r.handlePending env pending nowNs ctx).runner
      (r.handlePending env pending nowNs ctx).ctx := by
  rw [handlePending_eq]
  refine Outcome.andThen_keeps ?_ fun _ _ _ h₁ => accounted_connectTrade h₁ env
  exact (sameWrites_connectSubscriptions _ env _).accounted (h.submit nowNs pending.intents).2

theorem accounted_pendingCallback (h : Recorded addr missed r ctx) (reaction : Reaction) :
    Accounted addr missed (r.pendingCallback reaction ctx).runner
      (r.pendingCallback reaction ctx).ctx := by
  apply accounted_handlePending
  exact h

end Connecting

end Nnxt.SentActions
