import Nnxt.RunnerTrace

/-!
# Handlers as runs of their calls

One step of the view for every call, with what the code guarantees where it makes
the call. Every handler of the runner is a run of allowed calls that ends where the
handler ends.
-/

namespace Nnxt

set_option autoImplicit false

open HashMap Transition

/-- What the calls change. `nextOrderId` is the id of the next new order to be applied. -/
structure RunnerView where
  state : RunnerState
  queues : TypedContext
  nextOrderId : UInt64
  quoteSources : List QuoteSource
  orderEventSourceId : Option Nat
  tradeEventSourceId : Option Nat
  actionQueueAddr : Option String

namespace RunnerView

/-- A new runner and a new context. -/
def new : RunnerView := ⟨RunnerState.default, TypedContext.new, 1, [], none, none, none⟩

def step (v : RunnerView) : RunnerCall → RunnerView
  | .updateMarket book => { v with state := v.state.updateMarket book }
  | .applyOrderEvent event => { v with state := (v.state.applyOrderEvent event).1 }
  | .applyTradeEvent event => { v with state := (v.state.applyTradeEvent event).1 }
  | .onActionSent action nowNs =>
    { v with
      state := v.state.onActionSent action nowNs
      nextOrderId := if action.kind = .newOrder then v.nextOrderId + 1 else v.nextOrderId }
  | .queue call => { v with queues := v.queues.step call }
  | .keepQuoteSource source => { v with quoteSources := v.quoteSources ++ [source] }
  | .keepOrderEventSource sourceId => { v with orderEventSourceId := some sourceId }
  | .keepTradeEventSource sourceId => { v with tradeEventSourceId := some sourceId }
  | .keepActionQueue addr => { v with actionQueueAddr := some addr }

/-- The field a cast has been looked up in. -/
def Keeps (v : RunnerView) (sourceId : Nat) : ElementType → Prop
  | .orderBook => ∃ source ∈ v.quoteSources, source.sourceId = sourceId
  | .orderEvent => v.orderEventSourceId = some sourceId
  | .tradeEvent => v.tradeEventSourceId = some sourceId
  | .action => False

/-- What the code guarantees where it makes a call. -/
def Allowed (v : RunnerView) : RunnerCall → Prop
  | .onActionSent action _ => action.kind = .newOrder → action.newOrder.orderId = v.nextOrderId
  | .queue (.cast sourceId elementType) => v.Keeps sourceId elementType
  | .queue (.publish addr elementType _) => v.actionQueueAddr = some addr ∧ elementType = .action
  | .queue (.writeTo _ elementType _ _) => elementType = .action
  | .keepQuoteSource source => v.queues.ConnectedAt source.sourceId .orderBook
  | .keepOrderEventSource sourceId => v.queues.ConnectedAt sourceId .orderEvent
  | .keepTradeEventSource sourceId => v.queues.ConnectedAt sourceId .tradeEvent
  | .keepActionQueue addr => v.queues.CreatedAt addr .action
  | _ => True

structure Shows (v : RunnerView) (r : StrategyRunner) (ctx : ActorContext) : Prop where
  state : v.state = r.state
  ctx : v.queues.ctx = ctx
  nextOrderId : v.nextOrderId = r.engine.counter
  quoteSources : v.quoteSources = r.quoteSources
  orderEventSourceId : v.orderEventSourceId = r.orderEventSourceId
  tradeEventSourceId : v.tradeEventSourceId = r.tradeEventSourceId
  actionQueueAddr : v.actionQueueAddr = r.actionQueueAddr

/-- A runner as it is, and a new context. -/
def ofRunner (r : StrategyRunner) : RunnerView :=
  ⟨r.state, TypedContext.new, r.engine.counter, r.quoteSources, r.orderEventSourceId,
    r.tradeEventSourceId, r.actionQueueAddr⟩

theorem shows_ofRunner (r : StrategyRunner) : (ofRunner r).Shows r ActorContext.new :=
  ⟨rfl, rfl, rfl, rfl, rfl, rfl, rfl⟩

theorem shows_new (config : RunnerConfig) : new.Shows (StrategyRunner.new config) ActorContext.new :=
  ⟨rfl, rfl, rfl, rfl, rfl, rfl, rfl⟩

/-- The calls are allowed and lead from one runner and context to the other. -/
def Does (r : StrategyRunner) (ctx : ActorContext) (calls : List RunnerCall) (r' : StrategyRunner)
    (ctx' : ActorContext) : Prop :=
  ∀ v : RunnerView, v.Shows r ctx →
    Guarded step Allowed v calls ∧ (run step v calls).Shows r' ctx'

/-- The new orders among the actions are numbered from one counter to the other. -/
def Issues : UInt64 → List Action → UInt64 → Prop
  | counter, [], counter' => counter = counter'
  | counter, action :: actions, counter' =>
    (action.kind = .newOrder → action.newOrder.orderId = counter) ∧
      Issues (if action.kind = .newOrder then counter + 1 else counter) actions counter'

section Issuing

theorem Issues.append {counter counter' counter'' : UInt64} {actions actions' : List Action}
    (h : Issues counter actions counter') (h' : Issues counter' actions' counter'') :
    Issues counter (actions ++ actions') counter'' := by
  induction actions generalizing counter with
  | nil =>
    cases h
    exact h'
  | cons action actions ih => exact ⟨h.1, ih h.2⟩

theorem issues_newOrder {e : ExecutionEngine} {order : NewOrder} (h : order.orderId = e.counter) :
    Issues e.counter [.ofNewOrder order] e.nextId.1.counter :=
  ⟨fun _ => h, rfl⟩

theorem issues_targetOrders (e : ExecutionEngine) (instrumentId : InstrumentId) (nowNs : UInt64)
    (orders : List TargetOrder) :
    Issues e.counter (e.targetOrdersActions instrumentId nowNs orders).2
      (e.targetOrdersActions instrumentId nowNs orders).1.counter := by
  induction orders generalizing e with
  | nil => rfl
  | cons order orders ih => exact ⟨fun _ => rfl, ih (e.buildOrder instrumentId order nowNs).1⟩

theorem issues_intent (e : ExecutionEngine) (intent : Intent) (state : RunnerState)
    (nowNs : UInt64) :
    Issues e.counter (e.intentActions intent state nowNs).2
      (e.intentActions intent state nowNs).1.counter := by
  cases intent with
  | targetPosition intent =>
    by_cases hmet : state.effectivePosition intent.instrumentId = intent.targetQuantity
    · rw [ExecutionEngine.intentActions, e.targetPositionActions_of_met nowNs hmet]
      rfl
    · rw [ExecutionEngine.intentActions, e.targetPositionActions_of_missed nowNs hmet]
      exact issues_newOrder rfl
  | targetOrders intent => exact issues_targetOrders e intent.instrumentId nowNs intent.orders
  | cancelOrder intent =>
    refine ⟨fun h => ?_, rfl⟩
    cases h

/-- `execute` numbers the new orders of all its intents. -/
theorem issues_execute (e : ExecutionEngine) (intents : List Intent) (state : RunnerState)
    (nowNs : UInt64) :
    Issues e.counter (e.execute intents state nowNs).2 (e.execute intents state nowNs).1.counter := by
  induction intents generalizing e with
  | nil => rfl
  | cons intent intents ih =>
    rw [ExecutionEngine.execute_cons]
    exact (issues_intent e intent state nowNs).append (ih _)

end Issuing

section Composing
variable {r r' r'' : StrategyRunner} {ctx ctx' ctx'' : ActorContext} {calls calls' : List RunnerCall}

theorem does_nil (r : StrategyRunner) (ctx : ActorContext) : Does r ctx [] r ctx :=
  fun _ h => ⟨guarded_nil, h⟩

theorem Does.append (h : Does r ctx calls r' ctx') (h' : Does r' ctx' calls' r'' ctx'') :
    Does r ctx (calls ++ calls') r'' ctx'' := by
  intro v hshows
  obtain ⟨hguarded, hend⟩ := h v hshows
  obtain ⟨hguarded', hend'⟩ := h' _ hend
  rw [run_append]
  exact ⟨guarded_append.mpr ⟨hguarded, hguarded'⟩, hend'⟩

/-- One call and the calls after it. -/
theorem does_cons {call : RunnerCall} (hallowed : ∀ v : RunnerView, v.Shows r ctx → v.Allowed call)
    (hstep : ∀ v : RunnerView, v.Shows r ctx → (v.step call).Shows r' ctx')
    (h : Does r' ctx' calls r'' ctx'') : Does r ctx (call :: calls) r'' ctx'' := by
  intro v hshows
  obtain ⟨hguarded, hend⟩ := h _ (hstep v hshows)
  exact ⟨guarded_cons.mpr ⟨hallowed v hshows, hguarded⟩, hend⟩

/-- The calls see of the runner only what the view shows. -/
theorem Does.of_shows (h : ∀ v : RunnerView, v.Shows r ctx → v.Shows r' ctx)
    (h' : Does r' ctx calls r'' ctx'') : Does r ctx calls r'' ctx'' :=
  fun v hshows => h' v (h v hshows)

theorem does_followed {α β : Type} {o : Outcome α}
    {next : StrategyRunner → ActorContext → α → Outcome β}
    {nextCalls : StrategyRunner → ActorContext → α → List RunnerCall}
    (h : ∀ value, o.result = .ok value → Does o.runner o.ctx (nextCalls o.runner o.ctx value)
      (next o.runner o.ctx value).runner (next o.runner o.ctx value).ctx) :
    Does o.runner o.ctx (o.followed nextCalls) (o.andThen next).runner (o.andThen next).ctx := by
  cases hresult : o.result with
  | error error =>
    simp only [Outcome.followed, Outcome.andThen, hresult]
    exact does_nil o.runner o.ctx
  | ok value =>
    simp only [Outcome.followed, Outcome.andThen, hresult]
    exact h value hresult

end Composing

section Submitting
variable (r : StrategyRunner) (nowNs : UInt64)

/-- Applying the actions in order, each with the next id if it is a new order. -/
theorem does_apply (ctx : ActorContext) (engine : ExecutionEngine) (actions : List Action)
    (h : Issues r.engine.counter actions engine.counter) :
    Does r ctx (actions.map (.onActionSent · nowNs))
      ({ r with engine := engine }.applyActions nowNs actions) ctx := by
  suffices hview : ∀ (actions : List Action) (v : RunnerView),
      Issues v.nextOrderId actions engine.counter →
      Guarded step Allowed v (actions.map (.onActionSent · nowNs)) ∧
        run step v (actions.map (.onActionSent · nowNs)) =
          { v with
            state := actions.foldl (fun state action => state.onActionSent action nowNs) v.state
            nextOrderId := engine.counter } by
    intro v hshows
    rw [← hshows.nextOrderId] at h
    obtain ⟨hguarded, hrun⟩ := hview actions v h
    rw [hrun, hshows.state]
    exact ⟨hguarded, rfl, hshows.ctx, rfl, hshows.quoteSources, hshows.orderEventSourceId,
      hshows.tradeEventSourceId, hshows.actionQueueAddr⟩
  intro actions
  induction actions with
  | nil =>
    intro v hissues
    have hcounter : v.nextOrderId = engine.counter := hissues
    exact ⟨guarded_nil, by rw [← hcounter]; rfl⟩
  | cons action actions ih =>
    intro v hissues
    obtain ⟨hguarded, hrun⟩ := ih (v.step (.onActionSent action nowNs)) hissues.2
    exact ⟨guarded_cons.mpr ⟨hissues.1, hguarded⟩, hrun⟩

theorem does_write (actions : List Action) (ctx : ActorContext) :
    Does r ctx (r.writeCalls actions) r (r.writeActions actions ctx) := by
  unfold StrategyRunner.writeCalls StrategyRunner.writeActions
  cases haddr : r.actionQueueAddr with
  | none => exact does_nil r ctx
  | some addr =>
    dsimp only
    induction actions generalizing ctx with
    | nil => exact does_nil r ctx
    | cons action actions ih =>
      refine does_cons ?_ ?_ (ih (ctx.publish addr action).1)
      · intro v hshows
        exact ⟨hshows.actionQueueAddr.trans haddr, rfl⟩
      · intro v hshows
        exact { hshows with ctx := by rw [← hshows.ctx]; rfl }

theorem does_submit (intents : List Intent) (ctx : ActorContext) :
    Does r ctx (r.submitCalls nowNs intents) (r.submit nowNs intents ctx).1
      (r.submit nowNs intents ctx).2 := by
  have happly := does_apply r nowNs ctx (r.engine.execute intents r.state nowNs).1 _
    (issues_execute r.engine intents r.state nowNs)
  exact happly.append (does_write _ _ ctx)

end Submitting

section Events
variable (r : StrategyRunner) (nowNs : UInt64)

theorem does_callback (calls : List ContextCall) (ctx : ActorContext) :
    Does r ctx (r.callbackCalls nowNs calls) (r.callback nowNs calls ctx).1
      (r.callback nowNs calls ctx).2 := by
  let strategy := (StrategyContext.new nowNs r.state r.timers).callback calls
  have hsubmit := does_submit { r with timers := strategy.timers } nowNs strategy.intents ctx
  refine Does.of_shows ?_ hsubmit
  intro v hshows
  exact { hshows with }

theorem does_onOrderBook (book : OrderBook) (instrumentId : InstrumentId)
    (calls : List ContextCall) (ctx : ActorContext) :
    Does r ctx (r.orderBookCalls book instrumentId nowNs calls)
      (r.onOrderBook book instrumentId nowNs calls ctx).1
      (r.onOrderBook book instrumentId nowNs calls ctx).2 := by
  unfold StrategyRunner.orderBookCalls StrategyRunner.onOrderBook
  split
  · exact does_nil r ctx
  · refine does_cons (fun _ _ => trivial) ?_ (does_callback _ nowNs calls ctx)
    intro v hshows
    exact { hshows with state := by rw [← hshows.state]; rfl }

theorem does_onOrderEvent (event : OrderEvent) (calls : List ContextCall) (ctx : ActorContext) :
    Does r ctx (r.orderEventCalls event nowNs calls) (r.onOrderEvent event nowNs calls ctx).1
      (r.onOrderEvent event nowNs calls ctx).2 := by
  have hstep : ∀ v : RunnerView, v.Shows r ctx → (v.step (.applyOrderEvent event)).Shows
      { r with state := (r.state.applyOrderEvent event).1 } ctx := by
    intro v hshows
    exact { hshows with state := by rw [← hshows.state]; rfl }
  simp only [StrategyRunner.orderEventCalls, StrategyRunner.onOrderEvent]
  split
  · exact does_cons (fun _ _ => trivial) hstep (does_callback _ nowNs calls ctx)
  · exact does_cons (fun _ _ => trivial) hstep (does_nil _ ctx)

theorem does_onTradeEvent (event : TradeEvent) (calls : List ContextCall) (ctx : ActorContext) :
    Does r ctx (r.tradeEventCalls event nowNs calls) (r.onTradeEvent event nowNs calls ctx).1
      (r.onTradeEvent event nowNs calls ctx).2 := by
  have hstep : ∀ v : RunnerView, v.Shows r ctx → (v.step (.applyTradeEvent event)).Shows
      { r with state := (r.state.applyTradeEvent event).1 } ctx := by
    intro v hshows
    exact { hshows with state := by rw [← hshows.state]; rfl }
  simp only [StrategyRunner.tradeEventCalls, StrategyRunner.onTradeEvent]
  split
  · exact does_cons (fun _ _ => trivial) hstep (does_callback _ nowNs calls ctx)
  · exact does_cons (fun _ _ => trivial) hstep (does_nil _ ctx)

theorem does_fireTimers (r : StrategyRunner) (events : List TimerEvent)
    (calls : List (List ContextCall)) (ctx : ActorContext) :
    Does r ctx (r.fireCalls nowNs ctx events calls) (r.fireTimers nowNs ctx events calls).1
      (r.fireTimers nowNs ctx events calls).2 := by
  induction events generalizing r ctx calls with
  | nil => exact does_nil r ctx
  | cons event events ih =>
    exact (does_callback r nowNs (calls.headD []) ctx).append (ih _ calls.tail _)

theorem does_tickTimers (calls : List (List ContextCall)) (ctx : ActorContext) :
    Does r ctx (r.tickCalls nowNs calls ctx) (r.tickTimers nowNs calls ctx).1
      (r.tickTimers nowNs calls ctx).2 := by
  have hfire := does_fireTimers nowNs { r with timers := (r.timers.dueTimers nowNs).1 }
    (r.timers.dueTimers nowNs).2 calls ctx
  refine Does.of_shows ?_ hfire
  intro v hshows
  exact { hshows with }

/-- A cast reads and changes nothing. -/
theorem does_cast {r' : StrategyRunner} {ctx ctx' : ActorContext} {calls : List RunnerCall}
    {sourceId : Nat} {elementType : ElementType}
    (hkeeps : ∀ v : RunnerView, v.Shows r ctx → v.Keeps sourceId elementType)
    (h : Does r ctx calls r' ctx') :
    Does r ctx (.queue (.cast sourceId elementType) :: calls) r' ctx' :=
  does_cons hkeeps (fun _ hshows => { hshows with }) h

theorem does_handleDataEvent (sourceId : Nat) (payload : Payload) (calls : List ContextCall)
    (ctx : ActorContext) :
    Does r ctx (r.dataCalls sourceId payload nowNs calls)
      (r.handleDataEvent sourceId payload nowNs calls ctx).1
      (r.handleDataEvent sourceId payload nowNs calls ctx).2 := by
  unfold StrategyRunner.dataCalls StrategyRunner.handleDataEvent
  cases hfind : r.quoteSources.find? fun source => source.sourceId = sourceId with
  | some source =>
    refine does_cast r ?_ (does_onOrderBook r nowNs _ _ calls ctx)
    intro v hshows
    have hid : source.sourceId = sourceId := by simpa using List.find?_some hfind
    exact ⟨source, hshows.quoteSources ▸ List.mem_of_find?_eq_some hfind, hid⟩
  | none =>
    dsimp only
    by_cases horder : some sourceId = r.orderEventSourceId
    · rw [if_pos horder, if_pos horder]
      refine does_cast r ?_ (does_onOrderEvent r nowNs _ calls ctx)
      exact fun v hshows => hshows.orderEventSourceId.trans horder.symm
    rw [if_neg horder, if_neg horder]
    by_cases htrade : some sourceId = r.tradeEventSourceId
    · rw [if_pos htrade, if_pos htrade]
      refine does_cast r ?_ (does_onTradeEvent r nowNs _ calls ctx)
      exact fun v hshows => hshows.tradeEventSourceId.trans htrade.symm
    · rw [if_neg htrade, if_neg htrade]
      exact does_nil r ctx

end Events

section Connecting
variable (r : StrategyRunner) (env : Environment) (ctx : ActorContext)

/-- What follows a `read_from` may rely on the reader behind the id. -/
theorem does_read {β : Type} (addr : String) (elementType : ElementType)
    {next : StrategyRunner → ActorContext → Nat → Outcome β}
    {nextCalls : StrategyRunner → ActorContext → Nat → List RunnerCall}
    (h : ∀ ctx' sourceId,
      (∀ v : RunnerView, v.Shows r ctx' → v.queues.ConnectedAt sourceId elementType) →
      Does r ctx' (nextCalls r ctx' sourceId) (next r ctx' sourceId).runner
        (next r ctx' sourceId).ctx) :
    Does r ctx (r.readCalls env ctx addr elementType nextCalls)
      ((r.readFromWithRetry env addr elementType ctx).andThen next).runner
      ((r.readFromWithRetry env addr elementType ctx).andThen next).ctx := by
  refine does_cons (fun _ _ => trivial) ?_ (does_followed ?_)
  · intro v hshows
    exact { hshows with ctx := by rw [← hshows.ctx]; rfl }
  · intro sourceId hresult
    apply h
    intro v hshows
    have hread : (ctx.readFrom addr elementType (env.opened addr)).2 = .ok sourceId :=
      mapError_ok hresult
    unfold TypedContext.ConnectedAt
    rw [hshows.ctx]
    exact @TypedContext.connectedAt_readFrom ⟨ctx, v.queues.writerTypes⟩ _ _ _ _ hread

theorem does_connectSubscription (subscription : QuoteSubscription) :
    Does r ctx (r.subscriptionCalls env ctx subscription)
      (r.connectSubscription env ctx subscription).runner
      (r.connectSubscription env ctx subscription).ctx := by
  refine @does_followed _ _ ⟨r, ctx, r.marketAddr env subscription.source⟩ _ _ ?_
  intro addr _
  cases subscription.dataType
  refine does_read r env ctx addr .orderBook ?_
  intro ctx' sourceId hconnected
  refine does_cons hconnected ?_ (does_nil _ ctx')
  intro v hshows
  exact { hshows with quoteSources := by rw [← hshows.quoteSources]; rfl }

theorem does_connectEach (r : StrategyRunner) (ctx : ActorContext)
    (subscriptions : List QuoteSubscription) :
    Does r ctx (r.eachCalls env ctx subscriptions) (r.connectEach env ctx subscriptions).runner
      (r.connectEach env ctx subscriptions).ctx := by
  induction subscriptions generalizing r ctx with
  | nil => exact does_nil r ctx
  | cons subscription subscriptions ih =>
    refine (does_connectSubscription r env ctx subscription).append (does_followed ?_)
    intro _ _
    exact ih _ _

/-- The address is kept once a writer of actions has been created there. -/
theorem does_openActionQueue (addr : String) :
    Does r ctx (r.actionQueueCalls env ctx addr) (r.openActionQueue env addr ctx).runner
      (r.openActionQueue env addr ctx).ctx := by
  intro v hshows
  have hopen : (v.step (.queue (.writeTo addr .action r.actionQueueCapacity (env.opened addr)))).Shows
      r (ctx.writeTo addr r.actionQueueCapacity (env.opened addr)).1 :=
    { hshows with ctx := by rw [← hshows.ctx]; rfl }
  unfold StrategyRunner.actionQueueCalls StrategyRunner.openActionQueue
  cases hresult : (ctx.writeTo addr r.actionQueueCapacity (env.opened addr)).2 with
  | error error =>
    simp only [Outcome.followed, Outcome.andThen, hresult, Except.mapError]
    exact ⟨guarded_cons.mpr ⟨rfl, guarded_nil⟩, hopen⟩
  | ok _ =>
    simp only [Outcome.followed, Outcome.andThen, hresult, Except.mapError]
    have hcreated : (v.step (.queue (.writeTo addr .action r.actionQueueCapacity
        (env.opened addr)))).queues.CreatedAt addr .action := by
      apply TypedContext.createdAt_writeTo
      rw [hshows.ctx]
      exact hresult
    refine ⟨guarded_cons.mpr ⟨rfl, guarded_cons.mpr ⟨hcreated, guarded_nil⟩⟩, ?_⟩
    exact { hopen with actionQueueAddr := rfl }

theorem does_openTradeQueues (tradeGatewayId orderEventQueue tradeEventQueue : String) :
    Does r ctx (r.tradeQueueCalls env ctx tradeGatewayId orderEventQueue tradeEventQueue)
      (r.openTradeQueues env ctx tradeGatewayId orderEventQueue tradeEventQueue).runner
      (r.openTradeQueues env ctx tradeGatewayId orderEventQueue tradeEventQueue).ctx := by
  refine (does_openActionQueue r env ctx _).append (does_followed fun _ _ => ?_)
  refine @does_followed _ _ ⟨_, _, (env.registerQueue _ _ _).mapError .master⟩ _ _ fun _ _ => ?_
  refine does_read _ env _ orderEventQueue .orderEvent ?_
  intro ctx' orderSourceId horders
  refine does_cons horders ?_ (does_read _ env ctx' tradeEventQueue .tradeEvent ?_)
  · intro v hshows
    exact { hshows with orderEventSourceId := rfl }
  · intro ctx'' tradeSourceId htrades
    refine does_cons htrades ?_ (does_nil _ ctx'')
    intro v hshows
    exact { hshows with tradeEventSourceId := rfl }

theorem does_connectTrade :
    Does r ctx (r.tradeCalls env ctx) (r.connectTrade env ctx).runner
      (r.connectTrade env ctx).ctx := by
  unfold StrategyRunner.tradeCalls StrategyRunner.connectTrade
  cases r.pendingTrade with
  | none => exact does_nil r ctx
  | some trade =>
    have hnone : ∀ v : RunnerView, v.Shows r ctx → v.Shows { r with pendingTrade := none } ctx := by
      intro v hshows
      exact { hshows with }
    dsimp only
    split
    · refine Does.of_shows hnone ?_
      refine @does_followed _ _ ⟨{ r with pendingTrade := none }, ctx,
        (env.connectTrade trade.source r.actorId).mapError .master⟩ _ _ fun reply _ => ?_
      exact does_openTradeQueues _ env ctx reply.1 reply.2.1 reply.2.2
    · exact Does.of_shows hnone (does_openActionQueue _ env ctx _)

theorem does_handlePending (pending : PendingRequests) (nowNs : UInt64) :
    Does r ctx (r.pendingCalls env ctx pending nowNs) (r.handlePending env pending nowNs ctx).runner
      (r.handlePending env pending nowNs ctx).ctx := by
  let submitted := r.submit nowNs pending.intents ctx
  have hkept : ∀ v : RunnerView, v.Shows submitted.1 submitted.2 →
      v.Shows { submitted.1.keepRequests pending with pendingSubscriptions := [] } submitted.2 := by
    intro v hshows
    exact { hshows with }
  rw [StrategyRunner.handlePending_eq]
  refine (does_submit r nowNs pending.intents ctx).append (Does.of_shows hkept ?_)
  refine (does_connectEach env _ submitted.2 _).append (does_followed fun _ _ => ?_)
  exact does_connectTrade _ env _

end Connecting

section Running
variable (r : StrategyRunner) (reaction : Reaction) (ctx : ActorContext)

theorem does_pendingCallback :
    Does r ctx (r.requestCalls reaction ctx) (r.pendingCallback reaction ctx).runner
      (r.pendingCallback reaction ctx).ctx := by
  let strategy := (StrategyContext.new reaction.contextNs r.state r.timers).callback reaction.calls
  have hpending := does_handlePending { r with timers := strategy.timers } reaction.env ctx
    strategy.intoPending reaction.nowNs
  refine Does.of_shows ?_ hpending
  intro v hshows
  exact { hshows with }

theorem does_startWithCtx (registered : Except RunnerError Unit) :
    Does r ctx (r.startCalls registered reaction ctx)
      (r.startWithCtx registered reaction ctx).runner
      (r.startWithCtx registered reaction ctx).ctx := by
  refine @does_followed _ _ ⟨r, ctx, if r.hasMaster then registered else .ok ()⟩ _ _ fun _ _ => ?_
  exact does_pendingCallback r reaction ctx

theorem does_handleEventWithCtx (event : Event) :
    Does r ctx (r.eventCalls event reaction ctx) (r.handleEventWithCtx event reaction ctx).runner
      (r.handleEventWithCtx event reaction ctx).ctx := by
  cases event with
  | data sourceId payload =>
    exact (does_handleDataEvent r reaction.nowNs sourceId payload reaction.calls ctx).append
      (does_tickTimers _ reaction.tickNs reaction.timerCalls _)
  | control => exact does_tickTimers r reaction.tickNs reaction.timerCalls ctx
  | external => exact does_tickTimers r reaction.tickNs reaction.timerCalls ctx
  | timer => exact does_tickTimers r reaction.tickNs reaction.timerCalls ctx
  | shutdown =>
    have hkeeps := @Outcome.andThen_keeps _ _
      (fun r' ctx' => Does r ctx (r.requestCalls reaction ctx) r' ctx')
      (r.onShutdown reaction ctx) (fun r ctx _ => ⟨r, ctx, .ok true⟩)
      (does_pendingCallback r reaction ctx) fun _ _ _ h => h
    exact hkeeps

theorem does_loop (s : Session) (events : List (Event × Reaction)) :
    Does s.runner s.ctx (s.loopCalls events) (run Session.step s events).runner
      (run Session.step s events).ctx := by
  induction events generalizing s with
  | nil => exact does_nil s.runner s.ctx
  | cons event events ih =>
    rw [Session.loopCalls, run_cons]
    refine Does.append ?_ (ih (s.step event))
    unfold Session.step
    split
    · exact does_handleEventWithCtx s.runner event.2 s.ctx event.1
    · exact does_nil s.runner s.ctx

/-- Every call of `run`, the first one and a later one, is a run of allowed calls. -/
theorem does_launch (launch : Launch) :
    Does r ActorContext.new (r.launchCalls launch) (r.runOnce launch).runner
      (r.runOnce launch).ctx := by
  have hstart := does_startWithCtx r launch.reaction ActorContext.new launch.registered
  exact hstart.append (does_loop (r.relaunched launch) launch.events)

/-- A whole run is a run of allowed calls and ends where the session ends. -/
theorem does_run (config : RunnerConfig) (registered : Except RunnerError Unit)
    (events : List (Event × Reaction)) :
    Guarded step Allowed new (Session.runCalls config registered reaction events) ∧
      (run step new (Session.runCalls config registered reaction events)).Shows
        (run Session.step (Session.launched config registered reaction) events).runner
        (run Session.step (Session.launched config registered reaction) events).ctx := by
  exact does_launch (StrategyRunner.new config) ⟨registered, reaction, events⟩ new
    (shows_new config)

end Running

end RunnerView

end Nnxt
