import Nnxt.EventLoop
import Nnxt.TypedQueues

/-!
# The strategy runner, call by call

What the handlers do to the state, to the queues and to the ids the runner keeps,
one call after the other in the order of the source. A handler is a run of its
calls, so what every call keeps holds in the middle of a handler as well.
-/

namespace Nnxt

set_option autoImplicit false

open HashMap Transition

/-- `keep…` is the assignment of an id or an address to a field of the runner. -/
inductive RunnerCall where
  | updateMarket (book : OrderBook)
  | applyOrderEvent (event : OrderEvent)
  | applyTradeEvent (event : TradeEvent)
  | onActionSent (action : Action) (nowNs : UInt64)
  | queue (call : QueueCall)
  | keepQuoteSource (source : QuoteSource)
  | keepOrderEventSource (sourceId : Nat)
  | keepTradeEventSource (sourceId : Nat)
  | keepActionQueue (addr : String)

namespace StrategyRunner

section Traces
variable (r : StrategyRunner)

def writeCalls (actions : List Action) : List RunnerCall :=
  match r.actionQueueAddr with
  | none => []
  | some addr => actions.map fun action => .queue (.publish addr .action action)

def submitCalls (nowNs : UInt64) (intents : List Intent) : List RunnerCall :=
  let actions := (r.engine.execute intents r.state nowNs).2
  actions.map (.onActionSent · nowNs) ++ r.writeCalls actions

def callbackCalls (nowNs : UInt64) (calls : List ContextCall) : List RunnerCall :=
  r.submitCalls nowNs ((StrategyContext.new nowNs r.state r.timers).callback calls).intents

def orderBookCalls (book : OrderBook) (instrumentId : InstrumentId) (nowNs : UInt64)
    (calls : List ContextCall) : List RunnerCall :=
  if book.instrumentId ≠ instrumentId then []
  else .updateMarket book :: { r with state := r.state.updateMarket book }.callbackCalls nowNs calls

def orderEventCalls (event : OrderEvent) (nowNs : UInt64) (calls : List ContextCall) :
    List RunnerCall :=
  .applyOrderEvent event ::
    if (r.state.applyOrderEvent event).2 then
      { r with state := (r.state.applyOrderEvent event).1 }.callbackCalls nowNs calls
    else []

def tradeEventCalls (event : TradeEvent) (nowNs : UInt64) (calls : List ContextCall) :
    List RunnerCall :=
  .applyTradeEvent event ::
    if (r.state.applyTradeEvent event).2 then
      { r with state := (r.state.applyTradeEvent event).1 }.callbackCalls nowNs calls
    else []

def fireCalls (r : StrategyRunner) (nowNs : UInt64) (ctx : ActorContext) :
    List TimerEvent → List (List ContextCall) → List RunnerCall
  | [], _ => []
  | _ :: events, calls =>
    r.callbackCalls nowNs (calls.headD []) ++
      (r.callback nowNs (calls.headD []) ctx).1.fireCalls nowNs
        (r.callback nowNs (calls.headD []) ctx).2 events calls.tail

def tickCalls (nowNs : UInt64) (calls : List (List ContextCall)) (ctx : ActorContext) :
    List RunnerCall :=
  { r with timers := (r.timers.dueTimers nowNs).1 }.fireCalls nowNs ctx
    (r.timers.dueTimers nowNs).2 calls

/-- The pointer is cast once the source is known. -/
def dataCalls (sourceId : Nat) (payload : Payload) (nowNs : UInt64) (calls : List ContextCall) :
    List RunnerCall :=
  match r.quoteSources.find? fun source => source.sourceId = sourceId with
  | some source =>
    .queue (.cast sourceId .orderBook) ::
      r.orderBookCalls payload.book source.instrumentId nowNs calls
  | none =>
    if some sourceId = r.orderEventSourceId then
      .queue (.cast sourceId .orderEvent) :: r.orderEventCalls payload.orderEvent nowNs calls
    else if some sourceId = r.tradeEventSourceId then
      .queue (.cast sourceId .tradeEvent) :: r.tradeEventCalls payload.tradeEvent nowNs calls
    else []

end Traces

end StrategyRunner

/-- What follows an outcome: nothing after an error. -/
def Outcome.followed {α : Type} (o : Outcome α)
    (next : StrategyRunner → ActorContext → α → List RunnerCall) : List RunnerCall :=
  match o.result with
  | .error _ => []
  | .ok value => next o.runner o.ctx value

namespace StrategyRunner

section Traces
variable (r : StrategyRunner) (env : Environment) (ctx : ActorContext)

/-- A call of `read_from`, then what is done with the source id. -/
def readCalls (addr : String) (elementType : ElementType)
    (next : StrategyRunner → ActorContext → Nat → List RunnerCall) : List RunnerCall :=
  .queue (.readFrom addr elementType (env.opened addr)) ::
    (r.readFromWithRetry env addr elementType ctx).followed next

def subscriptionCalls (subscription : QuoteSubscription) : List RunnerCall :=
  Outcome.followed ⟨r, ctx, r.marketAddr env subscription.source⟩ fun r ctx addr =>
    match subscription.dataType with
    | .orderBook =>
      r.readCalls env ctx addr .orderBook fun _ _ sourceId =>
        [.keepQuoteSource ⟨subscription.instrumentId, sourceId⟩]

def eachCalls (r : StrategyRunner) (env : Environment) (ctx : ActorContext) :
    List QuoteSubscription → List RunnerCall
  | [] => []
  | subscription :: subscriptions =>
    r.subscriptionCalls env ctx subscription ++
      (r.connectSubscription env ctx subscription).followed fun r ctx _ =>
        r.eachCalls env ctx subscriptions

def actionQueueCalls (addr : String) : List RunnerCall :=
  .queue (.writeTo addr .action r.actionQueueCapacity (env.opened addr)) ::
    Outcome.followed ⟨r, (ctx.writeTo addr r.actionQueueCapacity (env.opened addr)).1,
        (ctx.writeTo addr r.actionQueueCapacity (env.opened addr)).2.mapError .actors⟩
      fun _ _ _ => [.keepActionQueue addr]

def tradeQueueCalls (tradeGatewayId orderEventQueue tradeEventQueue : String) :
    List RunnerCall :=
  let actionPath := actionQueue r.actorId tradeGatewayId
  r.actionQueueCalls env ctx actionPath ++
    (r.openActionQueue env actionPath ctx).followed fun r ctx _ =>
    Outcome.followed ⟨r, ctx, (env.registerQueue r.actorId ⟨actionPath, "action"⟩
      (some tradeGatewayId)).mapError .master⟩ fun r ctx _ =>
    r.readCalls env ctx orderEventQueue .orderEvent fun r ctx orderSourceId =>
    .keepOrderEventSource orderSourceId ::
      { r with orderEventSourceId := some orderSourceId }.readCalls env ctx tradeEventQueue
        .tradeEvent fun _ _ tradeSourceId => [.keepTradeEventSource tradeSourceId]

def tradeCalls : List RunnerCall :=
  match r.pendingTrade with
  | none => []
  | some trade =>
    let r := { r with pendingTrade := none }
    if r.hasMaster then
      Outcome.followed ⟨r, ctx, (env.connectTrade trade.source r.actorId).mapError .master⟩
        fun r ctx reply => r.tradeQueueCalls env ctx reply.1 reply.2.1 reply.2.2
    else r.actionQueueCalls env ctx (r.actionQueuePath.getD trade.source)

def pendingCalls (pending : PendingRequests) (nowNs : UInt64) : List RunnerCall :=
  let kept := (r.submit nowNs pending.intents ctx).1.keepRequests pending
  let ctx' := (r.submit nowNs pending.intents ctx).2
  r.submitCalls nowNs pending.intents ++
    ({ kept with pendingSubscriptions := [] }.eachCalls env ctx' kept.pendingSubscriptions ++
      (kept.connectSubscriptions env ctx').followed fun r ctx _ => r.tradeCalls env ctx)

end Traces

section Traces
variable (r : StrategyRunner)

def requestCalls (reaction : Reaction) (ctx : ActorContext) : List RunnerCall :=
  let strategy := (StrategyContext.new reaction.contextNs r.state r.timers).callback reaction.calls
  { r with timers := strategy.timers }.pendingCalls reaction.env ctx strategy.intoPending
    reaction.nowNs

def startCalls (registered : Except RunnerError Unit) (reaction : Reaction) (ctx : ActorContext) :
    List RunnerCall :=
  Outcome.followed ⟨r, ctx, if r.hasMaster then registered else .ok ()⟩ fun r ctx _ =>
    r.requestCalls reaction ctx

def eventCalls (event : Event) (reaction : Reaction) (ctx : ActorContext) : List RunnerCall :=
  match event with
  | .data sourceId payload =>
    r.dataCalls sourceId payload reaction.nowNs reaction.calls ++
      (r.handleDataEvent sourceId payload reaction.nowNs reaction.calls ctx).1.tickCalls
        reaction.tickNs reaction.timerCalls
        (r.handleDataEvent sourceId payload reaction.nowNs reaction.calls ctx).2
  | .control | .external | .timer => r.tickCalls reaction.tickNs reaction.timerCalls ctx
  | .shutdown => r.requestCalls reaction ctx

end Traces

end StrategyRunner

namespace Session

/-- The calls of the loop. -/
def loopCalls (s : Session) : List (Event × Reaction) → List RunnerCall
  | [] => []
  | event :: events =>
    (if s.running then s.runner.eventCalls event.1 event.2 s.ctx else []) ++
      (s.step event).loopCalls events

/-- The calls of one `run`. -/
def runCalls (config : RunnerConfig) (registered : Except RunnerError Unit) (reaction : Reaction)
    (events : List (Event × Reaction)) : List RunnerCall :=
  (StrategyRunner.new config).startCalls registered reaction ActorContext.new ++
    (launched config registered reaction).loopCalls events

end Session

/-- What one call of `run` meets, up to its return or as far as it has come. -/
structure Launch where
  registered : Except RunnerError Unit
  reaction : Reaction
  events : List (Event × Reaction)

namespace StrategyRunner
variable (r : StrategyRunner)

/-- `run` makes a new reactor and a new context, and takes the runner as it is. -/
def relaunched (launch : Launch) : Session :=
  let o := r.startWithCtx launch.registered launch.reaction ActorContext.new
  ⟨o.runner, o.ctx, match o.result with
    | .ok _ => true
    | .error _ => false⟩

def runOnce (launch : Launch) : Session :=
  run Session.step (r.relaunched launch) launch.events

/-- The runner after some calls of `run`, one after the other. -/
def afterRuns (launches : List Launch) : StrategyRunner :=
  launches.foldl (fun r launch => (r.runOnce launch).runner) r

def launchCalls (launch : Launch) : List RunnerCall :=
  r.startCalls launch.registered launch.reaction ActorContext.new ++
    (r.relaunched launch).loopCalls launch.events

end StrategyRunner

end Nnxt
