import Nnxt.Execution
import Nnxt.StrategyContext
import Nnxt.ActorContext
import Nnxt.ActorRegistry

/-!
# The strategy runner

Every handler ends the same way: the strategy is called, its intents are turned
into actions, the actions are recorded in the state and then written. The calls
of the strategy, the clock readings and the answers of the master are arguments.
-/

namespace Nnxt

set_option autoImplicit false

inductive MasterClientError where
  | transport
  | protocol (message : String)
  | unexpectedResponse
  | queueNotFound (queueType : String)
  | timeout
  deriving DecidableEq, Repr

inductive RunnerError where
  | master (error : MasterClientError)
  | actors (error : ActorsError)
  | shutdown
  | queueNotFound (queueType : String)
  deriving DecidableEq, Repr

structure QuoteSource where
  instrumentId : InstrumentId
  sourceId : Nat
  deriving DecidableEq

/-- What the master answers while requests are connected, whether a queue can be
mapped, and what `read_from_with_retry` returns if it gives up: the shutdown or an
error of the read. `findQueue` stands for all the attempts of `wait_for_queue_by_actor`. -/
structure Environment where
  findQueue : String → String → Except RunnerError String
  connectTrade : String → String → Except MasterClientError (String × String × String)
  registerQueue : String → QueueInfo → Option String → Except MasterClientError Unit
  opened : String → Bool
  readError : String → RunnerError

/-- No master answers and no queue can be mapped. -/
def Environment.alone : Environment where
  findQueue := fun _ queueType => .error (.queueNotFound queueType)
  connectTrade := fun _ _ => .error .timeout
  registerQueue := fun _ _ _ => .error .timeout
  opened := fun _ => false
  readError := fun _ => .shutdown

/-- The bytes behind the pointer of a data event, at each type they are read as. -/
structure Payload where
  book : OrderBook
  orderEvent : OrderEvent
  tradeEvent : TradeEvent
  deriving DecidableEq

inductive Event where
  | data (sourceId : Nat) (payload : Payload)
  | control
  | external
  | timer
  | shutdown

/-- What one event meets: the calls of the strategy in its callback and in the
timer callbacks after it, the clock readings, and the world outside. -/
structure Reaction where
  env : Environment
  contextNs : UInt64
  nowNs : UInt64
  calls : List ContextCall
  tickNs : UInt64
  timerCalls : List (List ContextCall)

/-- `sent` records what `apply_actions` has applied; no handler reads it. -/
structure StrategyRunner where
  state : RunnerState
  engine : ExecutionEngine
  timers : TimerManager
  hasMaster : Bool
  actorId : String
  actionQueuePath : Option String
  actionQueueCapacity : UInt64
  actionQueueAddr : Option String
  quoteSources : List QuoteSource
  orderEventSourceId : Option Nat
  tradeEventSourceId : Option Nat
  pendingSubscriptions : List QuoteSubscription
  pendingTrade : Option TradeConnection
  sent : List Action

structure RunnerConfig where
  actionQueuePath : Option String
  actionQueueCapacity : UInt64
  hasMaster : Bool
  actorId : String
  deriving DecidableEq, Repr

theorem mapError_ok {ε ε' α : Type} {f : ε → ε'} {x : Except ε α} {a : α}
    (h : x.mapError f = .ok a) : x = .ok a := by
  cases x with
  | ok b => exact congrArg Except.ok (Except.ok.inj h)
  | error error => cases h

/-- What a handler that can fail leaves behind, whether it fails or not. -/
structure Outcome (α : Type) where
  runner : StrategyRunner
  ctx : ActorContext
  result : Except RunnerError α

namespace Outcome
variable {α β : Type}

/-- The operator `?`: an error ends the handler. -/
def andThen (o : Outcome α) (next : StrategyRunner → ActorContext → α → Outcome β) : Outcome β :=
  match o.result with
  | .error error => ⟨o.runner, o.ctx, .error error⟩
  | .ok value => next o.runner o.ctx value

theorem andThen_keeps {P : StrategyRunner → ActorContext → Prop} {o : Outcome α}
    {next : StrategyRunner → ActorContext → α → Outcome β} (h : P o.runner o.ctx)
    (hnext : ∀ r ctx value, P r ctx → P (next r ctx value).runner (next r ctx value).ctx) :
    P (o.andThen next).runner (o.andThen next).ctx := by
  unfold andThen
  split
  · exact h
  · exact hnext _ _ _ h

theorem andThen_ok {o : Outcome α} {next : StrategyRunner → ActorContext → α → Outcome β}
    {b : β} (h : (o.andThen next).result = .ok b) :
    ∃ value, o.result = .ok value ∧ o.andThen next = next o.runner o.ctx value := by
  unfold andThen at h ⊢
  split at h
  · cases h
  · rename_i value hvalue
    exact ⟨value, hvalue, rfl⟩

end Outcome

namespace StrategyRunner

def new (config : RunnerConfig) : StrategyRunner where
  state := RunnerState.default
  engine := ExecutionEngine.new
  timers := TimerManager.default
  hasMaster := config.hasMaster
  actorId := config.actorId
  actionQueuePath := config.actionQueuePath
  actionQueueCapacity := config.actionQueueCapacity
  actionQueueAddr := none
  quoteSources := []
  orderEventSourceId := none
  tradeEventSourceId := none
  pendingSubscriptions := []
  pendingTrade := none
  sent := []

def applyActions (r : StrategyRunner) (nowNs : UInt64) (actions : List Action) : StrategyRunner :=
  { r with
    state := actions.foldl (fun state action => state.onActionSent action nowNs) r.state
    sent := r.sent ++ actions }

def writeActions (r : StrategyRunner) (actions : List Action) (ctx : ActorContext) : ActorContext :=
  match r.actionQueueAddr with
  -- no queue, nothing written and nothing said
  | none => ctx
  -- a failed publish is ignored
  | some addr => actions.foldl (fun ctx action => (ctx.publish addr action).1) ctx

def submit (r : StrategyRunner) (nowNs : UInt64) (intents : List Intent) (ctx : ActorContext) :
    StrategyRunner × ActorContext :=
  let (engine, actions) := r.engine.execute intents r.state nowNs
  let r := { r with engine := engine }.applyActions nowNs actions
  (r, r.writeActions actions ctx)

/-- The end of the data and timer handlers: the strategy makes its calls and
only the intents among them are taken up. -/
def callback (r : StrategyRunner) (nowNs : UInt64) (calls : List ContextCall)
    (ctx : ActorContext) : StrategyRunner × ActorContext :=
  let strategy := (StrategyContext.new nowNs r.state r.timers).callback calls
  { r with timers := strategy.timers }.submit nowNs strategy.intents ctx

def onOrderBook (r : StrategyRunner) (book : OrderBook) (instrumentId : InstrumentId)
    (nowNs : UInt64) (calls : List ContextCall) (ctx : ActorContext) :
    StrategyRunner × ActorContext :=
  if book.instrumentId ≠ instrumentId then (r, ctx)
  else { r with state := r.state.updateMarket book }.callback nowNs calls ctx

def onOrderEvent (r : StrategyRunner) (event : OrderEvent) (nowNs : UInt64)
    (calls : List ContextCall) (ctx : ActorContext) : StrategyRunner × ActorContext :=
  let (state, accepted) := r.state.applyOrderEvent event
  if accepted then { r with state := state }.callback nowNs calls ctx
  else ({ r with state := state }, ctx)

def onTradeEvent (r : StrategyRunner) (event : TradeEvent) (nowNs : UInt64)
    (calls : List ContextCall) (ctx : ActorContext) : StrategyRunner × ActorContext :=
  let (state, accepted) := r.state.applyTradeEvent event
  if accepted then { r with state := state }.callback nowNs calls ctx
  else ({ r with state := state }, ctx)

/-- One callback for each event; the calls of the `n`-th are the `n`-th list. -/
def fireTimers (r : StrategyRunner) (nowNs : UInt64) (ctx : ActorContext) :
    List TimerEvent → List (List ContextCall) → StrategyRunner × ActorContext
  | [], _ => (r, ctx)
  | _ :: events, calls =>
    let (r, ctx) := r.callback nowNs (calls.headD []) ctx
    r.fireTimers nowNs ctx events calls.tail

def tickTimers (r : StrategyRunner) (nowNs : UInt64) (calls : List (List ContextCall))
    (ctx : ActorContext) : StrategyRunner × ActorContext :=
  let (timers, events) := r.timers.dueTimers nowNs
  { r with timers := timers }.fireTimers nowNs ctx events calls

def handleDataEvent (r : StrategyRunner) (sourceId : Nat) (payload : Payload) (nowNs : UInt64)
    (calls : List ContextCall) (ctx : ActorContext) : StrategyRunner × ActorContext :=
  match r.quoteSources.find? fun source => source.sourceId = sourceId with
  | some source => r.onOrderBook payload.book source.instrumentId nowNs calls ctx
  | none =>
    if some sourceId = r.orderEventSourceId then r.onOrderEvent payload.orderEvent nowNs calls ctx
    else if some sourceId = r.tradeEventSourceId then
      r.onTradeEvent payload.tradeEvent nowNs calls ctx
    else (r, ctx)

/-- `read_from_with_retry`: it waits for the queue until it is told to shut down, or until
the read fails for another reason. -/
def readFromWithRetry (r : StrategyRunner) (env : Environment) (addr : String)
    (elementType : ElementType) (ctx : ActorContext) : Outcome Nat where
  runner := r
  ctx := (ctx.readFrom addr elementType (env.opened addr)).1
  result := (ctx.readFrom addr elementType (env.opened addr)).2.mapError fun _ => env.readError addr

def marketAddr (r : StrategyRunner) (env : Environment) (source : String) :
    Except RunnerError String :=
  if r.hasMaster then env.findQueue source "market" else .ok source

def connectSubscription (r : StrategyRunner) (env : Environment) (ctx : ActorContext)
    (subscription : QuoteSubscription) : Outcome Unit :=
  Outcome.andThen ⟨r, ctx, r.marketAddr env subscription.source⟩ fun r ctx addr =>
    match subscription.dataType with
    | .orderBook =>
      (r.readFromWithRetry env addr .orderBook ctx).andThen fun r ctx sourceId =>
        ⟨{ r with quoteSources := r.quoteSources ++ [⟨subscription.instrumentId, sourceId⟩] },
         ctx, .ok ()⟩

def connectEach (r : StrategyRunner) (env : Environment) (ctx : ActorContext) :
    List QuoteSubscription → Outcome Unit
  | [] => ⟨r, ctx, .ok ()⟩
  | subscription :: subscriptions =>
    (r.connectSubscription env ctx subscription).andThen fun r ctx _ =>
      r.connectEach env ctx subscriptions

def connectSubscriptions (r : StrategyRunner) (env : Environment) (ctx : ActorContext) :
    Outcome Unit :=
  { r with pendingSubscriptions := [] }.connectEach env ctx r.pendingSubscriptions

def openActionQueue (r : StrategyRunner) (env : Environment) (addr : String)
    (ctx : ActorContext) : Outcome Unit :=
  let opening := ctx.writeTo addr r.actionQueueCapacity (env.opened addr)
  Outcome.andThen ⟨r, opening.1, opening.2.mapError .actors⟩ fun r ctx _ =>
    ⟨{ r with actionQueueAddr := some addr }, ctx, .ok ()⟩

/-- What `connect_trade` does with the answer of the master. -/
def openTradeQueues (r : StrategyRunner) (env : Environment) (ctx : ActorContext)
    (tradeGatewayId orderEventQueue tradeEventQueue : String) : Outcome Unit :=
  let actionPath := actionQueue r.actorId tradeGatewayId
  (r.openActionQueue env actionPath ctx).andThen fun r ctx _ =>
  Outcome.andThen ⟨r, ctx, (env.registerQueue r.actorId ⟨actionPath, "action"⟩
    (some tradeGatewayId)).mapError .master⟩ fun r ctx _ =>
  (r.readFromWithRetry env orderEventQueue .orderEvent ctx).andThen fun r ctx orderSourceId =>
  let r := { r with orderEventSourceId := some orderSourceId }
  (r.readFromWithRetry env tradeEventQueue .tradeEvent ctx).andThen fun r ctx tradeSourceId =>
  ⟨{ r with tradeEventSourceId := some tradeSourceId }, ctx, .ok ()⟩

def connectTradeVia (r : StrategyRunner) (env : Environment) (trade : TradeConnection)
    (ctx : ActorContext) : Outcome Unit :=
  Outcome.andThen ⟨r, ctx, (env.connectTrade trade.source r.actorId).mapError .master⟩
    fun r ctx reply => r.openTradeQueues env ctx reply.1 reply.2.1 reply.2.2

def connectTrade (r : StrategyRunner) (env : Environment) (ctx : ActorContext) : Outcome Unit :=
  match r.pendingTrade with
  | none => ⟨r, ctx, .ok ()⟩
  | some trade =>
    let r := { r with pendingTrade := none }
    if r.hasMaster then r.connectTradeVia env trade ctx
    else r.openActionQueue env (r.actionQueuePath.getD trade.source) ctx

def keepRequests (r : StrategyRunner) (pending : PendingRequests) : StrategyRunner :=
  { r with
    pendingSubscriptions := r.pendingSubscriptions ++ pending.subscriptions
    pendingTrade := pending.tradeConnection }

def handlePending (r : StrategyRunner) (env : Environment) (pending : PendingRequests)
    (nowNs : UInt64) (ctx : ActorContext) : Outcome Unit :=
  -- executed and written before anything is connected
  let (r, ctx) := r.submit nowNs pending.intents ctx
  ((r.keepRequests pending).connectSubscriptions env ctx).andThen fun r ctx _ =>
    r.connectTrade env ctx

/-- A callback whose requests are all taken up. The clock is read once for the
strategy and once for the actions. -/
def pendingCallback (r : StrategyRunner) (reaction : Reaction) (ctx : ActorContext) :
    Outcome Unit :=
  let strategy := (StrategyContext.new reaction.contextNs r.state r.timers).callback reaction.calls
  { r with timers := strategy.timers }.handlePending reaction.env strategy.intoPending
    reaction.nowNs ctx

/-- `registered` is the outcome of `register_with_master`. -/
def startWithCtx (r : StrategyRunner) (registered : Except RunnerError Unit)
    (reaction : Reaction) (ctx : ActorContext) : Outcome Unit :=
  Outcome.andThen ⟨r, ctx, if r.hasMaster then registered else .ok ()⟩ fun r ctx _ =>
    r.pendingCallback reaction ctx

def onShutdown (r : StrategyRunner) (reaction : Reaction) (ctx : ActorContext) : Outcome Unit :=
  r.pendingCallback reaction ctx

def handleEventWithCtx (r : StrategyRunner) (event : Event) (reaction : Reaction)
    (ctx : ActorContext) : Outcome Bool :=
  match event with
  | .data sourceId payload =>
    let (r, ctx) := r.handleDataEvent sourceId payload reaction.nowNs reaction.calls ctx
    let (r, ctx) := r.tickTimers reaction.tickNs reaction.timerCalls ctx
    ⟨r, ctx, .ok false⟩
  | .control | .external | .timer =>
    let (r, ctx) := r.tickTimers reaction.tickNs reaction.timerCalls ctx
    ⟨r, ctx, .ok false⟩
  | .shutdown =>
    (r.onShutdown reaction ctx).andThen fun r ctx _ => ⟨r, ctx, .ok true⟩

def callbackActions (r : StrategyRunner) (nowNs : UInt64) (calls : List ContextCall) :
    List Action :=
  (r.engine.execute (calls.flatMap fun call => call.intents r.state) r.state nowNs).2

@[simp] theorem sent_callback (r : StrategyRunner) (nowNs : UInt64) (calls : List ContextCall)
    (ctx : ActorContext) :
    (r.callback nowNs calls ctx).1.sent = r.sent ++ r.callbackActions nowNs calls := by
  rw [callbackActions, ← List.nil_append (calls.flatMap _)]
  exact congrArg (fun intents => r.sent ++ (r.engine.execute intents r.state nowNs).2)
    (StrategyContext.callback_intents (StrategyContext.new nowNs r.state r.timers) calls)

@[simp] theorem state_callback (r : StrategyRunner) (nowNs : UInt64) (calls : List ContextCall)
    (ctx : ActorContext) :
    (r.callback nowNs calls ctx).1.state =
      (r.callbackActions nowNs calls).foldl (fun state action => state.onActionSent action nowNs)
        r.state := by
  rw [callbackActions, ← List.nil_append (calls.flatMap _)]
  exact congrArg (fun intents => (r.engine.execute intents r.state nowNs).2.foldl
      (fun state action => state.onActionSent action nowNs) r.state)
    (StrategyContext.callback_intents (StrategyContext.new nowNs r.state r.timers) calls)

/-- A callback sends actions; the positions come from the trades alone. -/
@[simp] theorem ledger_callback (r : StrategyRunner) (nowNs : UInt64) (calls : List ContextCall)
    (ctx : ActorContext) : (r.callback nowNs calls ctx).1.state.ledger = r.state.ledger := by
  rw [state_callback]
  generalize r.callbackActions nowNs calls = actions
  induction actions using List.reverseRecOn with
  | nil => rfl
  | append_singleton actions action ih =>
    rw [List.foldl_append]
    exact ih

theorem sent_submit (r : StrategyRunner) (nowNs : UInt64) (intents : List Intent)
    (ctx : ActorContext) :
    (r.submit nowNs intents ctx).1.sent =
      r.sent ++ (r.engine.execute intents r.state nowNs).2 := rfl

theorem published_writes (addr : String) (actions : List Action) {ctx : ActorContext}
    {written : List Action} (h : ctx.published addr = some written) :
    (actions.foldl (fun ctx action => (ctx.publish addr action).1) ctx).published addr =
      some (written ++ actions) := by
  induction actions generalizing ctx written with
  | nil => rw [List.append_nil]; exact h
  | cons action actions ih =>
    have hnext := ih (ActorContext.published_publish h action)
    rw [List.append_assoc] at hnext
    exact hnext

theorem published_submit {r : StrategyRunner} {addr : String} {ctx : ActorContext}
    {written : List Action} (haddr : r.actionQueueAddr = some addr)
    (h : ctx.published addr = some written) (nowNs : UInt64) (intents : List Intent) :
    (r.submit nowNs intents ctx).2.published addr =
      some (written ++ (r.engine.execute intents r.state nowNs).2) := by
  simp only [submit, writeActions, applyActions, haddr]
  exact published_writes addr _ h

theorem handlePending_eq (r : StrategyRunner) (env : Environment) (pending : PendingRequests)
    (nowNs : UInt64) (ctx : ActorContext) :
    r.handlePending env pending nowNs ctx =
      (((r.submit nowNs pending.intents ctx).1.keepRequests pending).connectSubscriptions env
        (r.submit nowNs pending.intents ctx).2).andThen fun r ctx _ => r.connectTrade env ctx := rfl

end StrategyRunner

structure Session where
  runner : StrategyRunner
  ctx : ActorContext
  running : Bool

/-- A shutdown or an error ends the loop. -/
def Session.step (s : Session) (event : Event × Reaction) : Session :=
  if s.running then
    let o := s.runner.handleEventWithCtx event.1 event.2 s.ctx
    ⟨o.runner, o.ctx, match o.result with
      | .ok shouldStop => !shouldStop
      | .error _ => false⟩
  else s

end Nnxt
