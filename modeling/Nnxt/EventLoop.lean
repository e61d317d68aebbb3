import Nnxt.StrategyRunner
import Nnxt.TimerSchedule

/-!
# The event loop and its timers

A turn of the loop in `run` handles what `poll` returned, or finds nothing and
spins. What a turn does to the timers depends on the strategy's calls and the
clock readings alone.
-/

namespace Nnxt

set_option autoImplicit false

namespace TimerManager

def perform (nowNs : UInt64) (m : TimerManager) : ContextCall → TimerManager
  | .setTimer intervalNs => (m.setTimer intervalNs nowNs).1
  | .cancelTimer timerId => (m.cancelTimer timerId).1
  | _ => m

def afterCalls (m : TimerManager) (nowNs : UInt64) (calls : List ContextCall) : TimerManager :=
  calls.foldl (perform nowNs) m

/-- The callbacks for the collected events, one after the other. -/
def afterWalk (nowNs : UInt64) :
    TimerManager → List TimerEvent → List (List ContextCall) → TimerManager
  | m, [], _ => m
  | m, _ :: events, calls => afterWalk nowNs (m.afterCalls nowNs (calls.headD [])) events calls.tail

def afterTick (m : TimerManager) (nowNs : UInt64) (calls : List (List ContextCall)) :
    TimerManager :=
  afterWalk nowNs (m.dueTimers nowNs).1 (m.dueTimers nowNs).2 calls

/-- What every call and the rearming keep, a whole walk keeps. -/
theorem afterCalls_keeps {P : TimerManager → Prop} {nowNs : UInt64} {calls : List ContextCall}
    (keep : ∀ m, ∀ call ∈ calls, P m → P (perform nowNs m call)) {m : TimerManager} (h : P m) :
    P (m.afterCalls nowNs calls) := by
  induction calls generalizing m with
  | nil => exact h
  | cons call calls ih =>
    refine @ih ?_ _ (keep m call List.mem_cons_self h)
    intro m call hcall
    exact keep m call (List.mem_cons_of_mem _ hcall)

theorem afterWalk_keeps {P : TimerManager → Prop} {nowNs : UInt64}
    {calls : List (List ContextCall)} (events : List TimerEvent)
    (keep : ∀ m, ∀ called ∈ calls, ∀ call ∈ called, P m → P (perform nowNs m call))
    {m : TimerManager} (h : P m) : P (afterWalk nowNs m events calls) := by
  induction events generalizing m calls with
  | nil => exact h
  | cons event events ih =>
    cases calls with
    | nil =>
      refine @ih [] ?_ m h
      exact fun _ _ hmem => absurd hmem List.not_mem_nil
    | cons called calls =>
      refine @ih calls ?_ _ (afterCalls_keeps (fun m => keep m called List.mem_cons_self) h)
      intro m later hlater
      exact keep m later (List.mem_cons_of_mem _ hlater)

end TimerManager

namespace StrategyContext

theorem callback_timers (ctx : StrategyContext) (calls : List ContextCall) :
    (ctx.callback calls).timers = ctx.timers.afterCalls ctx.nowNs calls := by
  induction calls generalizing ctx with
  | nil => rfl
  | cons call calls ih =>
    have hnow : (ctx.perform call).nowNs = ctx.nowNs := by cases call <;> rfl
    have htimers : (ctx.perform call).timers = TimerManager.perform ctx.nowNs ctx.timers call := by
      cases call <;> rfl
    have hrest := ih (ctx.perform call)
    rw [hnow, htimers] at hrest
    exact hrest

end StrategyContext

namespace StrategyRunner
variable (r : StrategyRunner)

theorem timers_callback (nowNs : UInt64) (calls : List ContextCall) (ctx : ActorContext) :
    (r.callback nowNs calls ctx).1.timers = r.timers.afterCalls nowNs calls :=
  StrategyContext.callback_timers (StrategyContext.new nowNs r.state r.timers) calls

theorem timers_fireTimers (nowNs : UInt64) (ctx : ActorContext) (events : List TimerEvent)
    (calls : List (List ContextCall)) :
    (r.fireTimers nowNs ctx events calls).1.timers = r.timers.afterWalk nowNs events calls := by
  induction events generalizing r ctx calls with
  | nil => rfl
  | cons event events ih =>
    have hrest := ih (r.callback nowNs (calls.headD []) ctx).1
      (r.callback nowNs (calls.headD []) ctx).2 calls.tail
    rw [timers_callback] at hrest
    exact hrest

theorem timers_tickTimers (nowNs : UInt64) (calls : List (List ContextCall)) (ctx : ActorContext) :
    (r.tickTimers nowNs calls ctx).1.timers = r.timers.afterTick nowNs calls :=
  timers_fireTimers { r with timers := (r.timers.dueTimers nowNs).1 } nowNs ctx
    (r.timers.dueTimers nowNs).2 calls

/-- Whether a data event reaches a callback of the strategy. -/
def callsBack (sourceId : Nat) (payload : Payload) : Bool :=
  match r.quoteSources.find? fun source => source.sourceId = sourceId with
  | some source => payload.book.instrumentId = source.instrumentId
  | none =>
    if some sourceId = r.orderEventSourceId then (r.state.applyOrderEvent payload.orderEvent).2
    else if some sourceId = r.tradeEventSourceId then
      (r.state.applyTradeEvent payload.tradeEvent).2
    else false

/-- The calls of the strategy in the callback of the event itself. -/
def directCalls (event : Event) (reaction : Reaction) : List ContextCall :=
  match event with
  | .data sourceId payload => if r.callsBack sourceId payload then reaction.calls else []
  | .control | .external | .timer => []
  | .shutdown => reaction.calls

theorem timers_onOrderEvent (event : OrderEvent) (nowNs : UInt64) (calls : List ContextCall)
    (ctx : ActorContext) :
    (r.onOrderEvent event nowNs calls ctx).1.timers =
      r.timers.afterCalls nowNs (if (r.state.applyOrderEvent event).2 then calls else []) := by
  unfold onOrderEvent
  rcases r.state.applyOrderEvent event with ⟨state, _ | _⟩
  · rfl
  · exact timers_callback { r with state := state } nowNs calls ctx

theorem timers_onTradeEvent (event : TradeEvent) (nowNs : UInt64) (calls : List ContextCall)
    (ctx : ActorContext) :
    (r.onTradeEvent event nowNs calls ctx).1.timers =
      r.timers.afterCalls nowNs (if (r.state.applyTradeEvent event).2 then calls else []) := by
  unfold onTradeEvent
  rcases r.state.applyTradeEvent event with ⟨state, _ | _⟩
  · rfl
  · exact timers_callback { r with state := state } nowNs calls ctx

theorem timers_handleDataEvent (sourceId : Nat) (payload : Payload) (nowNs : UInt64)
    (calls : List ContextCall) (ctx : ActorContext) :
    (r.handleDataEvent sourceId payload nowNs calls ctx).1.timers =
      r.timers.afterCalls nowNs (if r.callsBack sourceId payload then calls else []) := by
  unfold handleDataEvent callsBack
  cases r.quoteSources.find? fun source => source.sourceId = sourceId with
  | some source =>
    by_cases hbook : payload.book.instrumentId = source.instrumentId
    · simp only [onOrderBook, hbook, ne_eq, not_true_eq_false, if_false, decide_true, if_true]
      exact timers_callback _ nowNs calls ctx
    · simp only [onOrderBook, hbook, ne_eq, not_false_eq_true, if_true, decide_false]
      rfl
  | none =>
    simp only
    split
    · exact timers_onOrderEvent r payload.orderEvent nowNs calls ctx
    · split
      · exact timers_onTradeEvent r payload.tradeEvent nowNs calls ctx
      · rfl

section Requests
variable {m : TimerManager}

theorem timers_connectSubscription {r : StrategyRunner} (h : r.timers = m) (env : Environment)
    (ctx : ActorContext) (subscription : QuoteSubscription) :
    (r.connectSubscription env ctx subscription).runner.timers = m := by
  refine @Outcome.andThen_keeps _ _ (fun r _ => r.timers = m) _ _ h fun r ctx addr h => ?_
  cases subscription.dataType
  exact @Outcome.andThen_keeps _ _ (fun r _ => r.timers = m) _ _ h fun _ _ _ h => h

theorem timers_connectEach {r : StrategyRunner} (h : r.timers = m) (env : Environment)
    (ctx : ActorContext) (subscriptions : List QuoteSubscription) :
    (r.connectEach env ctx subscriptions).runner.timers = m := by
  induction subscriptions generalizing r ctx with
  | nil => exact h
  | cons subscription subscriptions ih =>
    exact @Outcome.andThen_keeps _ _ (fun r _ => r.timers = m) _ _
      (timers_connectSubscription h env ctx subscription) fun r ctx _ h => ih h ctx

theorem timers_openActionQueue {r : StrategyRunner} (h : r.timers = m) (env : Environment)
    (addr : String) (ctx : ActorContext) :
    (r.openActionQueue env addr ctx).runner.timers = m :=
  @Outcome.andThen_keeps _ _ (fun r _ => r.timers = m) _ _ h fun _ _ _ h => h

theorem timers_openTradeQueues {r : StrategyRunner} (h : r.timers = m) (env : Environment)
    (ctx : ActorContext) (tradeGatewayId orderEventQueue tradeEventQueue : String) :
    (r.openTradeQueues env ctx tradeGatewayId orderEventQueue tradeEventQueue).runner.timers =
      m := by
  refine @Outcome.andThen_keeps _ _ (fun r _ => r.timers = m) _ _
    (timers_openActionQueue h env _ ctx) fun r ctx _ h => ?_
  refine @Outcome.andThen_keeps _ _ (fun r _ => r.timers = m) _ _ h fun r ctx _ h => ?_
  refine @Outcome.andThen_keeps _ _ (fun r _ => r.timers = m) _ _ h fun r ctx _ h => ?_
  exact @Outcome.andThen_keeps _ _ (fun r _ => r.timers = m) _ _ h fun _ _ _ h => h

theorem timers_connectTrade {r : StrategyRunner} (h : r.timers = m) (env : Environment)
    (ctx : ActorContext) : (r.connectTrade env ctx).runner.timers = m := by
  unfold connectTrade
  split
  · exact h
  · dsimp only
    split
    · refine @Outcome.andThen_keeps _ _ (fun r _ => r.timers = m) _ _ h fun r ctx reply h => ?_
      exact timers_openTradeQueues h env ctx _ _ _
    · exact @timers_openActionQueue m { r with pendingTrade := none } h env _ ctx

end Requests

theorem timers_handlePending (env : Environment) (pending : PendingRequests) (nowNs : UInt64)
    (ctx : ActorContext) : (r.handlePending env pending nowNs ctx).runner.timers = r.timers := by
  rw [handlePending_eq]
  refine @Outcome.andThen_keeps _ _ (fun q _ => q.timers = r.timers) _ _ ?_ fun _ ctx _ h =>
    timers_connectTrade h env ctx
  apply timers_connectEach
  rfl

theorem timers_pendingCallback (reaction : Reaction) (ctx : ActorContext) :
    (r.pendingCallback reaction ctx).runner.timers =
      r.timers.afterCalls reaction.contextNs reaction.calls :=
  (timers_handlePending _ reaction.env _ reaction.nowNs ctx).trans
    (StrategyContext.callback_timers (StrategyContext.new reaction.contextNs r.state r.timers)
      reaction.calls)

/-- What an event does to the timers: a callback first, then the tick of all but a shutdown. -/
def timersAfter (event : Event) (reaction : Reaction) : TimerManager :=
  match event with
  | .shutdown => r.timers.afterCalls reaction.contextNs reaction.calls
  | event => (r.timers.afterCalls reaction.nowNs (r.directCalls event reaction)).afterTick
      reaction.tickNs reaction.timerCalls

theorem timers_handleEventWithCtx (event : Event) (reaction : Reaction) (ctx : ActorContext) :
    (r.handleEventWithCtx event reaction ctx).runner.timers = r.timersAfter event reaction := by
  cases event with
  | data sourceId payload =>
    have htick := timers_tickTimers
      (r.handleDataEvent sourceId payload reaction.nowNs reaction.calls ctx).1 reaction.tickNs
      reaction.timerCalls (r.handleDataEvent sourceId payload reaction.nowNs reaction.calls ctx).2
    rw [timers_handleDataEvent] at htick
    exact htick
  | control => exact timers_tickTimers r reaction.tickNs reaction.timerCalls ctx
  | external => exact timers_tickTimers r reaction.tickNs reaction.timerCalls ctx
  | timer => exact timers_tickTimers r reaction.tickNs reaction.timerCalls ctx
  | shutdown =>
    refine @Outcome.andThen_keeps _ _ (fun q _ => q.timers = _) _ _
      (timers_pendingCallback r reaction ctx) fun _ _ _ h => h

end StrategyRunner

/-- The session after `start_with_ctx`; the loop is not entered after an error. -/
def Session.launched (config : RunnerConfig) (registered : Except RunnerError Unit)
    (reaction : Reaction) : Session :=
  let o := (StrategyRunner.new config).startWithCtx registered reaction ActorContext.new
  ⟨o.runner, o.ctx, match o.result with
    | .ok _ => true
    | .error _ => false⟩

/-- The calls of `on_start`; it is not called if the registration fails. -/
def Session.startCalls (config : RunnerConfig) (registered : Except RunnerError Unit)
    (reaction : Reaction) : List ContextCall :=
  match if config.hasMaster then registered else .ok () with
  | .ok _ => reaction.calls
  | .error _ => []

theorem Session.timers_launched (config : RunnerConfig) (registered : Except RunnerError Unit)
    (reaction : Reaction) :
    (launched config registered reaction).runner.timers =
      TimerManager.default.afterCalls reaction.contextNs (startCalls config registered reaction) := by
  simp only [launched, StrategyRunner.startWithCtx, Outcome.andThen, startCalls]
  have hmaster : (StrategyRunner.new config).hasMaster = config.hasMaster := rfl
  rw [hmaster]
  cases (if config.hasMaster then registered else .ok ()) with
  | error error => rfl
  | ok _ =>
    exact StrategyRunner.timers_pendingCallback (StrategyRunner.new config) reaction
      ActorContext.new

/-- One turn of the loop. -/
def Session.turn (s : Session) : Option (Event × Reaction) → Session
  | some event => s.step event
  | none => s

theorem Session.timers_turn_some (s : Session) (event : Event) (reaction : Reaction) :
    (s.turn (some (event, reaction))).runner.timers =
      if s.running then s.runner.timersAfter event reaction else s.runner.timers := by
  rw [turn, step]
  split
  · exact StrategyRunner.timers_handleEventWithCtx s.runner event reaction s.ctx
  · rfl

end Nnxt
