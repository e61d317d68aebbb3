import Nnxt.StrategyRequests

/-!
# What becomes of the requests of a strategy

Six callbacks can ask for market data and for a trade connection. The context of
`on_start` and of `on_stop` is turned into pending requests, which are connected
or end in an error; the other four contexts are turned into intents.
-/

namespace Nnxt

set_option autoImplicit false

inductive CallbackSite where
  | onStart
  | onOrderBook
  | onOrder
  | onTrade
  | onTimer
  | onStop
  deriving DecidableEq, Repr

namespace StrategyRunner

/-- A callback at one of the six places, from the runner as it is when the strategy is called. -/
def invoke (r : StrategyRunner) (site : CallbackSite) (reaction : Reaction) (ctx : ActorContext) :
    Outcome Unit :=
  match site with
  | .onStart | .onStop => r.pendingCallback reaction ctx
  | .onOrderBook | .onOrder | .onTrade | .onTimer =>
    let (r, ctx) := r.callback reaction.nowNs reaction.calls ctx
    ⟨r, ctx, .ok ()⟩

section Sites
variable (r : StrategyRunner) (reaction : Reaction) (ctx : ActorContext)

theorem startWithCtx_ok : r.startWithCtx (.ok ()) reaction ctx = r.invoke .onStart reaction ctx := by
  unfold startWithCtx
  split <;> rfl

theorem onShutdown_eq : r.onShutdown reaction ctx = r.invoke .onStop reaction ctx := rfl

theorem onOrderBook_eq {book : OrderBook} {instrumentId : InstrumentId}
    (h : book.instrumentId = instrumentId) :
    r.onOrderBook book instrumentId reaction.nowNs reaction.calls ctx =
      (({ r with state := r.state.updateMarket book }.invoke .onOrderBook reaction ctx).runner,
       ({ r with state := r.state.updateMarket book }.invoke .onOrderBook reaction ctx).ctx) :=
  if_neg (not_not.mpr h)

theorem onOrderEvent_eq {event : OrderEvent} (h : (r.state.applyOrderEvent event).2 = true) :
    r.onOrderEvent event reaction.nowNs reaction.calls ctx =
      (({ r with state := (r.state.applyOrderEvent event).1 }.invoke .onOrder reaction ctx).runner,
       ({ r with state := (r.state.applyOrderEvent event).1 }.invoke .onOrder reaction ctx).ctx) :=
  if_pos h

theorem onTradeEvent_eq {event : TradeEvent} (h : (r.state.applyTradeEvent event).2 = true) :
    r.onTradeEvent event reaction.nowNs reaction.calls ctx =
      (({ r with state := (r.state.applyTradeEvent event).1 }.invoke .onTrade reaction ctx).runner,
       ({ r with state := (r.state.applyTradeEvent event).1 }.invoke .onTrade reaction ctx).ctx) :=
  if_pos h

theorem fireTimers_cons (event : TimerEvent) (events : List TimerEvent)
    (later : List (List ContextCall)) :
    r.fireTimers reaction.nowNs ctx (event :: events) (reaction.calls :: later) =
      (r.invoke .onTimer reaction ctx).runner.fireTimers reaction.nowNs
        (r.invoke .onTimer reaction ctx).ctx events later := rfl

end Sites

/-- Every subscription has a new source of its own and the last trade connection
is made, or the runner reports an error. -/
structure Served (r : StrategyRunner) (reaction : Reaction) (o : Outcome Unit) : Prop where
  subscriptions : (∃ error, o.result = .error error) ∨ ∃ earlier registered,
    o.runner.quoteSources = r.quoteSources ++ (earlier ++ registered) ∧
      List.Forall₂ (r.Connects reaction.env o.ctx) (subscriptions reaction.calls) registered
  trade : (∃ error, o.result = .error error) ∨
    ∀ trade, lastTrade reaction.calls = some trade → r.TradeConnected reaction.env trade o

theorem TradeConnected.congr {r r' : StrategyRunner} {env : Environment} {trade : TradeConnection}
    {o : Outcome Unit} (h : r'.TradeConnected env trade o) (hmaster : r'.hasMaster = r.hasMaster)
    (hactor : r'.actorId = r.actorId) (hpath : r'.actionQueuePath = r.actionQueuePath) :
    r.TradeConnected env trade o := by
  cases h with
  | direct halone hopened hqueue =>
    rw [hpath] at hopened hqueue
    exact .direct (hmaster ▸ halone) hopened hqueue
  | viaMaster hwith gateway orderQueue tradeQueue hanswer hqueue horders htrades =>
    rw [hactor] at hanswer hqueue
    exact .viaMaster (hmaster ▸ hwith) gateway orderQueue tradeQueue hanswer hqueue horders htrades

end StrategyRunner

end Nnxt
