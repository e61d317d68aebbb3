import Nnxt.StrategyRunner

/-!
# Requests of a strategy

What a list of calls asks the runner to connect, and what connecting it leaves
behind when no step of it fails.
-/

namespace Nnxt

set_option autoImplicit false

def ContextCall.subscription? : ContextCall → Option QuoteSubscription
  | .subscribeQuote source instrumentId => some ⟨source, instrumentId, .orderBook⟩
  | _ => none

def ContextCall.tradeConnection? : ContextCall → Option TradeConnection
  | .connectTrade source => some ⟨source⟩
  | _ => none

def subscriptions (calls : List ContextCall) : List QuoteSubscription :=
  calls.filterMap ContextCall.subscription?

/-- A later connection replaces an earlier one. -/
def lastTrade (calls : List ContextCall) : Option TradeConnection :=
  (calls.filterMap ContextCall.tradeConnection?).getLast?

namespace StrategyContext
variable (ctx : StrategyContext) (calls : List ContextCall)

theorem callback_append (later : List ContextCall) :
    ctx.callback (calls ++ later) = (ctx.callback calls).callback later := List.foldl_append

end StrategyContext

namespace StrategyRunner

/-- The source registered for a subscription reads the queue found for it. -/
def Connects (r : StrategyRunner) (env : Environment) (ctx : ActorContext)
    (subscription : QuoteSubscription) (source : QuoteSource) : Prop :=
  source.instrumentId = subscription.instrumentId ∧
    ∃ addr, r.marketAddr env subscription.source = .ok addr ∧
      ctx.rapidSources[source.sourceId]? = some ⟨addr, .orderBook⟩

/-- The action queue of the trade connection is open; with a master the two event queues are read. -/
inductive TradeConnected (r : StrategyRunner) (env : Environment) (trade : TradeConnection)
    (o : Outcome Unit) : Prop where
  | direct (alone : r.hasMaster = false)
      (opened : env.opened (r.actionQueuePath.getD trade.source) = true)
      (queue : o.runner.actionQueueAddr = some (r.actionQueuePath.getD trade.source))
  | viaMaster (master : r.hasMaster = true) (gateway orderQueue tradeQueue : String)
      (answer : env.connectTrade trade.source r.actorId = .ok (gateway, orderQueue, tradeQueue))
      (queue : o.runner.actionQueueAddr = some (actionQueue r.actorId gateway))
      (orders : ∃ i, o.runner.orderEventSourceId = some i ∧
        o.ctx.rapidSources[i]? = some ⟨orderQueue, .orderEvent⟩)
      (trades : ∃ i, o.runner.tradeEventSourceId = some i ∧
        o.ctx.rapidSources[i]? = some ⟨tradeQueue, .tradeEvent⟩)

/-- What connecting subscriptions one after the other adds, and what it leaves. -/
structure Connected (r : StrategyRunner) (ctx : ActorContext) (env : Environment)
    (wanted : List QuoteSubscription) (r' : StrategyRunner) (ctx' : ActorContext) : Prop where
  sources : ∃ registered, r'.quoteSources = r.quoteSources ++ registered ∧
    List.Forall₂ (r.Connects env ctx') wanted registered
  extended : ctx.rapidSources <+: ctx'.rapidSources
  hasMaster : r'.hasMaster = r.hasMaster
  actorId : r'.actorId = r.actorId
  actionQueuePath : r'.actionQueuePath = r.actionQueuePath
  pendingTrade : r'.pendingTrade = r.pendingTrade

section Connecting
variable {r : StrategyRunner} {env : Environment} {ctx ctx' : ActorContext}

theorem getElem?_of_prefix {α : Type} {xs ys : List α} {i : Nat} {x : α} (hp : xs <+: ys)
    (h : xs[i]? = some x) : ys[i]? = some x := by
  obtain ⟨later, rfl⟩ := hp
  rw [List.getElem?_append_left (List.getElem?_eq_some_iff.mp h).1]
  exact h

theorem Connects.mono {subscription : QuoteSubscription} {source : QuoteSource}
    (h : r.Connects env ctx subscription source)
    (hctx : ctx.rapidSources <+: ctx'.rapidSources) : r.Connects env ctx' subscription source := by
  obtain ⟨hid, addr, haddr, hsource⟩ := h
  refine ⟨hid, addr, haddr, ?_⟩
  exact getElem?_of_prefix hctx hsource

theorem Connects.congr {r' : StrategyRunner} {subscription : QuoteSubscription}
    {source : QuoteSource} (h : r'.Connects env ctx subscription source)
    (hmaster : r'.hasMaster = r.hasMaster) : r.Connects env ctx subscription source := by
  rw [Connects, marketAddr, hmaster] at h
  exact h

theorem Connected.trans {r' r'' : StrategyRunner} {ctx'' : ActorContext}
    {wanted later : List QuoteSubscription} (h : r.Connected ctx env wanted r' ctx')
    (h' : r'.Connected ctx' env later r'' ctx'') :
    r.Connected ctx env (wanted ++ later) r'' ctx'' := by
  obtain ⟨registered, hsources, hall⟩ := h.sources
  obtain ⟨registered', hsources', hall'⟩ := h'.sources
  refine ⟨⟨registered ++ registered', ?_, List.rel_append ?_ ?_⟩, h.extended.trans h'.extended,
    h'.hasMaster.trans h.hasMaster, h'.actorId.trans h.actorId,
    h'.actionQueuePath.trans h.actionQueuePath, h'.pendingTrade.trans h.pendingTrade⟩
  · rw [hsources', hsources, List.append_assoc]
  · exact hall.imp fun _ _ hc => hc.mono h'.extended
  · exact hall'.imp fun _ _ hc => hc.congr h.hasMaster

end Connecting

end StrategyRunner

end Nnxt
