import Nnxt.RunnerState

/-!
# What a strategy can ask for in a callback

The context collects intents and connection requests and passes timer requests
on at once. A callback is the list of calls it makes; what the strategy reads
in between only decides which calls these are.
-/

namespace Nnxt

set_option autoImplicit false

open FixedWidth

inductive MarketDataType where
  | orderBook
  deriving DecidableEq, Repr

structure QuoteSubscription where
  source : String
  instrumentId : InstrumentId
  dataType : MarketDataType
  deriving DecidableEq

structure TradeConnection where
  source : String
  deriving DecidableEq, Repr

structure PendingRequests where
  intents : List Intent
  subscriptions : List QuoteSubscription
  tradeConnection : Option TradeConnection

structure TimerEvent where
  timerId : UInt64
  timestamp : UInt64
  deriving DecidableEq, Repr

structure TimerState where
  id : UInt64
  intervalNs : UInt64
  nextFireNs : UInt64
  deriving DecidableEq, Repr

structure TimerManager where
  nextId : UInt64
  timers : List TimerState
  deriving DecidableEq, Repr

def swapRemove {α : Type} (xs : List α) (index : Nat) : List α :=
  match xs.getLast? with
  | none => xs
  | some last => (xs.set index last).dropLast

namespace TimerManager

protected def default : TimerManager := ⟨0, []⟩

def setTimer (m : TimerManager) (intervalNs nowNs : UInt64) : TimerManager × UInt64 :=
  ({ nextId := m.nextId + 1
     timers := m.timers ++ [⟨m.nextId, intervalNs, saturatingAdd nowNs intervalNs⟩] }, m.nextId)

def cancelTimer (m : TimerManager) (timerId : UInt64) : TimerManager × Bool :=
  match m.timers.findIdx? fun timer => timer.id = timerId with
  | some index => ({ m with timers := swapRemove m.timers index }, true)
  | none => (m, false)

/-- The timers due, in list order; each is rearmed from `now_ns`. -/
def dueTimers (m : TimerManager) (nowNs : UInt64) : TimerManager × List TimerEvent :=
  ({ m with timers := m.timers.map fun timer =>
      if timer.nextFireNs ≤ nowNs then
        { timer with nextFireNs := saturatingAdd nowNs timer.intervalNs }
      else timer },
   (m.timers.filter fun timer => timer.nextFireNs ≤ nowNs).map fun timer => ⟨timer.id, nowNs⟩)

end TimerManager

inductive ContextCall where
  | setTimer (intervalNs : UInt64)
  | cancelTimer (timerId : UInt64)
  | submitIntent (intent : Intent)
  | subscribeQuote (source : String) (instrumentId : InstrumentId)
  | connectTrade (source : String)
  | cancelAll (instrumentId : InstrumentId)

def ContextCall.intents (state : RunnerState) : ContextCall → List Intent
  | .submitIntent intent => [intent]
  | .cancelAll instrumentId => (state.orders instrumentId).map fun order =>
      .cancelOrder ⟨order.instrumentId, order.orderId⟩
  | _ => []

structure StrategyContext where
  nowNs : UInt64
  state : RunnerState
  timers : TimerManager
  intents : List Intent
  subscriptions : List QuoteSubscription
  tradeConnection : Option TradeConnection

namespace StrategyContext

def new (nowNs : UInt64) (state : RunnerState) (timers : TimerManager) : StrategyContext :=
  ⟨nowNs, state, timers, [], [], none⟩

def perform (ctx : StrategyContext) : ContextCall → StrategyContext
  | .setTimer intervalNs => { ctx with timers := (ctx.timers.setTimer intervalNs ctx.nowNs).1 }
  | .cancelTimer timerId => { ctx with timers := (ctx.timers.cancelTimer timerId).1 }
  | .submitIntent intent => { ctx with intents := ctx.intents ++ [intent] }
  | .subscribeQuote source instrumentId =>
    { ctx with subscriptions := ctx.subscriptions ++ [⟨source, instrumentId, .orderBook⟩] }
  | .connectTrade source => { ctx with tradeConnection := some ⟨source⟩ }
  | .cancelAll instrumentId =>
    { ctx with intents := ctx.intents ++ (ctx.state.orders instrumentId).map fun order =>
        .cancelOrder ⟨order.instrumentId, order.orderId⟩ }

def callback (ctx : StrategyContext) (calls : List ContextCall) : StrategyContext :=
  calls.foldl perform ctx

def intoPending (ctx : StrategyContext) : PendingRequests :=
  ⟨ctx.intents, ctx.subscriptions, ctx.tradeConnection⟩

theorem perform_intents (ctx : StrategyContext) (call : ContextCall) :
    (ctx.perform call).intents = ctx.intents ++ call.intents ctx.state := by
  cases call with
  | submitIntent intent => rfl
  | cancelAll instrumentId => rfl
  | _ => exact (List.append_nil _).symm

@[simp] theorem perform_state (ctx : StrategyContext) (call : ContextCall) :
    (ctx.perform call).state = ctx.state := by
  cases call <;> rfl

theorem callback_intents (ctx : StrategyContext) (calls : List ContextCall) :
    (ctx.callback calls).intents =
      ctx.intents ++ calls.flatMap fun call => call.intents ctx.state := by
  induction calls generalizing ctx with
  | nil => exact (List.append_nil _).symm
  | cons call calls ih =>
    rw [List.flatMap_cons, ← List.append_assoc, ← perform_intents]
    have hrest := ih (ctx.perform call)
    rw [perform_state] at hrest
    exact hrest

end StrategyContext

end Nnxt
