import Nnxt.Foundation.Transition
import Nnxt.StrategyRunner
import Nnxt.TradeSimulator

/-!
# Two strategies at one trade gateway

Each strategy writes actions to its own queue; the events come back on two
queues that both read. An event carries the order id its action carried and
nothing that says whose order it is. The queues here remember the owner of each
event; no strategy sees it.
-/

namespace Nnxt.SharedGateway

set_option autoImplicit false

open OrderManager

inductive Party where
  | first
  | second
  deriving DecidableEq

/-- A strategy, how many of its actions were executed, and its two readers. -/
structure Member where
  runner : StrategyRunner
  ctx : ActorContext
  executed : Nat
  orderCursor : Nat
  tradeCursor : Nat

structure System where
  member : Party → Member
  orderEvents : List (Party × OrderEvent)
  tradeEvents : List (Party × TradeEvent)

inductive Step where
  | orderBook (party : Party) (book : OrderBook) (source : InstrumentId) (nowNs : UInt64)
    (calls : List ContextCall)
  | timer (party : Party) (nowNs : UInt64) (calls : List ContextCall)
  | execute (party : Party) (events : List TradeGatewayEvent)
  | deliverOrder (party : Party) (nowNs : UInt64) (calls : List ContextCall)
  | deliverTrade (party : Party) (nowNs : UInt64) (calls : List ContextCall)

def Member.written (m : Member) : List Action :=
  (m.runner.actionQueueAddr.bind m.ctx.published).getD []

def Member.withHandler (m : Member) (after : StrategyRunner × ActorContext) : Member :=
  { m with runner := after.1, ctx := after.2 }

namespace System

def set (s : System) (party : Party) (m : Member) : System :=
  { s with member := Function.update s.member party m }

/-- The gateway executes the next action of a strategy. It may answer in any
way, as long as the events carry the order id of the action. -/
def execute (s : System) (party : Party) (events : List TradeGatewayEvent) : System :=
  let m := s.member party
  match m.written[m.executed]? with
  | none => s
  | some action =>
    if ∀ event ∈ events, event.orderId = action.orderId then
      { s.set party { m with executed := m.executed + 1 } with
        orderEvents := s.orderEvents ++ (orderEventsOf events).map (party, ·)
        tradeEvents := s.tradeEvents ++ (tradeEventsOf events).map (party, ·) }
    else s

def nextOrder (s : System) (party : Party) : Option (Party × OrderEvent) :=
  s.orderEvents[(s.member party).orderCursor]?

def nextTrade (s : System) (party : Party) : Option (Party × TradeEvent) :=
  s.tradeEvents[(s.member party).tradeCursor]?

def step (s : System) : Step → System
  | .orderBook party book source nowNs calls =>
    let m := s.member party
    s.set party (m.withHandler (m.runner.onOrderBook book source nowNs calls m.ctx))
  | .timer party nowNs calls =>
    let m := s.member party
    s.set party (m.withHandler (m.runner.callback nowNs calls m.ctx))
  | .execute party events => s.execute party events
  | .deliverOrder party nowNs calls =>
    let m := s.member party
    match s.nextOrder party with
    | none => s
    | some (_, event) =>
      s.set party ({ m with orderCursor := m.orderCursor + 1 }.withHandler
        (m.runner.onOrderEvent event nowNs calls m.ctx))
  | .deliverTrade party nowNs calls =>
    let m := s.member party
    match s.nextTrade party with
    | none => s
    | some (_, event) =>
      s.set party ({ m with tradeCursor := m.tradeCursor + 1 }.withHandler
        (m.runner.onTradeEvent event nowNs calls m.ctx))

end System

def Connected (s : System) : Prop :=
  ∀ party, (s.member party).runner.state = RunnerState.default

/-- What an event of somebody else may not change. Every order id counts as one
of the strategy's own: its engine counts through all of them. -/
structure Undisturbed (s s' : RunnerState) : Prop where
  orders : ∀ orderId, s'.record orderId = s.record orderId
  positions : ∀ instrumentId, s'.position instrumentId = s.position instrumentId
  exposure : ∀ instrumentId, s'.pendingExposure instrumentId = s.pendingExposure instrumentId
  orderEvents : ∀ event, (s'.applyOrderEvent event).2 = (s.applyOrderEvent event).2
  tradeEvents : ∀ event, (s'.applyTradeEvent event).2 = (s.applyTradeEvent event).2

/-- Delivering an event of the other party, to a callback that makes no calls,
leaves a strategy undisturbed. -/
def LeavesUndisturbed (s : System) : Step → Prop
  | .deliverOrder party nowNs _ => ∀ owner event, s.nextOrder party = some (owner, event) →
    owner ≠ party → Undisturbed (s.member party).runner.state
      ((s.member party).runner.onOrderEvent event nowNs [] (s.member party).ctx).1.state
  | .deliverTrade party nowNs _ => ∀ owner event, s.nextTrade party = some (owner, event) →
    owner ≠ party → Undisturbed (s.member party).runner.state
      ((s.member party).runner.onTradeEvent event nowNs [] (s.member party).ctx).1.state
  | _ => True

/-- An event of the other party is one the strategy has applied before: the same
report for the same order id, or a trade id still in the window. -/
def ForeignIsRepeated (s : System) : Step → Prop
  | .deliverOrder party _ _ => ∀ owner event, s.nextOrder party = some (owner, event) →
    owner ≠ party →
      event.key ∈ (s.member party).runner.state.orderManager.seenFor event.orderId
  | .deliverTrade party _ _ => ∀ owner event, s.nextTrade party = some (owner, event) →
    owner ≠ party → event.tradeId ∈ (s.member party).runner.state.ledger.fillLedger.seen
  | _ => True

section Events
variable {s : RunnerState}

theorem Undisturbed.refl (s : RunnerState) : Undisturbed s s :=
  ⟨fun _ => rfl, fun _ => rfl, fun _ => rfl, fun _ => rfl, fun _ => rfl⟩

/-- An order event is either a repetition, or it cannot come a second time. -/
theorem undisturbed_order_iff (event : OrderEvent) :
    Undisturbed s (s.applyOrderEvent event).1 ↔
      event.key ∈ s.orderManager.seenFor event.orderId := by
  constructor
  · intro h
    by_contra hnew
    -- accepted now, the same report would be refused later
    have haccepted : (s.applyOrderEvent event).2 = true :=
      (applyOrderEvent_accepted_iff s.orderManager event).mpr hnew
    have hsame := h.orderEvents event
    rw [haccepted] at hsame
    have hagain := (applyOrderEvent_accepted_iff (s.orderManager.applyOrderEvent event).1 event).mp
      hsame
    rw [seenFor_applyOrderEvent, if_pos rfl] at hagain
    exact hagain (Finset.mem_insert_self _ _)
  · intro hseen
    have happly := applyOrderEvent_of_seen s.orderManager hseen
    rw [RunnerState.applyOrderEvent, happly]
    exact .refl s

theorem undisturbed_trade_iff (hvalid : s.ledger.fillLedger.Valid) (event : TradeEvent) :
    Undisturbed s (s.applyTradeEvent event).1 ↔ event.tradeId ∈ s.ledger.fillLedger.seen := by
  constructor
  · intro h
    by_contra hnew
    have haccepted := (RunnerState.applyTradeEvent_accepted_iff s event).mpr hnew
    have hsame := h.tradeEvents event
    rw [haccepted, RunnerState.applyTradeEvent_accepted_iff] at hsame
    exact hsame (s.seen_after_applyTradeEvent hvalid event)
  · intro hseen
    rw [RunnerState.applyTradeEvent_of_seen s hseen]
    exact .refl s

end Events

section Steps
variable {s : System}

def WindowsValid (s : System) : Prop :=
  ∀ party, (s.member party).runner.state.ledger.fillLedger.Valid

theorem WindowsValid.set (h : WindowsValid s) {party : Party} {m : Member}
    (hm : m.runner.state.ledger.fillLedger.Valid) : WindowsValid (s.set party m) := by
  intro other
  by_cases heq : other = party
  · subst heq
    simp only [System.set, Function.update_self]
    exact hm
  · simp only [System.set, Function.update_of_ne heq]
    exact h other

theorem WindowsValid.execute (h : WindowsValid s) (party : Party)
    (events : List TradeGatewayEvent) : WindowsValid (s.execute party events) := by
  simp only [System.execute]
  split
  · exact h
  · split
    · exact h.set (h party)
    · exact h

/-- The simulator's answer to an action is one of those the gateway may give. -/
theorem execute_sendOrder (s : System) {party : Party} {action : Action} {g : TradeSimulator}
    (hnext : (s.member party).written[(s.member party).executed]? = some action)
    (hidle : g.events = []) (now₁ now₂ now₃ : UInt64) :
    s.execute party (g.sendOrder action now₁ now₂ now₃).pollEvents.2 =
      { s.set party { s.member party with executed := (s.member party).executed + 1 } with
        orderEvents := s.orderEvents ++
          (orderEventsOf (g.sendOrder action now₁ now₂ now₃).pollEvents.2).map (party, ·)
        tradeEvents := s.tradeEvents ++
          (tradeEventsOf (g.sendOrder action now₁ now₂ now₃).pollEvents.2).map (party, ·) } := by
  have hown : ∀ event ∈ (g.sendOrder action now₁ now₂ now₃).pollEvents.2,
      event.orderId = action.orderId := by
    intro event hevent
    rcases TradeSimulator.orderId_of_mem_sendOrder hevent with hold | hid
    · rw [hidle] at hold
      cases hold
    · exact hid
  simp only [System.execute, hnext]
  exact if_pos hown

theorem ledger_onOrderBook (r : StrategyRunner) (book : OrderBook) (source : InstrumentId)
    (nowNs : UInt64) (calls : List ContextCall) (ctx : ActorContext) :
    (r.onOrderBook book source nowNs calls ctx).1.state.ledger = r.state.ledger := by
  unfold StrategyRunner.onOrderBook
  split
  · rfl
  · rw [StrategyRunner.ledger_callback]
    exact RunnerState.updateMarket_ledger _ book

theorem ledger_onOrderEvent (r : StrategyRunner) (event : OrderEvent) (nowNs : UInt64)
    (calls : List ContextCall) (ctx : ActorContext) :
    (r.onOrderEvent event nowNs calls ctx).1.state.ledger = r.state.ledger := by
  simp only [StrategyRunner.onOrderEvent]
  split
  · rw [StrategyRunner.ledger_callback]
    rfl
  · rfl

theorem ledger_onTradeEvent (r : StrategyRunner) (event : TradeEvent) (nowNs : UInt64)
    (calls : List ContextCall) (ctx : ActorContext) :
    (r.onTradeEvent event nowNs calls ctx).1.state.ledger =
      (r.state.applyTradeEvent event).1.ledger := by
  simp only [StrategyRunner.onTradeEvent]
  split
  · rw [StrategyRunner.ledger_callback]
  · rfl

theorem WindowsValid.step (h : WindowsValid s) (i : Step) : WindowsValid (s.step i) := by
  cases i with
  | orderBook party book source nowNs calls =>
    apply h.set
    rw [Member.withHandler, ledger_onOrderBook]
    exact h party
  | timer party nowNs calls =>
    apply h.set
    rw [Member.withHandler, StrategyRunner.ledger_callback]
    exact h party
  | execute party events => exact h.execute party events
  | deliverOrder party nowNs calls =>
    simp only [System.step]
    split
    · exact h
    · apply h.set
      rw [Member.withHandler, ledger_onOrderEvent]
      exact h party
  | deliverTrade party nowNs calls =>
    simp only [System.step]
    split
    · exact h
    · apply h.set
      rw [Member.withHandler, ledger_onTradeEvent]
      exact RunnerState.valid_applyTradeEvent _ (h party) _

theorem state_callback_nil (r : StrategyRunner) (nowNs : UInt64) (ctx : ActorContext) :
    (r.callback nowNs [] ctx).1.state = r.state := by
  rw [StrategyRunner.state_callback]
  rfl

theorem state_onOrderEvent_nil (r : StrategyRunner) (event : OrderEvent) (nowNs : UInt64)
    (ctx : ActorContext) :
    (r.onOrderEvent event nowNs [] ctx).1.state = (r.state.applyOrderEvent event).1 := by
  simp only [StrategyRunner.onOrderEvent]
  split
  · rw [state_callback_nil]
  · rfl

theorem state_onTradeEvent_nil (r : StrategyRunner) (event : TradeEvent) (nowNs : UInt64)
    (ctx : ActorContext) :
    (r.onTradeEvent event nowNs [] ctx).1.state = (r.state.applyTradeEvent event).1 := by
  simp only [StrategyRunner.onTradeEvent]
  split
  · rw [state_callback_nil]
  · rfl

theorem leavesUndisturbed_iff (h : WindowsValid s) (i : Step) :
    LeavesUndisturbed s i ↔ ForeignIsRepeated s i := by
  cases i with
  | deliverOrder party nowNs calls =>
    simp only [LeavesUndisturbed, ForeignIsRepeated, state_onOrderEvent_nil, undisturbed_order_iff]
  | deliverTrade party nowNs calls =>
    simp only [LeavesUndisturbed, ForeignIsRepeated, state_onTradeEvent_nil,
      undisturbed_trade_iff (h party)]
  | _ => exact Iff.rfl

end Steps

/-- The strategies leave each other undisturbed along exactly the runs in which
each has applied every event of the other before it gets it. -/
theorem undisturbed_iff_repeated {s : System} (hs : Connected s) (is : List Step) :
    Transition.Guarded System.step LeavesUndisturbed s is ↔
      Transition.Guarded System.step ForeignIsRepeated s is := by
  have hvalid : WindowsValid s := by
    intro party
    rw [hs party]
    exact FillLedger.valid_new (by decide)
  have keep : ∀ t i, WindowsValid t → WindowsValid (System.step t i) := fun _ i h => h.step i
  have same : ∀ t i, WindowsValid t → (LeavesUndisturbed t i ↔ ForeignIsRepeated t i) :=
    fun _ i h => leavesUndisturbed_iff h i
  exact Transition.guarded_iff_of_inv keep same hvalid is

def simulatorOnline : Environment where
  findQueue := fun _ _ => .error .shutdown
  connectTrade := fun _ _ =>
    .ok ("trade-sim", "order-event/trade-sim/public", "trade-event/trade-sim/public")
  registerQueue := fun _ _ _ => .ok ()
  opened := fun _ => true
  readError := fun _ => .shutdown

def connectedAs (actorId : String) : Member :=
  let started := (StrategyRunner.new ⟨none, 16, true, actorId⟩).startWithCtx (.ok ())
    ⟨simulatorOnline, 1, 2, [.connectTrade "trade-sim"], 3, []⟩ ActorContext.new
  ⟨started.runner, started.ctx, 0, 0, 0⟩

def twoStrategies : System where
  member
    | .first => connectedAs "first"
    | .second => connectedAs "second"
  orderEvents := []
  tradeEvents := []

theorem connected_twoStrategies : Connected twoStrategies := by
  intro party
  cases party <;> rfl

def target (quantity : Int64) : ContextCall :=
  .submitIntent (.targetPosition ⟨default, quantity, .limit, 10⟩)

def acknowledged (quantity : UInt64) : List TradeGatewayEvent :=
  [.order ⟨default, 1, .active, 0, quantity, 10, 6⟩]

/-- Both ask for the same quantity under the same id; the second report changes nothing. -/
def sameOrder : List Step :=
  [.timer .first 4 [target 5], .timer .second 5 [target 5], .execute .first (acknowledged 5),
   .execute .second (acknowledged 5), .deliverOrder .first 7 [], .deliverOrder .first 8 []]

theorem undisturbed_same_order :
    Transition.Guarded System.step LeavesUndisturbed twoStrategies sameOrder := by
  refine (undisturbed_iff_repeated connected_twoStrategies sameOrder).mpr ?_
  simp only [sameOrder, Transition.guarded_cons, Transition.guarded_nil, and_true]
  refine ⟨trivial, trivial, trivial, trivial, ?_, ?_⟩
  · intro owner event hnext howner
    cases hnext
    exact absurd rfl howner
  · intro owner event hnext _
    cases hnext
    decide

/-- The report on the order of the second strategy reaches the order of the first. -/
def sameId : List Step :=
  [.timer .first 4 [target 5], .timer .second 5 [target (-3)], .execute .second (acknowledged 3),
   .deliverOrder .first 7 []]

theorem same_id_disturbs :
    ¬ ∀ (s : System) (is : List Step), Connected s →
      Transition.Guarded System.step LeavesUndisturbed s is := by
  intro h
  have hlast := h twoStrategies sameId connected_twoStrategies (sameId.take 3)
    (.deliverOrder .first 7 []) (List.prefix_refl _)
  have horders := (hlast .second _ rfl nofun).orders 1
  revert horders
  decide

end Nnxt.SharedGateway
