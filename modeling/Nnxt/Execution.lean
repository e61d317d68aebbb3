import Nnxt.RunnerState

/-!
# Execution engine

Intents become actions against the state before the batch. The engine's counter
is threaded through, since every new order takes its id from it.
-/

namespace Nnxt

set_option autoImplicit false

open FixedWidth

structure ExecutionEngine where
  counter : UInt64
  deriving DecidableEq, Repr

namespace ExecutionEngine

def new : ExecutionEngine := ⟨1⟩

/-- `fetch_add(1)`: the counter wraps. -/
def nextId (e : ExecutionEngine) : ExecutionEngine × UInt64 := (⟨e.counter + 1⟩, e.counter)

def targetOrder (e : ExecutionEngine) (intent : TargetPositionIntent) (delta : Int64)
    (nowNs : UInt64) : NewOrder where
  instrumentId := intent.instrumentId
  orderId := e.nextId.2
  clientOrderId := 0
  side := if 0 < delta then .buy else .sell
  priceType := intent.priceType
  limitPrice := intent.limitPrice
  quantity := unsignedAbs delta
  timestamp := nowNs

def targetPositionActions (e : ExecutionEngine) (intent : TargetPositionIntent)
    (state : RunnerState) (nowNs : UInt64) : ExecutionEngine × List Action :=
  let delta := saturatingSubI64 intent.targetQuantity (state.effectivePosition intent.instrumentId)
  if delta = 0 then (e, [])
  else (e.nextId.1, [.ofNewOrder (e.targetOrder intent delta nowNs)])

def buildOrder (e : ExecutionEngine) (instrumentId : InstrumentId) (order : TargetOrder)
    (nowNs : UInt64) : ExecutionEngine × Action :=
  (e.nextId.1, .ofNewOrder
    { instrumentId := instrumentId
      orderId := e.nextId.2
      clientOrderId := 0
      side := order.side
      priceType := order.priceType
      limitPrice := order.limitPrice
      quantity := order.quantity
      timestamp := nowNs })

def targetOrdersActions (e : ExecutionEngine) (instrumentId : InstrumentId) (nowNs : UInt64) :
    List TargetOrder → ExecutionEngine × List Action
  | [] => (e, [])
  | order :: orders =>
    let (e', action) := e.buildOrder instrumentId order nowNs
    let (e'', actions) := e'.targetOrdersActions instrumentId nowNs orders
    (e'', action :: actions)

/-- The actions of one intent, an arm of the loop of `execute`. -/
def intentActions (e : ExecutionEngine) (intent : Intent) (state : RunnerState) (nowNs : UInt64) :
    ExecutionEngine × List Action :=
  match intent with
  | .targetPosition intent => e.targetPositionActions intent state nowNs
  | .targetOrders intent => e.targetOrdersActions intent.instrumentId nowNs intent.orders
  | .cancelOrder intent =>
    (e, [.ofCancelOrder ⟨intent.instrumentId, intent.orderId, nowNs⟩])

def execute (e : ExecutionEngine) (intents : List Intent) (state : RunnerState) (nowNs : UInt64) :
    ExecutionEngine × List Action :=
  match intents with
  | [] => (e, [])
  | intent :: intents =>
    let (e', actions) := e.intentActions intent state nowNs
    let (e'', rest) := e'.execute intents state nowNs
    (e'', actions ++ rest)

@[simp] theorem execute_nil (e : ExecutionEngine) (state : RunnerState) (nowNs : UInt64) :
    e.execute [] state nowNs = (e, []) := rfl

theorem execute_cons (e : ExecutionEngine) (intent : Intent) (intents : List Intent)
    (state : RunnerState) (nowNs : UInt64) :
    e.execute (intent :: intents) state nowNs =
      (((e.intentActions intent state nowNs).1.execute intents state nowNs).1,
       (e.intentActions intent state nowNs).2 ++
         ((e.intentActions intent state nowNs).1.execute intents state nowNs).2) := rfl

theorem targetPositionActions_of_met (e : ExecutionEngine) {intent : TargetPositionIntent}
    {state : RunnerState} (nowNs : UInt64)
    (h : state.effectivePosition intent.instrumentId = intent.targetQuantity) :
    e.targetPositionActions intent state nowNs = (e, []) := by
  simp only [targetPositionActions]
  exact if_pos (saturatingSubI64_eq_zero_iff.mpr h)

theorem targetPositionActions_of_missed (e : ExecutionEngine) {intent : TargetPositionIntent}
    {state : RunnerState} (nowNs : UInt64)
    (h : state.effectivePosition intent.instrumentId ≠ intent.targetQuantity) :
    e.targetPositionActions intent state nowNs =
      (e.nextId.1, [.ofNewOrder (e.targetOrder intent (saturatingSubI64 intent.targetQuantity
        (state.effectivePosition intent.instrumentId)) nowNs)]) := by
  simp only [targetPositionActions, saturatingSubI64_eq_zero_iff, if_neg h]

theorem covers_targetOrder (e : ExecutionEngine) (intent : TargetPositionIntent) (delta : Int64)
    (nowNs : UInt64) : (e.targetOrder intent delta nowNs).Covers intent.instrumentId delta :=
  ⟨rfl, rfl, rfl⟩

/-- The intent asks for nothing that is not there already. -/
def Idle (state : RunnerState) : Intent → Prop
  | .targetPosition intent => state.effectivePosition intent.instrumentId = intent.targetQuantity
  | .targetOrders intent => intent.orders = []
  | .cancelOrder _ => False

theorem execute_targetPosition (e : ExecutionEngine) (intent : TargetPositionIntent)
    (state : RunnerState) (nowNs : UInt64) :
    e.execute [.targetPosition intent] state nowNs = e.targetPositionActions intent state nowNs := by
  simp [execute_cons, intentActions]

end ExecutionEngine

end Nnxt
