import Nnxt.RunnerSteps

/-!
# Where data pointers are cast

The pointer of a data event is cast once, before anything else is done with the event,
and no other handler casts one. A later run of a runner still has the source ids of the
earlier ones, while the sources count from zero again.
-/

namespace Nnxt

set_option autoImplicit false

open Transition

/-- The type at which `handle_data_event` reads an event of the source. -/
def StrategyRunner.castAt (r : StrategyRunner) (sourceId : Nat) : Option ElementType :=
  match r.quoteSources.find? fun source => source.sourceId = sourceId with
  | some _ => some .orderBook
  | none =>
    if some sourceId = r.orderEventSourceId then some .orderEvent
    else if some sourceId = r.tradeEventSourceId then some .tradeEvent
    else none

/-- The casts that an event leads to. -/
def StrategyRunner.eventCasts (r : StrategyRunner) : Event → List RunnerCall
  | .data sourceId _ =>
    ((r.castAt sourceId).map fun elementType => .queue (.cast sourceId elementType)).toList
  | _ => []

/-- The runner keeps the id for a source of the type. -/
def StrategyRunner.Keeps (r : StrategyRunner) (sourceId : Nat) : ElementType → Prop
  | .orderBook => ∃ source ∈ r.quoteSources, source.sourceId = sourceId
  | .orderEvent => r.orderEventSourceId = some sourceId
  | .tradeEvent => r.tradeEventSourceId = some sourceId
  | .action => False

/-- The source with this id was connected at the type. -/
def ActorContext.ConnectedAt (ctx : ActorContext) (sourceId : Nat) (elementType : ElementType) :
    Prop :=
  (ctx.rapidSources[sourceId]?).map (·.elementType) = some elementType

/-- If the event is read at a type by an id kept from before the run, the source that has
the id in this run is one of that type. -/
def MeetsItsType (before : StrategyRunner) (s : Session) (event : Event × Reaction) : Prop :=
  s.running = true → ∀ sourceId payload elementType, event.1 = .data sourceId payload →
    s.runner.castAt sourceId = some elementType → before.Keeps sourceId elementType →
      s.ctx.ConnectedAt sourceId elementType

/-- The calls cast no pointer. -/
def CastFree (calls : List RunnerCall) : Prop :=
  ∀ sourceId elementType, .queue (.cast sourceId elementType) ∉ calls

section CastFree
variable {calls calls' : List RunnerCall}

theorem castFree_nil : CastFree [] := fun _ _ => List.not_mem_nil

theorem castFree_cons {call : RunnerCall} :
    CastFree (call :: calls) ↔
      (∀ sourceId elementType, call ≠ .queue (.cast sourceId elementType)) ∧ CastFree calls := by
  constructor
  · intro h
    refine ⟨fun sourceId elementType heq => ?_, fun sourceId elementType hmem => ?_⟩
    · exact h sourceId elementType (heq ▸ List.mem_cons_self)
    · exact h sourceId elementType (List.mem_cons_of_mem _ hmem)
  · rintro ⟨hcall, hcalls⟩ sourceId elementType hmem
    rcases List.mem_cons.mp hmem with heq | hmem
    · exact hcall sourceId elementType heq.symm
    · exact hcalls sourceId elementType hmem

theorem CastFree.append (h : CastFree calls) (h' : CastFree calls') : CastFree (calls ++ calls') := by
  intro sourceId elementType hmem
  rcases List.mem_append.mp hmem with hmem | hmem
  · exact h sourceId elementType hmem
  · exact h' sourceId elementType hmem

theorem castFree_followed {α : Type} {o : Outcome α}
    {next : StrategyRunner → ActorContext → α → List RunnerCall}
    (h : ∀ r ctx value, CastFree (next r ctx value)) : CastFree (o.followed next) := by
  unfold Outcome.followed
  split
  · exact castFree_nil
  · exact h _ _ _

end CastFree

namespace StrategyRunner

section Handlers
variable (r : StrategyRunner) (nowNs : UInt64)

theorem castFree_submitCalls (intents : List Intent) : CastFree (r.submitCalls nowNs intents) := by
  unfold submitCalls writeCalls
  refine CastFree.append ?_ ?_
  · intro sourceId elementType hmem
    obtain ⟨action, -, haction⟩ := List.mem_map.mp hmem
    cases haction
  · split
    · exact castFree_nil
    · intro sourceId elementType hmem
      obtain ⟨action, -, haction⟩ := List.mem_map.mp hmem
      cases haction

theorem castFree_callbackCalls (calls : List ContextCall) : CastFree (r.callbackCalls nowNs calls) :=
  r.castFree_submitCalls nowNs _

theorem castFree_orderBookCalls (book : OrderBook) (instrumentId : InstrumentId)
    (calls : List ContextCall) : CastFree (r.orderBookCalls book instrumentId nowNs calls) := by
  unfold orderBookCalls
  split
  · exact castFree_nil
  · exact castFree_cons.mpr ⟨by simp, castFree_callbackCalls _ nowNs calls⟩

theorem castFree_orderEventCalls (event : OrderEvent) (calls : List ContextCall) :
    CastFree (r.orderEventCalls event nowNs calls) := by
  refine castFree_cons.mpr ⟨by simp, ?_⟩
  split
  · exact castFree_callbackCalls _ nowNs calls
  · exact castFree_nil

theorem castFree_tradeEventCalls (event : TradeEvent) (calls : List ContextCall) :
    CastFree (r.tradeEventCalls event nowNs calls) := by
  refine castFree_cons.mpr ⟨by simp, ?_⟩
  split
  · exact castFree_callbackCalls _ nowNs calls
  · exact castFree_nil

theorem castFree_fireCalls (r : StrategyRunner) (ctx : ActorContext) (events : List TimerEvent)
    (calls : List (List ContextCall)) : CastFree (r.fireCalls nowNs ctx events calls) := by
  induction events generalizing r ctx calls with
  | nil => exact castFree_nil
  | cons event events ih => exact (r.castFree_callbackCalls nowNs _).append (ih _ _ _)

theorem castFree_tickCalls (calls : List (List ContextCall)) (ctx : ActorContext) :
    CastFree (r.tickCalls nowNs calls ctx) :=
  castFree_fireCalls nowNs _ ctx _ calls

/-- The cast of a data event, and the calls of its handler after it. -/
theorem dataCalls_eq (sourceId : Nat) (payload : Payload) (calls : List ContextCall) :
    ∃ rest, CastFree rest ∧ r.dataCalls sourceId payload nowNs calls =
      r.eventCasts (.data sourceId payload) ++ rest := by
  unfold dataCalls eventCasts castAt
  cases hfind : r.quoteSources.find? fun source => source.sourceId = sourceId with
  | some source =>
    simp only [hfind]
    exact ⟨_, r.castFree_orderBookCalls nowNs payload.book source.instrumentId calls, rfl⟩
  | none =>
    simp only [hfind]
    by_cases horder : some sourceId = r.orderEventSourceId
    · simp only [if_pos horder]
      exact ⟨_, r.castFree_orderEventCalls nowNs payload.orderEvent calls, rfl⟩
    simp only [if_neg horder]
    by_cases htrade : some sourceId = r.tradeEventSourceId
    · simp only [if_pos htrade]
      exact ⟨_, r.castFree_tradeEventCalls nowNs payload.tradeEvent calls, rfl⟩
    · simp only [if_neg htrade]
      exact ⟨[], castFree_nil, rfl⟩

end Handlers

section Connecting
variable (r : StrategyRunner) (env : Environment) (ctx : ActorContext)

theorem castFree_readCalls (addr : String) (elementType : ElementType)
    {next : StrategyRunner → ActorContext → Nat → List RunnerCall}
    (h : ∀ r ctx sourceId, CastFree (next r ctx sourceId)) :
    CastFree (r.readCalls env ctx addr elementType next) :=
  castFree_cons.mpr ⟨by simp, castFree_followed h⟩

theorem castFree_subscriptionCalls (subscription : QuoteSubscription) :
    CastFree (r.subscriptionCalls env ctx subscription) := by
  refine castFree_followed fun r ctx addr => ?_
  cases subscription.dataType
  refine r.castFree_readCalls env ctx addr .orderBook fun _ _ sourceId => ?_
  exact castFree_cons.mpr ⟨by simp, castFree_nil⟩

theorem castFree_eachCalls (r : StrategyRunner) (ctx : ActorContext)
    (subscriptions : List QuoteSubscription) : CastFree (r.eachCalls env ctx subscriptions) := by
  induction subscriptions generalizing r ctx with
  | nil => exact castFree_nil
  | cons subscription subscriptions ih =>
    exact (r.castFree_subscriptionCalls env ctx subscription).append
      (castFree_followed fun r ctx _ => ih r ctx)

theorem castFree_actionQueueCalls (addr : String) : CastFree (r.actionQueueCalls env ctx addr) := by
  refine castFree_cons.mpr ⟨by simp, castFree_followed fun _ _ _ => ?_⟩
  exact castFree_cons.mpr ⟨by simp, castFree_nil⟩

theorem castFree_tradeQueueCalls (tradeGatewayId orderEventQueue tradeEventQueue : String) :
    CastFree (r.tradeQueueCalls env ctx tradeGatewayId orderEventQueue tradeEventQueue) := by
  refine (r.castFree_actionQueueCalls env ctx _).append (castFree_followed fun r ctx _ => ?_)
  refine castFree_followed fun r ctx _ => ?_
  refine r.castFree_readCalls env ctx orderEventQueue .orderEvent fun r ctx sourceId => ?_
  refine castFree_cons.mpr ⟨by simp, ?_⟩
  refine castFree_readCalls _ env ctx tradeEventQueue .tradeEvent fun _ _ sourceId => ?_
  exact castFree_cons.mpr ⟨by simp, castFree_nil⟩

theorem castFree_tradeCalls : CastFree (r.tradeCalls env ctx) := by
  unfold tradeCalls
  split
  · exact castFree_nil
  · dsimp only
    split
    · exact castFree_followed fun r ctx reply => r.castFree_tradeQueueCalls env ctx _ _ _
    · exact castFree_actionQueueCalls _ env ctx _

theorem castFree_requestCalls (reaction : Reaction) : CastFree (r.requestCalls reaction ctx) := by
  refine (castFree_submitCalls _ _ _).append (CastFree.append ?_ ?_)
  · exact castFree_eachCalls _ _ _ _
  · exact castFree_followed fun r ctx _ => r.castFree_tradeCalls _ ctx

theorem castFree_startCalls (registered : Except RunnerError Unit) (reaction : Reaction) :
    CastFree (r.startCalls registered reaction ctx) :=
  castFree_followed fun r ctx _ => r.castFree_requestCalls ctx reaction

/-- The calls of an event: for data the cast comes first, and nothing else casts. -/
theorem eventCalls_eq (event : Event) (reaction : Reaction) :
    ∃ rest, CastFree rest ∧ r.eventCalls event reaction ctx = r.eventCasts event ++ rest := by
  cases event with
  | data sourceId payload =>
    obtain ⟨rest, hfree, heq⟩ := r.dataCalls_eq reaction.nowNs sourceId payload reaction.calls
    have hfree' := hfree.append (castFree_tickCalls
      (r.handleDataEvent sourceId payload reaction.nowNs reaction.calls ctx).1 reaction.tickNs
      reaction.timerCalls
      (r.handleDataEvent sourceId payload reaction.nowNs reaction.calls ctx).2)
    refine ⟨_, hfree', ?_⟩
    rw [← List.append_assoc, ← heq]
    rfl
  | control => exact ⟨_, r.castFree_tickCalls reaction.tickNs reaction.timerCalls ctx, rfl⟩
  | external => exact ⟨_, r.castFree_tickCalls reaction.tickNs reaction.timerCalls ctx, rfl⟩
  | timer => exact ⟨_, r.castFree_tickCalls reaction.tickNs reaction.timerCalls ctx, rfl⟩
  | shutdown => exact ⟨_, r.castFree_requestCalls ctx reaction, rfl⟩

end Connecting

end StrategyRunner

end Nnxt
