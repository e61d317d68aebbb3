import Nnxt.Action
import Nnxt.RingSystem
import Nnxt.Foundation.HashMap

/-!
# Queues of an actor

The writers an actor has created, by address, and its readers in the order they
were connected. What the system calls behind them answer is an argument.
-/

namespace Nnxt

set_option autoImplicit false

open HashMap

inductive ActorsError where
  | queueNotFound (addr : String)
  | queueAlreadyExists (addr : String)
  | rapidError (error : RingError)
  | system (addr : String)
  deriving DecidableEq, Repr

def queuePath (dataType source target : String) : String :=
  dataType ++ "/" ++ source ++ "/" ++ target

def actionQueue (strategyId tradeGatewayId : String) : String :=
  queuePath "action" strategyId tradeGatewayId

/-- The element type a reader was connected at. -/
inductive ElementType where
  | orderBook
  | orderEvent
  | tradeEvent
  | action
  deriving DecidableEq, Repr

structure RapidSource where
  addr : String
  elementType : ElementType
  deriving DecidableEq, Repr

structure ActorContext where
  rapidSources : List RapidSource
  writers : Map String (RingSystem Action)

def defaultMaxReaders : Nat := 16

/-- Zeroed memory, read as an action. -/
def Action.zeroed : Action := .ofNewOrder ⟨default, 0, 0, .buy, .limit, 0, 0, 0⟩

namespace ActorContext

def new : ActorContext := ⟨[], ∅⟩

/-- The source id is the number of sources before. -/
def readFrom (ctx : ActorContext) (addr : String) (elementType : ElementType)
    (opened : Bool) : ActorContext × Except ActorsError Nat :=
  if opened then
    ({ ctx with rapidSources := ctx.rapidSources ++ [⟨addr, elementType⟩] },
     .ok ctx.rapidSources.length)
  else (ctx, .error (.system addr))

def writeTo (ctx : ActorContext) (addr : String) (capacity : UInt64) (opened : Bool) :
    ActorContext × Except ActorsError Unit :=
  match ctx.writers.lookup addr with
  | some _ => (ctx, .error (.queueAlreadyExists addr))
  | none =>
    if opened then
      match Ring.create capacity defaultMaxReaders Action.zeroed with
      | .error error => (ctx, .error (.rapidError error))
      | .ok (ring, writer) =>
        ({ ctx with writers := ctx.writers.insert addr (RingSystem.start ring writer) }, .ok ())
    else (ctx, .error (.system addr))

def publish (ctx : ActorContext) (addr : String) (action : Action) :
    ActorContext × Except ActorsError Unit :=
  match ctx.writers.lookup addr with
  | none => (ctx, .error (.queueNotFound addr))
  | some queue =>
    ({ ctx with writers := ctx.writers.insert addr (queue.step (.write action)) }, .ok ())

def published (ctx : ActorContext) (addr : String) : Option (List Action) :=
  (ctx.writers.lookup addr).map (·.log)

@[simp] theorem readFrom_writers (ctx : ActorContext) (addr : String) (elementType : ElementType)
    (opened : Bool) : (ctx.readFrom addr elementType opened).1.writers = ctx.writers := by
  unfold readFrom
  split <;> rfl

theorem writeTo_rapidSources (ctx : ActorContext) (addr : String) (capacity : UInt64)
    (opened : Bool) : (ctx.writeTo addr capacity opened).1.rapidSources = ctx.rapidSources := by
  unfold writeTo
  split
  · rfl
  · split
    · split <;> rfl
    · rfl

/-- Nothing has changed, or there is a writer at the address. -/
theorem writeTo_cases (ctx : ActorContext) (addr : String) (capacity : UInt64) (opened : Bool) :
    (∃ error, ctx.writeTo addr capacity opened = (ctx, .error error)) ∨
      ∃ queue, ctx.writeTo addr capacity opened =
        ({ ctx with writers := ctx.writers.insert addr queue }, .ok ()) := by
  unfold writeTo
  split
  · exact .inl ⟨_, rfl⟩
  · split
    · split
      · exact .inl ⟨_, rfl⟩
      · exact .inr ⟨_, rfl⟩
    · exact .inl ⟨_, rfl⟩

theorem publish_rapidSources (ctx : ActorContext) (addr : String) (action : Action) :
    (ctx.publish addr action).1.rapidSources = ctx.rapidSources := by
  unfold publish
  split <;> rfl

theorem published_publish {ctx : ActorContext} {addr : String} {actions : List Action}
    (h : ctx.published addr = some actions) (action : Action) :
    (ctx.publish addr action).1.published addr = some (actions ++ [action]) := by
  obtain ⟨queue, hqueue, rfl⟩ := Option.map_eq_some_iff.mp h
  simp only [publish, published, hqueue, AList.lookup_insert, Option.map_some]
  rfl

theorem published_writeTo_some {ctx : ActorContext} {addr other : String} {capacity : UInt64}
    {opened : Bool} {actions : List Action} (h : ctx.published other = some actions) :
    (ctx.writeTo addr capacity opened).1.published other = some actions := by
  unfold writeTo
  split
  · exact h
  · rename_i hnone
    have hne : other ≠ addr := by
      intro heq
      rw [heq, published, hnone, Option.map_none] at h
      cases h
    split
    · split
      · exact h
      · simp only [published, AList.lookup_insert_ne hne]
        exact h
    · exact h

end ActorContext

end Nnxt
