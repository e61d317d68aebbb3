import Nnxt.ActorContext
import Nnxt.Foundation.Transition

/-!
# The types a queue is used at

`read_from`, `write_to` and `publish` are generic, and the pointer of a data event is
cast. Nothing but the order of these calls keeps a queue at one element type.
-/

namespace Nnxt

set_option autoImplicit false

open HashMap Transition

/-- A context together with the type each writer was created with. -/
structure TypedContext where
  ctx : ActorContext
  writerTypes : Map String ElementType

/-- `cast` reads what the pointer of a data event leads to. -/
inductive QueueCall where
  | readFrom (addr : String) (elementType : ElementType) (opened : Bool)
  | writeTo (addr : String) (elementType : ElementType) (capacity : UInt64) (opened : Bool)
  | publish (addr : String) (elementType : ElementType) (action : Action)
  | cast (sourceId : Nat) (elementType : ElementType)
  deriving DecidableEq, Repr

namespace TypedContext

def new : TypedContext := ⟨ActorContext.new, ∅⟩

def writeTo (c : TypedContext) (addr : String) (elementType : ElementType) (capacity : UInt64)
    (opened : Bool) : TypedContext where
  ctx := (c.ctx.writeTo addr capacity opened).1
  writerTypes :=
    match (c.ctx.writeTo addr capacity opened).2 with
    | .ok _ => c.writerTypes.insert addr elementType
    | .error _ => c.writerTypes

def step (c : TypedContext) : QueueCall → TypedContext
  | .readFrom addr elementType opened =>
    { c with ctx := (c.ctx.readFrom addr elementType opened).1 }
  | .writeTo addr elementType capacity opened => c.writeTo addr elementType capacity opened
  | .publish addr _ action => { c with ctx := (c.ctx.publish addr action).1 }
  | .cast _ _ => c

/-- The source was connected at the type. -/
def ConnectedAt (c : TypedContext) (sourceId : Nat) (elementType : ElementType) : Prop :=
  (c.ctx.rapidSources[sourceId]?).map (·.elementType) = some elementType

/-- The writer found at the address was created at the type. -/
def CreatedAt (c : TypedContext) (addr : String) (elementType : ElementType) : Prop :=
  c.writerTypes.lookup addr = some elementType

/-- A cast reads at the type of its reader, a publish that finds a writer writes at its type. -/
def Matches (c : TypedContext) : QueueCall → Prop
  | .cast sourceId elementType => c.ConnectedAt sourceId elementType
  | .publish addr elementType _ =>
    c.ctx.writers.lookup addr ≠ none → c.CreatedAt addr elementType
  | _ => True

/-- The source id that a call hands out. -/
def newSourceId (c : TypedContext) : QueueCall → Option Nat
  | .readFrom addr elementType opened =>
    match (c.ctx.readFrom addr elementType opened).2 with
    | .ok sourceId => some sourceId
    | .error _ => none
  | _ => none

/-- The source ids handed out along the calls, in order. -/
def sourceIds (c : TypedContext) : List QueueCall → List Nat
  | [] => []
  | call :: calls => (c.newSourceId call).toList ++ (c.step call).sourceIds calls

/-- No source id is handed out twice, and every cast and publish is at the type of
its queue. -/
structure TypeSafe (calls : List QueueCall) : Prop where
  ids : (new.sourceIds calls).Pairwise (· < ·)
  matching : Guarded step Matches new calls

section Sources
variable {c : TypedContext} {sourceId : Nat} {elementType : ElementType}

/-- A call hands out the number of sources and adds one, or leaves the sources alone. -/
theorem sources_step (c : TypedContext) (call : QueueCall) :
    (∃ source, c.newSourceId call = some c.ctx.rapidSources.length ∧
      (c.step call).ctx.rapidSources = c.ctx.rapidSources ++ [source]) ∨
    (c.newSourceId call = none ∧ (c.step call).ctx.rapidSources = c.ctx.rapidSources) := by
  cases call with
  | readFrom addr elementType opened =>
    cases opened with
    | true => exact .inl ⟨_, rfl, rfl⟩
    | false => exact .inr ⟨rfl, rfl⟩
  | writeTo addr elementType capacity opened =>
    exact .inr ⟨rfl, c.ctx.writeTo_rapidSources addr capacity opened⟩
  | publish addr elementType action => exact .inr ⟨rfl, c.ctx.publish_rapidSources addr action⟩
  | cast sourceId elementType => exact .inr ⟨rfl, rfl⟩

theorem sources_prefix_step (c : TypedContext) (call : QueueCall) :
    c.ctx.rapidSources <+: (c.step call).ctx.rapidSources := by
  rcases sources_step c call with ⟨source, -, hsources⟩ | ⟨-, hsources⟩
  · rw [hsources]
    exact List.prefix_append _ _
  · rw [hsources]

theorem ConnectedAt.step (h : c.ConnectedAt sourceId elementType) (call : QueueCall) :
    (c.step call).ConnectedAt sourceId elementType := by
  obtain ⟨source, hsource, htype⟩ := Option.map_eq_some_iff.mp h
  obtain ⟨rest, hrest⟩ := sources_prefix_step c call
  unfold ConnectedAt
  rw [← hrest, List.getElem?_append_left (List.getElem?_eq_some_iff.mp hsource).1, hsource]
  exact congrArg some htype

/-- Whatever the calls are, every id is the position of its source. -/
theorem sourceIds_increase (c : TypedContext) (calls : List QueueCall) :
    (c.sourceIds calls).Pairwise (· < ·) ∧
      ∀ id ∈ c.sourceIds calls, c.ctx.rapidSources.length ≤ id := by
  induction calls generalizing c with
  | nil => exact ⟨List.Pairwise.nil, fun id hid => absurd hid List.not_mem_nil⟩
  | cons call calls ih =>
    obtain ⟨hpairwise, hle⟩ := ih (c.step call)
    rw [sourceIds]
    rcases sources_step c call with ⟨source, hnew, hsources⟩ | ⟨hnew, hsources⟩
    · rw [hsources, List.length_append, List.length_singleton] at hle
      rw [hnew, Option.toList_some, List.singleton_append]
      refine ⟨List.pairwise_cons.mpr ⟨?_, hpairwise⟩, ?_⟩
      · intro id hid
        have hbound := hle id hid
        omega
      · intro id hid
        rcases List.mem_cons.mp hid with rfl | hid
        · exact Nat.le_refl _
        · have hbound := hle id hid
          omega
    · rw [hsources] at hle
      rw [hnew, Option.toList_none, List.nil_append]
      exact ⟨hpairwise, hle⟩

theorem typeSafe_iff {calls : List QueueCall} :
    TypeSafe calls ↔ Guarded step Matches new calls :=
  ⟨TypeSafe.matching, fun h => ⟨(sourceIds_increase new calls).1, h⟩⟩

/-- The id that `read_from` returns is that of a reader connected at its type. -/
theorem connectedAt_readFrom {addr : String} {opened : Bool}
    (h : (c.ctx.readFrom addr elementType opened).2 = .ok sourceId) :
    (c.step (.readFrom addr elementType opened)).ConnectedAt sourceId elementType := by
  cases opened with
  | false => cases h
  | true =>
    cases h
    simp only [ConnectedAt, step, ActorContext.readFrom, if_true, List.getElem?_concat_length,
      Option.map_some]

end Sources

section Writers
variable {c : TypedContext} {addr : String} {elementType : ElementType}

theorem createdAt_writeTo {capacity : UInt64} {opened : Bool}
    (h : (c.ctx.writeTo addr capacity opened).2 = .ok ()) :
    (c.step (.writeTo addr elementType capacity opened)).CreatedAt addr elementType := by
  simp only [CreatedAt, step, writeTo, h, AList.lookup_insert]

/-- A second `write_to` of the same type changes nothing here. -/
theorem CreatedAt.step (h : c.CreatedAt addr elementType) {call : QueueCall}
    (hcall : ∀ other created capacity opened, call = .writeTo other created capacity opened →
      created = elementType) : (c.step call).CreatedAt addr elementType := by
  cases call with
  | writeTo other created capacity opened =>
    cases hcall other created capacity opened rfl
    simp only [CreatedAt, TypedContext.step, writeTo]
    split
    · rw [lookup_insert_eq]
      split
      · rfl
      · exact h
    · exact h
  | _ => exact h

end Writers

end TypedContext

end Nnxt
