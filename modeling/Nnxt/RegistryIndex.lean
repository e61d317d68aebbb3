import Nnxt.ActorRegistry
import Nnxt.Foundation.Transition

/-!
# The two indexes of the registry

The queue map should be the inverse of the registrations. Every operation is
followed by what it does to that relation; a `register` that gives up half way,
or repeats an address, breaks it.
-/

namespace Nnxt.RegistryIndex

set_option autoImplicit false

open HashMap ActorRegistry

inductive Step where
  | register (actor : ActorRegistration) (nowNs : UInt64)
  | registerQueue (actorId : String) (queue : QueueInfo)
  | unregister (actorId : String)
  | recordHeartbeat (actorId : String) (nowNs : UInt64)
  | updateHealth (nowNs timeoutNs : UInt64)

def step (r : ActorRegistry) : Step → ActorRegistry
  | .register actor nowNs => (r.register actor nowNs).1
  | .registerQueue actorId queue => (r.registerQueue actorId queue).1
  | .unregister actorId => (r.unregister actorId).1
  | .recordHeartbeat actorId nowNs => (r.recordHeartbeat actorId nowNs).1
  | .updateHealth nowNs timeoutNs => r.updateHealth nowNs timeoutNs

def Lists (r : ActorRegistry) (owner addr queueType : String) : Prop :=
  ∃ record, r.actors.lookup owner = some record ∧ ⟨addr, queueType⟩ ∈ record.registration.queues

/-- The queue map is the inverse of the registrations, and no address occurs
twice across them. -/
structure Agrees (r : ActorRegistry) : Prop where
  indexed : ∀ addr owner queueType,
    r.queues.lookup addr = some ⟨owner, queueType⟩ ↔ Lists r owner addr queueType
  once : ∀ owner, ((r.queuesOf owner).map (·.addr)).Nodup
  apart : ∀ addr owner owner' queueType queueType', Lists r owner addr queueType →
    Lists r owner' addr queueType' → owner = owner'

/-- Every query answers from the one relation `Lists`. -/
structure QueriesAgree (r : ActorRegistry) : Prop where
  lookupQueue : ∀ addr owner queueType,
    r.lookupQueue addr = .ok (owner, queueType) ↔ Lists r owner addr queueType
  byType : ∀ queueType info, info ∈ r.findQueuesByType queueType ↔
    info.queueType = queueType ∧ ∃ owner, Lists r owner info.addr queueType
  byActorType : ∀ actorType queueType info, info ∈ r.findQueuesByActorType actorType queueType ↔
    info.queueType = queueType ∧ ∃ owner record, Lists r owner info.addr queueType ∧
      r.actors.lookup owner = some record ∧ record.registration.actorType = actorType
  byOwner : ∀ owner queueType addr,
    r.findQueueByOwnerType owner queueType = .ok addr → Lists r owner addr queueType
  byOwnerFound : ∀ owner queueType, (∃ addr, Lists r owner addr queueType) →
    ∃ addr, r.findQueueByOwnerType owner queueType = .ok addr
  control : ∀ owner addr,
    r.controlQueue owner = .ok (some addr) → Lists r owner addr "control"
  controlFound : ∀ owner, (∃ addr, Lists r owner addr "control") →
    ∃ addr, r.controlQueue owner = .ok (some addr)
  listed : ∀ owner addr queueType, Lists r owner addr queueType ↔
    ∃ snapshot ∈ r.listActors, snapshot.actorId = owner ∧ ⟨addr, queueType⟩ ∈ snapshot.queues

/-- An address of the request belongs to another actor, so the call fails. -/
def Conflicts (r : ActorRegistry) (actor : ActorRegistration) : Prop :=
  ∃ info ∈ actor.queues, ∃ owner, r.queues.lookup info.addr = some owner ∧
    owner.owner ≠ actor.actorId

/-- A `register` call either fails without having had queues to remove, or
names pairwise distinct addresses. -/
def RegistersCleanly (r : ActorRegistry) : Step → Prop
  | .register actor _ =>
    (Conflicts r actor → r.queuesOf actor.actorId = []) ∧
      (¬ Conflicts r actor → (actor.queues.map (·.addr)).Nodup)
  | _ => True

/-- The invariant: the indexes agree, and records are filed under their own id. -/
structure Inv (r : ActorRegistry) : Prop where
  agrees : Agrees r
  filed : ∀ actorId record, r.actors.lookup actorId = some record →
    record.registration.actorId = actorId

theorem mem_queuesOf {r : ActorRegistry} {owner addr queueType : String} :
    ⟨addr, queueType⟩ ∈ r.queuesOf owner ↔ Lists r owner addr queueType := by
  unfold queuesOf Lists
  cases r.actors.lookup owner with
  | none => simp
  | some record => simp

theorem mem_addrs {r : ActorRegistry} {owner addr : String} :
    addr ∈ (r.queuesOf owner).map (·.addr) ↔ ∃ queueType, Lists r owner addr queueType := by
  rw [List.mem_map]
  constructor
  · rintro ⟨info, hmem, rfl⟩
    exact ⟨info.queueType, mem_queuesOf.mp hmem⟩
  · rintro ⟨queueType, hlists⟩
    exact ⟨_, mem_queuesOf.mpr hlists, rfl⟩

section Queries
variable {r : ActorRegistry}

theorem mem_findQueuesByType {queueType : String} {info : QueueInfo} :
    info ∈ r.findQueuesByType queueType ↔
      info.queueType = queueType ∧ ∃ owner, r.queues.lookup info.addr = some ⟨owner, queueType⟩ := by
  simp only [findQueuesByType, List.mem_map, List.mem_filter, decide_eq_true_eq]
  constructor
  · rintro ⟨⟨addr, owner, _⟩, ⟨hmem, rfl⟩, rfl⟩
    exact ⟨rfl, owner, mem_entries_iff.mp hmem⟩
  · rintro ⟨rfl, owner, hlook⟩
    exact ⟨⟨info.addr, owner, info.queueType⟩, ⟨mem_entries_iff.mpr hlook, rfl⟩, rfl⟩

theorem mem_findQueuesByActorType {actorType queueType : String} {info : QueueInfo} :
    info ∈ r.findQueuesByActorType actorType queueType ↔
      info.queueType = queueType ∧ ∃ owner record,
        r.queues.lookup info.addr = some ⟨owner, queueType⟩ ∧
        r.actors.lookup owner = some record ∧ record.registration.actorType = actorType := by
  simp only [findQueuesByActorType, List.mem_map, List.mem_filter, decide_eq_true_eq]
  constructor
  · rintro ⟨⟨addr, owner, _⟩, ⟨hmem, rfl, htype⟩, rfl⟩
    cases hrecord : r.actors.lookup owner with
    | none => simp [hrecord] at htype
    | some record =>
      refine ⟨rfl, owner, record, mem_entries_iff.mp hmem, hrecord, ?_⟩
      simpa [hrecord] using htype
  · rintro ⟨rfl, owner, record, hlook, hrecord, htype⟩
    refine ⟨⟨info.addr, owner, info.queueType⟩, ⟨mem_entries_iff.mpr hlook, rfl, ?_⟩, rfl⟩
    simp [hrecord, htype]

theorem lookup_of_findQueueByOwnerType {owner queueType addr : String}
    (h : r.findQueueByOwnerType owner queueType = .ok addr) :
    r.queues.lookup addr = some ⟨owner, queueType⟩ := by
  unfold findQueueByOwnerType at h
  split at h
  · rename_i entry hfind
    cases h
    have hkeep := List.find?_some hfind
    obtain ⟨ho, ht⟩ := of_decide_eq_true hkeep
    have hmem := mem_entries_iff.mp (List.mem_of_find?_eq_some hfind)
    rw [hmem, ← ho, ← ht]
  · cases h

theorem findQueueByOwnerType_found {owner queueType addr : String}
    (h : r.queues.lookup addr = some ⟨owner, queueType⟩) :
    ∃ addr', r.findQueueByOwnerType owner queueType = .ok addr' := by
  unfold findQueueByOwnerType
  split
  · exact ⟨_, rfl⟩
  · rename_i hnone
    have hskip := List.find?_eq_none.mp hnone ⟨addr, owner, queueType⟩ (mem_entries_iff.mpr h)
    simp at hskip

theorem lists_of_controlQueue {owner addr : String} (h : r.controlQueue owner = .ok (some addr)) :
    Lists r owner addr "control" := by
  unfold controlQueue at h
  split at h
  · cases h
  · rename_i record hrecord
    rw [Except.ok.injEq, Option.map_eq_some_iff] at h
    obtain ⟨info, hfind, rfl⟩ := h
    have hkeep := List.find?_some hfind
    have htype : info.queueType = "control" := of_decide_eq_true hkeep
    refine ⟨record, hrecord, ?_⟩
    rw [← htype]
    exact List.mem_of_find?_eq_some hfind

theorem controlQueue_found {owner addr : String} (h : Lists r owner addr "control") :
    ∃ addr', r.controlQueue owner = .ok (some addr') := by
  obtain ⟨record, hrecord, hmem⟩ := h
  simp only [controlQueue, hrecord]
  cases hfind : record.registration.queues.find? fun queue => queue.queueType = "control" with
  | some info => exact ⟨info.addr, rfl⟩
  | none =>
    have hskip := List.find?_eq_none.mp hfind _ hmem
    simp at hskip

theorem QueriesAgree.of_inv (h : Inv r) : QueriesAgree r where
  lookupQueue := by
    intro addr owner queueType
    rw [← h.agrees.indexed]
    unfold ActorRegistry.lookupQueue
    cases r.queues.lookup addr with
    | none => simp
    | some found => cases found; simp
  byType := by
    intro queueType info
    simp only [mem_findQueuesByType, h.agrees.indexed]
  byActorType := by
    intro actorType queueType info
    simp only [mem_findQueuesByActorType, h.agrees.indexed]
  byOwner := by
    intro owner queueType addr hfound
    exact (h.agrees.indexed _ _ _).mp (lookup_of_findQueueByOwnerType hfound)
  byOwnerFound := by
    rintro owner queueType ⟨addr, hlists⟩
    exact findQueueByOwnerType_found ((h.agrees.indexed _ _ _).mpr hlists)
  control := fun _ _ hfound => lists_of_controlQueue hfound
  controlFound := by
    rintro owner ⟨addr, hlists⟩
    exact controlQueue_found hlists
  listed := by
    intro owner addr queueType
    simp only [listActors, List.mem_map, mem_values_iff]
    constructor
    · rintro ⟨record, hrecord, hmem⟩
      exact ⟨_, ⟨record, ⟨owner, hrecord⟩, rfl⟩, h.filed owner record hrecord, hmem⟩
    · rintro ⟨_, ⟨record, ⟨actorId, hrecord⟩, rfl⟩, rfl, hmem⟩
      have hid : (snapshot record).actorId = actorId := h.filed actorId record hrecord
      refine ⟨record, ?_, hmem⟩
      rw [hid]
      exact hrecord

end Queries

end Nnxt.RegistryIndex
